import MuduoStudy.Upkeep

namespace MuduoStudy
set_option autoImplicit true

/-- The functors that hold a `TcpConnectionPtr`. The others are bound to `this`. -/
def Server.Functor.holdsPtr : Server.Functor → Bool
  | .connectEstablished | .forceCloseInLoop | .connectDestroyed | .removeConnectionInLoop
  | .notice _ => true
  | .sendInLoop _ | .shutdownInLoop | .startReadInLoop | .stopReadInLoop | .other => false

def Server.Frame.holdsPtr : Server.Frame → Bool
  | .exec f => f.holdsPtr
  -- the rest of `connectDestroyed`
  | .setDisconnected | .remove => true
  | _ => false

namespace World
open Transition Server

/-- `connections_` or a functor holds a `TcpConnectionPtr` to the connection. -/
def Held (w : World) (i : Nat) : Prop :=
  w.connections_ (w.connName i) = some i ∨
    (∃ l f, .conn i f ∈ (w.queue l).contents ∧ f.holdsPtr = true) ∨
    ∃ t f, .conn i f ∈ w.stack t ∧ f.holdsPtr = true

/-- The order in which the loops hand a connection over, said of what the threads are about to
execute. -/
structure HandedOver (w : World) (i : Nat) : Prop where
  once : (w.conns i).established ≤ 1
  establish : ∀ t rest, w.stack t = .conn i (.exec .connectEstablished) :: rest →
    t = .loop (w.ioLoop i) ∧ (w.conns i).established = 0
  /-- before it is established, the connection has nothing else to do -/
  first : (w.conns i).established = 0 →
    (∀ t f, .conn i f ∈ w.stack t → f = .runInloop .connectEstablished ∨
      f = .exec .connectEstablished) ∧
    ∀ l events, w.phase l = .activeChannels events → ∀ e ∈ events, e.1 ≠ i
  /-- `connectDestroyed` is called directly by `doPendingFunctors` -/
  destroy : ∀ t rest, w.stack t = .conn i (.exec .connectDestroyed) :: rest →
    t = .loop (w.ioLoop i) ∧ w.phase (w.ioLoop i) = .functors ∧ rest = [] ∧
      0 < (w.conns i).established ∧ (i, .loop .base) ∈ w.removals
  remove : ∀ t rest, w.stack t = .conn i (.exec .removeConnectionInLoop) :: rest →
    t = .loop .base
  held : i < w.created → (w.conns i).destroyed = 0 → w.Held i

section
variable {w : World} {t : Thread} {i : Nat} {f : Server.Frame} {rest : List Frame}

theorem role_own (h : w.role i t = .loop (w.record i).loop_) : t = .loop (w.ioLoop i) := by
  have hsource := (w.source_eq_some_iff i).2 h
  have hplace := (w.seen_eq_some_iff i).1 (w.seen_ioLoop i)
  rw [source, hplace] at hsource
  exact (Option.some.inj hsource).symm

theorem shown_nil (h : shown i (.loop l) rest = []) : rest = [] := by
  have hcover (fs : List Server.Frame) : cover (.loop l) fs ≠ [] := by
    cases fs with
    | nil => exact List.cons_ne_nil _ _
    | cons f fs => cases f <;> exact List.cons_ne_nil _ _
  cases rest with
  | nil => rfl
  | cons f rest =>
    cases f with
    | user => exact (hcover _ h).elim
    | conn j f =>
      rw [shown] at h
      split at h
      · cases h
      · exact (hcover _ h).elim

theorem view_top (hs : w.stack t = .conn i f :: rest) :
    (w.view i).stack (w.role i t) = f :: shown i (w.role i t) rest := by
  rw [view_stack, hs, shown, if_pos rfl]

theorem of_mem_view_queue {l : Server.Loop} {f : Server.Functor}
    (h : f ∈ ((w.view i).queue l).contents) (hf : f ≠ .other) :
    .conn i f ∈ (w.queue (w.place i l)).contents := by
  have hqueue : (w.view i).queue l = (w.queue (w.place i l)).map (Functor.view i) := rfl
  rw [hqueue, BatchQueue.contents_map] at h
  obtain ⟨g, hg, rfl⟩ := List.mem_map.1 h
  cases g with
  | other => exact (hf rfl).elim
  | conn j g =>
    by_cases hj : j = i
    · subst j
      rwa [Functor.view, if_pos rfl]
    · exact (hf (if_neg hj)).elim

theorem Sound.handedOver (h : Sound config w) (i : Nat) : HandedOver w i := by
  have hk := h.kept i
  have hframe {t : Thread} {f : Server.Frame} (hf : .conn i f ∈ w.stack t) :
      f ∈ (w.view i).stack (w.role i t) := by
    rw [view_stack]
    exact mem_shown _ hf
  have hphase := view_phase (w.seen_ioLoop i)
  have hfirst (he : (w.conns i).established = 0) :
      (∀ t f, .conn i f ∈ w.stack t → f = .runInloop .connectEstablished ∨
        f = .exec .connectEstablished) ∧
      ∀ l events, w.phase l = .activeChannels events → ∀ e ∈ events, e.1 ≠ i := by
    obtain ⟨hframes, hevent⟩ := hk.first he
    refine ⟨?_, ?_⟩
    · intro t f hf
      have hisFirst := hframes _ f (hframe hf)
      rcases h.arranged.frames t _ hf with hown | ⟨_, hpos⟩
      · cases f with
        | runInloop g =>
          cases g with
          | connectEstablished => exact .inl rfl
          | _ => cases hisFirst
        | exec g =>
          cases g with
          | connectEstablished => exact .inr rfl
          | other => cases hown
          | _ => cases hisFirst
        | user => cases hown
        | _ => cases hisFirst
      · rw [he] at hpos
        cases hpos
    · rintro l events hp e hmem rfl
      cases (h.listed l events hp).2 e hmem
      rw [hp, Phase.view] at hphase
      cases hlookup : events.lookup e.1 with
      | none =>
        have hne := List.lookup_eq_none_iff.1 hlookup e hmem
        exact bne_iff_ne.1 hne rfl
      | some revents =>
        rw [hlookup] at hphase
        exact hevent _ revents hphase
  have hdestroy (t : Thread) (rest : List Frame)
      (hs : w.stack t = .conn i (.exec .connectDestroyed) :: rest) :
      t = .loop (w.ioLoop i) ∧ w.phase (w.ioLoop i) = .functors ∧ rest = [] ∧
        0 < (w.conns i).established ∧ (i, .loop .base) ∈ w.removals := by
    obtain ⟨hrole, hfunctors, hrest, he, hq⟩ := hk.destroy (view_top hs)
    have hview : (w.phase (w.ioLoop i)).view i = .functors := hphase.symm.trans hfunctors
    have hnow : w.phase (w.ioLoop i) = .functors := by
      cases hp : w.phase (w.ioLoop i) with
      | functors => rfl
      | poll | activeChannels | swap =>
        rw [hp] at hview
        cases hview
    rw [hrole] at hrest
    exact ⟨role_own hrole, hnow, shown_nil hrest, he, h.recorded i hq⟩
  have hheld (hi : i < w.created) (hd : (w.conns i).destroyed = 0) : w.Held i := by
    rcases hk.held (decide_eq_true hi) hd with hr | ⟨l, hf⟩ | ⟨u, hf⟩
    · exact .inl (of_decide_eq_true hr)
    · exact .inr (.inl ⟨w.place i l, .connectDestroyed, of_mem_view_queue hf (by decide), rfl⟩)
    · have hmem (f : Server.Frame) (hf : f ∈ (w.view i).stack u) (hne : f ≠ .user) :
          ∃ t, .conn i f ∈ w.stack t := by
        simp only [view] at hf
        cases hsource : w.source i u with
        | none =>
          rw [hsource] at hf
          cases hf
        | some t =>
          rw [hsource] at hf
          exact ⟨t, of_mem_shown hf (.inl hne)⟩
      rcases hf with hf | hf
      · obtain ⟨t, ht⟩ := hmem _ hf (by intro hn; cases hn)
        exact .inr (.inr ⟨t, _, ht, rfl⟩)
      · obtain ⟨t, ht⟩ := hmem _ hf (by intro hn; cases hn)
        exact .inr (.inr ⟨t, _, ht, rfl⟩)
  refine ⟨hk.started.lived.sound.established_le, ?_, hfirst, hdestroy, ?_, hheld⟩
  · intro t rest hs
    obtain ⟨hrole, he⟩ := hk.establish (hframe (hs ▸ List.mem_cons_self))
    exact ⟨role_own hrole, he⟩
  · intro t rest hs
    exact role_base (hk.remove (hframe (hs ▸ List.mem_cons_self))).1

end

/-- Whatever the user calls on whatever threads, the loops hand every connection over in the same
order, and it is held until it has been destroyed. -/
theorem close_handoff {w : World} (h : Run World.step (World.init config) as w)
    (hn : AllSteps World.step NewName (World.init config) as) (i : Nat) : HandedOver w i :=
  (Sound.run h hn).handedOver i

def twoLoops : Config := ⟨2, ['s'], fun i => ⟨.io, i, 7 + i, 3, true, true⟩⟩

/-- One iteration of a loop, up to the call of the first functor. -/
def iterate (l : Loop) : List Action := [.poll l [], .loop l, .loop l, .loop l]

def goes (l : Loop) (n : Nat) : List Action := List.replicate n (.go (.loop l) {})

/-- Two connections are made. From the callback of the second, on its own loop, the user closes the
first. -/
def closingAcross : List Action :=
  [.poll .base [], .newConnection, .go (.loop .base) {}, .newConnection, .go (.loop .base) {}] ++
  iterate (.io 0) ++ goes (.io 0) 2 ++ [.leave (.io 0), .loop (.io 0)] ++
  iterate (.io 1) ++ goes (.io 1) 2 ++ [.call (.loop (.io 1)) 0 .forceClose] ++ goes (.io 1) 2 ++
  iterate (.io 0) ++ goes (.io 0) 3 ++ [.leave (.io 0)] ++ goes (.io 0) 1 ++ [.loop (.io 0)] ++
  [.loop .base, .loop .base, .loop .base] ++ goes .base 1 ++ iterate (.io 0)

/-- The first connection is about to be destroyed, the second lives. -/
theorem close_handoff_example : ∃ w, Run World.step (World.init twoLoops) closingAcross w ∧
    w.removals = [(0, .loop .base)] ∧
    w.stack (.loop (.io 0)) = [.conn 0 (.exec .connectDestroyed)] ∧
    HandedOver w 0 ∧ HandedOver w 1 := by
  have hrun : (exec World.step (World.init twoLoops) closingAcross).any (fun w =>
      w.removals == [(0, .loop .base)] &&
        w.stack (.loop (.io 0)) == [.conn 0 (.exec .connectDestroyed)]) = true := by
    decide +kernel
  obtain ⟨w, hw, hp⟩ := Run.of_exec_any hrun
  rw [Bool.and_eq_true, beq_iff_eq, beq_iff_eq] at hp
  obtain ⟨hremovals, hstack⟩ := hp
  have hnames : AllSteps World.step NewName (World.init twoLoops) closingAcross := by
    decide +kernel
  exact ⟨w, hw, hremovals, hstack, close_handoff hw hnames 0, close_handoff hw hnames 1⟩

end World
end MuduoStudy
