import MuduoStudy.Beginning

namespace MuduoStudy.Server
open Transition
set_option autoImplicit true

/-- The frames in which `connectDestroyed` is executed. -/
def Frame.isDestroying : Frame → Bool
  | .exec .connectDestroyed | .setDisconnected | .connectionCallback .connectDestroyed
  | .remove => true
  | _ => false

/-- As long as the server lives, `runInloop` is called by `newConnection` and by the user's calls,
and `removeConnectionInLoop` runs on the server's own loop. -/
def Frame.routed (t : Thread) : Frame → Bool
  | .runInloop .connectEstablished => true
  | .runInloop f => f.isApi
  | .exec .removeConnectionInLoop => t = .loop .base
  | _ => true

/-- Every frame and every functor is where it belongs, and `connectDestroyed` is executed in
`doPendingFunctors` only. -/
abbrev Routed (functors : Prop) : (Thread → List Frame) → (Loop → BatchQueue Functor) → Prop :=
  Carries (fun t f => f.routed t = true ∧ (f.isDestroying = true → functors))
    (fun l f => f = .removeConnectionInLoop → l = .base)

/-- A call of `connectDestroyed` has nothing below it. -/
def Bottom (stack : Thread → List Frame) : Prop :=
  ∀ t rest, stack t = .exec .connectDestroyed :: rest → rest = []

theorem Bottom.goto {stack : Thread → List Frame} (h : Bottom stack)
    (hrest : ∀ g ∈ rest, g.isBelow = true)
    (hfs : fs.head? ≠ some (.exec .connectDestroyed)) :
    Bottom (Function.update stack t (fs ++ rest)) := by
  intro u r hu
  by_cases hut : u = t
  · subst u
    rw [Function.update_self] at hu
    cases fs with
    | nil =>
      rw [List.nil_append] at hu
      have hbelow := hrest (.exec .connectDestroyed) (hu ▸ List.mem_cons_self)
      cases hbelow
    | cons g gs => exact (hfs (congrArg some (List.cons.inj hu).1)).elim
  · rw [Function.update_of_ne hut] at hu
    exact h u r hu

theorem Bottom.enter {stack : Thread → List Frame} (h : Bottom stack) (f : Frame) :
    Bottom (Function.update stack t [f]) := by
  intro u r hu
  by_cases hut : u = t
  · subst u
    rw [Function.update_self] at hu
    exact (List.cons.inj hu).2.symm
  · rw [Function.update_of_ne hut] at hu
    exact h u r hu

structure Living (s : Server) : Prop where
  custody : Handoff.Custody s.handoff (worth s.stack s.queue)
  routed : Routed (s.phase s.loop_ = .functors) s.stack s.queue
  bottom : Bottom s.stack

theorem Living.init (config : Config) : Living (Server.init config) :=
  ⟨⟨rfl, rfl, nofun⟩, ⟨fun _ _ => nofun, fun _ _ => nofun⟩, fun _ _ => nofun⟩

section
variable {s s' : Server} {t : Thread} {f : Frame} {rest : List Frame}

theorem Goes.phase (h : Goes s t rest k f s') :
    s'.phase = s.phase ∧ s'.loop_ = s.loop_ ∧ s'.alive = s.alive := by
  cases h with
  | exec hc => cases hc <;> exact ⟨rfl, rfl, rfl⟩
  | _ => exact ⟨rfl, rfl, rfl⟩

theorem isDestroying_dispatch (revents : Events) :
    ∀ g ∈ dispatch revents, g.routed t = true ∧ g.isDestroying = false := by
  intro g hg
  rcases mem_dispatch hg with rfl | rfl | rfl <;> exact ⟨rfl, rfl⟩

theorem head_dispatch (revents : Events) :
    (dispatch revents).head? ≠ some (.exec .connectDestroyed) := by
  intro h
  rcases mem_dispatch (List.mem_of_head? h) with hg | hg | hg <;> cases hg

theorem Living.goto (hl : Living s) (hp : Placed s) (hs : s.stack t = f :: rest) (fs : List Frame)
    (hfs : ∀ g ∈ fs, g.routed t = true ∧ (g.isDestroying = true → f.isDestroying = true))
    (hhead : fs.head? ≠ some (.exec .connectDestroyed)) :
    Routed (s.phase s.loop_ = .functors) (Function.update s.stack t (fs ++ rest)) s.queue ∧
      Bottom (Function.update s.stack t (fs ++ rest)) := by
  obtain ⟨hrest, hbelow⟩ := hp.belowTop hs
  obtain ⟨_, hf⟩ := hl.routed.frames t f (hs ▸ List.mem_cons_self)
  have hmoved (g : Frame) (hg : g ∈ fs) : g.routed t = true ∧
      (g.isDestroying = true → s.phase s.loop_ = .functors) :=
    ⟨(hfs g hg).1, fun hd => hf ((hfs g hg).2 hd)⟩
  exact ⟨Carries.goto hl.routed fs hmoved hrest, hl.bottom.goto hbelow hhead⟩

theorem Called.living (hl : Living s) (hp : Placed s) (hs : s.stack t = .exec g :: rest)
    (h : Called s t rest k g s') :
    Routed (s.phase s.loop_ = .functors) s'.stack s'.queue ∧ Bottom s'.stack := by
  have hgoto := hl.goto hp hs
  have hone {f : Frame} (hf : f.routed t = true)
      (hd : f.isDestroying = true → (Frame.exec g).isDestroying = true) :
      ∀ f' ∈ [f], f'.routed t = true ∧
        (f'.isDestroying = true → (Frame.exec g).isDestroying = true) :=
    List.forall_mem_singleton.2 ⟨hf, hd⟩
  have hnil := hgoto [] (List.forall_mem_nil _) nofun
  cases h with
  | connectEstablished =>
    exact hgoto [.connectionCallback .connectEstablished] (hone rfl nofun) nofun
  | @sendInLoop c notices =>
    have hmem (f : Frame) (hf : f ∈ notices.map Frame.queueNotice) : ∃ n, f = .queueNotice n := by
      obtain ⟨n, _, hn⟩ := List.mem_map.1 hf
      exact ⟨n, hn.symm⟩
    refine hgoto (notices.map .queueNotice) ?_ ?_
    · intro f hf
      obtain ⟨n, rfl⟩ := hmem f hf
      exact ⟨rfl, nofun⟩
    · intro hhead
      obtain ⟨n, hn⟩ := hmem _ (List.mem_of_head? hhead)
      cases hn
  | sendLate | shutdownInLoop | forceCloseLate | startReadInLoop | stopReadInLoop => exact hnil
  | forceCloseInLoop => exact hgoto [.handleClose] (hone rfl nofun) nofun
  | destroyConnected =>
    exact hgoto [.setDisconnected, .remove]
      (List.forall_mem_cons.2 ⟨⟨rfl, fun _ => rfl⟩, hone rfl fun _ => rfl⟩) nofun
  | destroyLate => exact hgoto [.remove] (hone rfl fun _ => rfl) nofun
  | removeConnectionInLoop => exact ⟨hnil.1.post nofun, hnil.2⟩
  | notice | other => exact hgoto [.user] (hone rfl nofun) nofun

theorem Goes.living (hl : Living s) (hp : Placed s) (hs : s.stack t = f :: rest)
    (h : Goes s t rest k f s') :
    Routed (s.phase s.loop_ = .functors) s'.stack s'.queue ∧ Bottom s'.stack := by
  have hgoto := hl.goto hp hs
  have hone {g : Frame} (hg : g.routed t = true)
      (hd : g.isDestroying = true → f.isDestroying = true) :
      ∀ g' ∈ [g], g'.routed t = true ∧ (g'.isDestroying = true → f.isDestroying = true) :=
    List.forall_mem_singleton.2 ⟨hg, hd⟩
  have hnil := hgoto [] (List.forall_mem_nil _) nofun
  have hrouted : f.routed t = true := (hl.routed.frames t f (hs ▸ List.mem_cons_self)).1
  cases h with
  | @handleEvent revents =>
    refine hgoto _ ?_ (head_dispatch revents)
    intro g hg
    obtain ⟨hg, hd⟩ := isDestroying_dispatch (t := t) revents g hg
    exact ⟨hg, fun ht => (Bool.false_ne_true (hd.symm.trans ht)).elim⟩
  | readData => exact hgoto [.user] (hone rfl nofun) nofun
  | readEof => exact hgoto [.handleClose] (hone rfl nofun) nofun
  | readError | handleWrite | ifDisconnecting | ifNotDisconnecting | remove | sendDropped
  | shutdownDropped | forceCloseDropped => exact hnil
  | @drained c =>
    refine hgoto (drainedFrames c) ?_ ?_
    · intro g hg
      rcases mem_drained hg with rfl | rfl
      · exact ⟨rfl, nofun⟩
      · exact ⟨rfl, nofun⟩
    · intro hhead
      rcases mem_drained (List.mem_of_head? hhead) with hg | hg <;> cases hg
  | handleClose =>
    exact hgoto [.connectionCallback .handleClose, .closeCallback]
      (List.forall_mem_cons.2 ⟨⟨rfl, nofun⟩, hone rfl nofun⟩) nofun
  | connectionCallback => exact hgoto [.user] (hone rfl nofun) nofun
  | closeInLoop _ ht =>
    exact hgoto [.exec .removeConnectionInLoop] (hone (decide_eq_true ht) nofun) nofun
  | closeQueued => exact ⟨hnil.1.post fun _ => rfl, hnil.2⟩
  | setDisconnected =>
    exact hgoto [.connectionCallback .connectDestroyed] (hone rfl fun _ => rfl) nofun
  | @send m => exact hgoto [.runInloop (.sendInLoop m)] (hone rfl nofun) nofun
  | shutdown => exact hgoto [.setDisconnecting] (hone rfl nofun) nofun
  | setDisconnecting => exact hgoto [.runInloop .shutdownInLoop] (hone rfl nofun) nofun
  | forceClose => exact hgoto [.queueForceClose] (hone rfl nofun) nofun
  | @runInLoop g =>
    cases g with
    | connectDestroyed | removeConnectionInLoop | notice | other => cases hrouted
    | _ => exact hgoto [.exec _] (hone rfl nofun) nofun
  | @runQueued g =>
    cases g with
    | removeConnectionInLoop => cases hrouted
    | _ => exact ⟨hnil.1.post nofun, hnil.2⟩
  | queueForceClose | queueNotice => exact ⟨hnil.1.post nofun, hnil.2⟩
  | exec hc => exact hc.living hl hp hs

end

section
variable {s : Server} {l : Loop} {q : BatchQueue Functor}

theorem Living.turn (hl : Living s) (hp : Placed s) (hs : s.stack (.loop l) = []) (p : Phase)
    (hq : ∀ f ∈ q.contents, f ∈ (s.queue l).contents) :
    Routed (Function.update s.phase l p s.loop_ = .functors) s.stack
      (Function.update s.queue l q) := by
  have hqueue : Routed (s.phase s.loop_ = .functors) s.stack (Function.update s.queue l q) :=
    hl.routed.setQueue fun f hf => hl.routed.queued l f (hq f hf)
  refine ⟨?_, hqueue.queued⟩
  intro t f hf
  obtain ⟨hroute, hdestroying⟩ := hl.routed.frames t f hf
  refine ⟨hroute, fun hd => ?_⟩
  have hlocal : f.isLocal = true := by
    cases f with
    | exec g => cases g <;> first | rfl | cases hd
    | connectionCallback | setDisconnected | remove => rfl
    | _ => cases hd
  have hhome := Frame.home (hp.carries.frames t f hf) hlocal
  -- the frame is on the stack of the connection's loop, which is not the one that moves on
  have hne : s.loop_ ≠ l := by
    rintro rfl
    rw [hhome, hs] at hf
    cases hf
  rw [Function.update_of_ne hne]
  exact hdestroying hd

theorem Living.setPhase (hl : Living s) (hp : Placed s) (hs : s.stack (.loop l) = []) (p : Phase) :
    Routed (Function.update s.phase l p s.loop_ = .functors) s.stack s.queue := by
  have hturn := hl.turn (q := s.queue l) hp hs p fun _ hf => hf
  rwa [Function.update_eq_self] at hturn

theorem Living.enter {functors : Prop} {queue : Loop → BatchQueue Functor} (hl : Living s)
    (f : Frame) (hr : Routed functors s.stack queue) (hf : f.routed (.loop l) = true)
    (hd : f.isDestroying = true → functors) :
    Routed functors (Function.update s.stack (.loop l) [f]) queue ∧
      Bottom (Function.update s.stack (.loop l) [f]) :=
  ⟨Carries.goto hr [f] (List.forall_mem_singleton.2 ⟨hf, hd⟩) (List.forall_mem_nil _),
    hl.bottom.enter f⟩

end

/-- As long as nobody destroys the server, it lives. -/
theorem Living.step {s s' : Server} (hl : Living s) (hv : Lived s) (h : s.step a = some s')
    (ha : a ≠ .destroy) : Living s' := by
  have hp := hv.placed
  have hmoves := Moves.step hp hv.begun h
  have hdone {s' : Server} (hmoves : Moves s s') (halive : s'.alive = s.alive)
      (hr : Routed (s'.phase s'.loop_ = .functors) s'.stack s'.queue) (hb : Bottom s'.stack) :
      Living s' :=
    ⟨hl.custody.move hmoves (halive.trans hl.custody.alive), hr, hb⟩
  cases Step.of_step h with
  | go hs hg =>
    obtain ⟨hphase, hloop, halive⟩ := hg.phase
    obtain ⟨hr, hb⟩ := hg.living hl hp hs
    exact hdone hmoves halive (by rwa [hphase, hloop]) hb
  | @activeChannel l revents hs =>
    have hphase := hl.setPhase hp hs (.activeChannels none)
    obtain ⟨hr, hb⟩ := hl.enter (.handleEvent revents) hphase rfl nofun
    exact hdone hmoves rfl hr hb
  | handled hs => exact hdone hmoves rfl (hl.setPhase hp hs .swap) hl.bottom
  | @swap l hs hphase =>
    have hb := hp.batch l (by rw [hphase]; nofun)
    have hcontents := BatchQueue.contents_swap hb
    have hr := hl.turn (q := (s.queue l).swap) hp hs .functors fun f hf => hcontents ▸ hf
    exact hdone hmoves rfl hr hl.bottom
  | endFunctors hs => exact hdone hmoves rfl (hl.setPhase hp hs .poll) hl.bottom
  | @callFunctor l f q hs hphase hq =>
    obtain ⟨hbase, hr⟩ := hl.routed.dequeue hq
    have hlocal := (hp.carries.dequeue hq).1
    have hroute : (Frame.exec f).routed (.loop l) = true := by
      cases f with
      | removeConnectionInLoop => exact decide_eq_true (congrArg _ (hbase rfl))
      | _ => rfl
    have hdestroying (hd : (Frame.exec f).isDestroying = true) : s.phase s.loop_ = .functors := by
      cases f with
      | connectDestroyed => exact hlocal rfl ▸ hphase
      | _ => cases hd
    obtain ⟨hr, hb⟩ := hl.enter (.exec f) hr hroute hdestroying
    exact hdone hmoves rfl hr hb
  | poll hs => exact hdone hmoves rfl (hl.setPhase hp hs _) hl.bottom
  | enter =>
    obtain ⟨hr, hb⟩ := hl.enter .user hl.routed rfl nofun
    exact hdone hmoves rfl hr hb
  | leave hs =>
    obtain ⟨hr, hb⟩ := hl.goto hp hs [] (List.forall_mem_nil _) nofun
    exact hdone hmoves rfl hr hb
  | @call t a hu =>
    have hroute : (a.frame s t).routed t = true ∧ (a.frame s t).isDestroying = false := by
      cases a <;> exact ⟨rfl, rfl⟩
    have hne : [a.frame s t].head? ≠ some (.exec .connectDestroyed) := by
      cases a <;> nofun
    have hfits : (a.frame s t).routed t = true ∧
        ((a.frame s t).isDestroying = true → s.phase s.loop_ = .functors) :=
      ⟨hroute.1, fun hd => (Bool.false_ne_true (hroute.2.symm.trans hd)).elim⟩
    have hr := Carries.goto hl.routed [a.frame s t] (List.forall_mem_singleton.2 hfits)
      fun _ hg => hg
    exact hdone hmoves rfl hr (hl.bottom.goto (hp.user_below hu) hne)
  | post => exact hdone hmoves rfl (hl.routed.post nofun) hl.bottom
  | newConnection =>
    obtain ⟨hr, hb⟩ := hl.enter (.runInloop .connectEstablished) hl.routed rfl nofun
    exact hdone hmoves rfl hr hb
  | destroy => exact (ha rfl).elim

theorem framesWorth_le {fs : List Frame} (hf : f ∈ fs) (p : Price) :
    f.worth p ≤ framesWorth p fs := by
  obtain ⟨as, bs, rfl⟩ := List.append_of_mem hf
  rw [framesWorth_append, framesWorth_cons]
  omega

theorem Placed.worth_le {s : Server} (hp : Placed s) (hf : f ∈ s.stack t) (p : Price) :
    f.worth p ≤ worth s.stack s.queue p := by
  cases t with
  | user n =>
    have hapi : f.isApi = true := hp.carries.frames (.user n) f hf
    rw [Frame.worth_of_api hapi]
    exact Nat.zero_le _
  | loop l =>
    have hle := framesWorth_le hf p
    cases l with
    | base => exact hle.trans (by rw [worth]; omega)
    | io => exact hle.trans (by rw [worth]; omega)

theorem exists_of_framesWorth {fs : List Frame} (h : 0 < framesWorth p fs) :
    ∃ f ∈ fs, 0 < f.worth p := by
  obtain ⟨n, hn, hpos⟩ := List.sum_pos_iff_exists_pos_nat.1 h
  obtain ⟨f, hf, rfl⟩ := List.mem_map.1 hn
  exact ⟨f, hf, hpos⟩

theorem exists_of_queueWorth {q : BatchQueue Functor} (h : 0 < queueWorth p q) :
    ∃ f ∈ q.contents, 0 < f.worth p := by
  obtain ⟨n, hn, hpos⟩ := List.sum_pos_iff_exists_pos_nat.1 h
  obtain ⟨f, hf, rfl⟩ := List.mem_map.1 hn
  exact ⟨f, hf, hpos⟩

theorem exists_of_worth {stack : Thread → List Frame} {queue : Loop → BatchQueue Functor}
    (h : 0 < worth stack queue p) :
    (∃ t, ∃ f ∈ stack t, 0 < f.worth p) ∨ ∃ l, ∃ f ∈ (queue l).contents, 0 < f.worth p := by
  have hsome : 0 < framesWorth p (stack (.loop .base)) ∨ 0 < framesWorth p (stack (.loop .io)) ∨
      0 < queueWorth p (queue .base) ∨ 0 < queueWorth p (queue .io) := by
    rw [worth] at h
    omega
  rcases hsome with h | h | h | h
  · exact .inl ⟨_, exists_of_framesWorth h⟩
  · exact .inl ⟨_, exists_of_framesWorth h⟩
  · exact .inr ⟨_, exists_of_queueWorth h⟩
  · exact .inr ⟨_, exists_of_queueWorth h⟩

/-- What holds of a server as long as nobody has destroyed it. -/
structure Kept (s : Server) : Prop where
  started : Started s
  living : Living s

theorem Kept.init (config : Config) : Kept (Server.init config) :=
  ⟨Started.init config, Living.init config⟩

theorem Kept.step {s s' : Server} (hk : Kept s) (h : s.step a = some s') (ha : a ≠ .destroy) :
    Kept s' :=
  ⟨hk.started.step h, hk.living.step hk.started.lived h ha⟩

section
variable {s : Server} {t : Thread} {f : Frame} {rest : List Frame}

theorem Kept.placed (hk : Kept s) : Placed s := hk.started.lived.placed

theorem Kept.establish (hk : Kept s) (hf : .exec .connectEstablished ∈ s.stack t) :
    t = .loop s.loop_ ∧ s.established = 0 := by
  have hworth := hk.placed.worth_le hf ⟨1, 0, 0, 0, 0⟩
  have hsound := hk.started.lived.sound.establish
  have hone : s.handoff.established = s.established := rfl
  have hprice : (Frame.exec .connectEstablished).worth ⟨1, 0, 0, 0, 0⟩ = 1 := rfl
  refine ⟨Frame.home (hk.placed.carries.frames t _ hf) rfl, ?_⟩
  split at hsound <;> omega

theorem Kept.first (hk : Kept s) (he : s.established = 0) :
    (∀ t, ∀ f ∈ s.stack t, f.isFirst = true) ∧
      ∀ l revents, s.phase l ≠ .activeChannels (some revents) := by
  rcases hk.started.fresh with hpos | ⟨hu, hf⟩
  · rw [he] at hpos
    cases hpos
  · exact ⟨fun t f hmem => (hf.first.frames t f hmem).1, hu.event⟩

theorem Kept.established (hk : Kept s) (hf : f ∈ s.stack t) (hfirst : f.isFirst = false) :
    0 < s.established := by
  apply Nat.pos_of_ne_zero
  intro he
  exact Bool.false_ne_true (hfirst.symm.trans ((hk.first he).1 t f hf))

theorem Kept.destroy (hk : Kept s) (hs : s.stack t = .exec .connectDestroyed :: rest) :
    t = .loop s.loop_ ∧ s.phase s.loop_ = .functors ∧ rest = [] ∧ 0 < s.established ∧
      0 < s.destroyQueued := by
  have hf : .exec .connectDestroyed ∈ s.stack t := hs ▸ List.mem_cons_self
  have hworth := hk.placed.worth_le hf ⟨0, 0, 0, 1, 0⟩
  have hcustody := hk.living.custody.destroy
  have hprice : (Frame.exec .connectDestroyed).worth ⟨0, 0, 0, 1, 0⟩ = 1 := rfl
  have hqueued : s.handoff.destroyQueued = s.destroyQueued := rfl
  have hhome := Frame.home (hk.placed.frame hs) rfl
  have hphase := (hk.living.routed.frames t _ hf).2 rfl
  exact ⟨hhome, hphase, hk.living.bottom t rest hs, hk.established hf rfl, by omega⟩

theorem Kept.remove (hk : Kept s) (hf : .exec .removeConnectionInLoop ∈ s.stack t) :
    t = .loop .base ∧ s.created = true := by
  have hroute := (hk.living.routed.frames t _ hf).1
  have hsound := hk.started.lived.sound.establish
  have hpos : 0 < s.handoff.established := hk.established hf rfl
  refine ⟨of_decide_eq_true hroute, ?_⟩
  by_contra hc
  have hcreated : s.handoff.created ≠ true := hc
  rw [if_neg hcreated] at hsound
  omega

/-- Until `connectDestroyed` has finished, the connection is registered or `connectDestroyed` is on
its way. -/
theorem Kept.held (hk : Kept s) (hc : s.created = true) (hd : s.destroyed = 0) :
    s.registered = true ∨ (∃ l, .connectDestroyed ∈ (s.queue l).contents) ∨
      ∃ t, .exec .connectDestroyed ∈ s.stack t ∨ .remove ∈ s.stack t := by
  have hcustody := hk.living.custody.destroy
  have hfinish := hk.started.lived.sound.finish
  have hdestroyed : s.handoff.destroyed = 0 := hd
  rcases hk.living.custody.held hc with hr | hq
  · exact .inl hr
  · right
    by_cases hw : 0 < worth s.stack s.queue ⟨0, 0, 0, 1, 0⟩
    · rcases exists_of_worth hw with ⟨t, f, hf, hpos⟩ | ⟨l, f, hf, hpos⟩
      · have hroute := (hk.living.routed.frames t f hf).1
        cases f with
        | exec g => cases g <;> first | exact .inr ⟨t, .inl hf⟩ | cases hpos
        | runInloop g =>
          cases g with
          | connectDestroyed => cases hroute
          | _ => cases hpos
        | _ => cases hpos
      · cases f with
        | connectDestroyed => exact .inl ⟨l, hf⟩
        | _ => cases hpos
    · have hw' : 0 < worth s.stack s.queue ⟨0, 0, 0, 0, 1⟩ := by omega
      rcases exists_of_worth hw' with ⟨t, f, hf, hpos⟩ | ⟨l, f, hf, hpos⟩
      · cases f with
        | remove => exact .inr ⟨t, .inr hf⟩
        | exec g => cases g <;> cases hpos
        | runInloop g => cases g <;> cases hpos
        | _ => cases hpos
      · cases f <;> cases hpos

end

/-- The second state is reached from the first, and nobody destroys the server on the way. -/
def Leads (s s' : Server) : Prop := ∃ as, Run Server.step s as s' ∧ .destroy ∉ as

theorem Leads.refl (s : Server) : Leads s s := ⟨[], .nil s, List.not_mem_nil⟩

theorem Leads.step {s s' : Server} (h : s.step a = some s') (ha : a ≠ .destroy) : Leads s s' :=
  ⟨[a], .cons h (.nil s'), fun hmem => ha (List.mem_singleton.1 hmem).symm⟩

theorem Leads.trans {s s' s'' : Server} (h : Leads s s') (h' : Leads s' s'') : Leads s s'' := by
  obtain ⟨as, hr, ha⟩ := h
  obtain ⟨bs, hr', hb⟩ := h'
  exact ⟨as ++ bs, hr.append hr', fun hmem => (List.mem_append.1 hmem).elim ha hb⟩

theorem Leads.kept {s s' : Server} (h : Leads s s') (hk : Kept s) : Kept s' := by
  obtain ⟨as, hr, ha⟩ := h
  induction hr with
  | nil => exact hk
  | cons hs _ ih =>
    rw [List.mem_cons, not_or] at ha
    exact ih (hk.step hs fun h => ha.1 h.symm) ha.2

end MuduoStudy.Server
