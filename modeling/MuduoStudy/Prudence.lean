import MuduoStudy.Dangling
import MuduoStudy.Shutdown

namespace MuduoStudy
open Transition Server
set_option autoImplicit true

namespace Server

theorem Goes.queues {s s' : Server} (h : Goes s t rest k f s') (hg : g ∈ (s'.queue l).contents) :
    g ∈ (s.queue l).contents ∨ g.raw = false ∨ f = .runInloop g ∧ t ≠ .loop s.loop_ := by
  cases h with
  | closeQueued | queueForceClose | queueNotice =>
    rcases mem_push hg with hg | rfl
    · exact .inl hg
    · exact .inr (.inl rfl)
  | runQueued ht =>
    rcases mem_push hg with hg | rfl
    · exact .inl hg
    · exact .inr (.inr ⟨rfl, ht⟩)
  | exec hc =>
    cases hc with
    | removeConnectionInLoop =>
      rcases mem_push hg with hg | rfl
      · exact .inl hg
      · exact .inr (.inl rfl)
    | _ => exact .inl hg
  | _ => exact .inl hg

end Server

namespace Lifetime

/-- The user gives the last pointer of his own back only when no functor without one waits and no
call is under way on the connection's loop, and nobody changes what the channel waits for behind
`connectDestroyed`. -/
def Prudent (x : Lifetime) : Action → Prop
  | .server a => x.server.Detached a
  | .acquire _ => True
  | .release t => x.refs.erase t = [] →
      ¬ x.Waits ∧ ∀ f ∈ x.server.stack (.loop x.server.loop_), f.isCall = false

instance (x : Lifetime) (a : Action) : Decidable (x.Prudent a) :=
  match a with
  | .server _ => inferInstanceAs (Decidable (_ → _))
  | .acquire _ => inferInstanceAs (Decidable True)
  | .release _ => inferInstanceAs (Decidable (_ → _ ∧ ∀ f ∈ _, _))

/-- As long as something may run without a pointer that is kept for it, the user keeps one. -/
structure Safe (x : Lifetime) : Prop where
  tended : Tended x
  owned : Owned x
  removed : Removed x.server
  waits : x.Waits → x.refs ≠ []
  calls : ∀ f ∈ x.server.stack (.loop x.server.loop_), f.isCall = true →
    x.kept (.loop x.server.loop_) = true ∨ x.refs ≠ []
  event : ∀ l revents, x.server.phase l = .activeChannels (some revents) → x.server.destroyed = 0

theorem Safe.init (config : Config) : Safe (Lifetime.init config) :=
  ⟨Tended.init config, fun _ _ _ h => (List.not_mem_nil h).elim,
    fun h => (Nat.lt_irrefl 0 h).elim, fun ⟨_, h, _⟩ => (List.not_mem_nil h).elim,
    fun _ h => (List.not_mem_nil h).elim, fun _ _ h => by cases h⟩

section
variable {x y : Lifetime}

theorem Safe.not_dangling (hx : Safe x) : ¬ x.Dangling := by
  rintro ⟨hc, hn, h⟩
  have hu := Unheld.of_not hn
  rcases h with ⟨t, ht⟩ | ⟨l, revents, hphase⟩
  · cases hs : x.server.stack t with
    | nil =>
      rw [hs] at ht
      cases ht
    | cons f rest =>
      rw [hs] at ht
      have hf : f ∈ x.server.stack t := hs ▸ List.mem_cons_self
      have hcall : f.isCall = true := by
        by_contra hc
        have hlayered := hx.tended.layered t
        rw [hs] at hlayered
        have hbelow := hlayered.below (Bool.eq_false_iff.2 hc) f List.mem_cons_self
        exact Bool.false_ne_true ((hbelow.2 (hu.kept t)).symm.trans ht)
      by_cases hloop : t = .loop x.server.loop_
      · subst t
        rcases hx.calls f hf hcall with hk | hrefs
        · exact Bool.false_ne_true ((hu.kept _).symm.trans hk)
        · exact hrefs hu.refs
      · have hmem := hx.owned t hloop f hf hcall
        rw [hu.refs] at hmem
        cases hmem
  · have hzero := hx.event l revents hphase
    have hpos := hx.tended.destroyed hc hn
    exact Nat.ne_of_gt hpos hzero

section
variable {s : Server} {a : Server.Action}

theorem Safe.waits_advance (hx : Safe x) (hmay : x.mayStep a = true)
    (hs : x.server.step a = some s) (hw : (x.advance a s).Waits) : x.refs ≠ [] := by
  obtain ⟨f, hf, hraw⟩ := hw
  have hold (hloop : s.loop_ = x.server.loop_)
      (h : ∀ l, ∀ g ∈ (s.queue l).contents, g ∈ (x.server.queue l).contents ∨ g.raw = false) :
      x.refs ≠ [] := by
    have hmem : f ∈ (s.queue x.server.loop_).contents := hloop ▸ hf
    rcases h _ f hmem with hmem | hn
    · exact hx.waits ⟨f, hmem, hraw⟩
    · exact (Bool.false_ne_true (hn.symm.trans hraw)).elim
  cases Step.of_step hs with
  | @go t f' rest k _ hstack hg =>
    have hmem : f ∈ (s.queue x.server.loop_).contents := hg.phase.2.1 ▸ hf
    rcases hg.queues hmem with hmem | hn | ⟨rfl, ht⟩
    · exact hx.waits ⟨f, hmem, hraw⟩
    · exact (Bool.false_ne_true (hn.symm.trans hraw)).elim
    · have hcall : (Frame.runInloop f).isCall = true := hraw
      exact List.ne_nil_of_mem (hx.owned t ht _ (hstack ▸ List.mem_cons_self) hcall)
  | @swap l _ hphase =>
    have hb := hx.tended.server.placed.batch l (by rw [hphase]; intro h; cases h)
    exact hold rfl fun l' g hg => .inl (contents_swap hb l' ▸ hg)
  | callFunctor _ _ hq => exact hold rfl fun _ _ hg => .inl (mem_pop hq hg)
  | post =>
    apply hold rfl
    intro l g hg
    rcases mem_push hg with hg | rfl
    · exact .inl hg
    · exact .inr rfl
  | activeChannel | handled | endFunctors | poll | enter | leave | call | newConnection =>
    exact hold rfl fun _ _ hg => .inl hg
  | destroy => exact (Bool.false_ne_true hmay).elim

/-- A call on the connection's loop has a pointer kept for it, or one of the user's. -/
def Covered (x : Lifetime) (t : Thread) (f : Frame) : Prop :=
  t = .loop x.server.loop_ → f.isCall = true →
    x.kept (.loop x.server.loop_) = true ∨ x.refs ≠ []

theorem Safe.covered_advance (hx : Safe x) (hmay : x.mayStep a = true)
    (hs : x.server.step a = some s) (t : Thread) : ∀ f ∈ s.stack t, x.Covered t f := by
  have hold (u : Thread) (f : Frame) (hf : f ∈ x.server.stack u) : x.Covered u f := by
    rintro rfl hcall
    exact hx.calls f hf hcall
  have hno {u : Thread} {f : Frame} (hf : f.isCall = false) : ∀ g ∈ [f], x.Covered u g :=
    List.forall_mem_singleton.2 fun _ hc => (Bool.false_ne_true (hf.symm.trans hc)).elim
  cases Step.of_step hs with
  | @go u f rest k _ hstack hg =>
    obtain ⟨fs, hnew, hleads⟩ := hg.leads
    rw [hnew]
    refine frames_goto hold fs ?_ (fun g hg => hstack ▸ List.mem_cons_of_mem _ hg) t
    rintro g hmem rfl hcall
    have hf : f ∈ x.server.stack (.loop x.server.loop_) := hstack ▸ List.mem_cons_self
    cases hc : f.isCall with
    | true => exact hx.calls f hf hc
    | false =>
      rcases hleads.write hc with rfl | hnot
      · -- `handleWrite` runs below the `guard` of `handleEvent`
        have hlayered := hx.tended.layered (.loop x.server.loop_)
        rw [hstack] at hlayered
        apply Or.inl
        by_contra hk
        have huses := (hlayered.below rfl _ List.mem_cons_self).2 (Bool.eq_false_iff.2 hk)
        cases huses
      · exact (Bool.false_ne_true ((hnot g hmem).symm.trans hcall)).elim
  | activeChannel | enter | newConnection =>
    exact frames_goto hold [_] (hno rfl) (List.forall_mem_nil _) t
  | handled | swap | endFunctors | poll | post => exact hold t
  | @callFunctor l f q _ _ hq =>
    refine frames_goto hold [.exec f] ?_ (List.forall_mem_nil _) t
    intro g hg hl hraw
    cases List.mem_singleton.1 hg
    cases hl
    exact .inr (hx.waits ⟨f, BatchQueue.contents_pop hq ▸ List.mem_cons_self, hraw⟩)
  | leave hstack =>
    exact frames_goto hold [] (List.forall_mem_nil _)
      (fun g hg => hstack ▸ List.mem_cons_of_mem _ hg) t
  | @call u b =>
    refine frames_goto hold [b.frame x.server u] ?_ (fun _ hg => hg) t
    rintro g - rfl -
    simp only [mayStep, Bool.or_eq_true, decide_eq_true_eq, Bool.and_eq_true] at hmay
    rcases hmay with hmem | ⟨_, hkept⟩
    · exact .inr (List.ne_nil_of_mem hmem)
    · exact .inl hkept
  | destroy => exact (Bool.false_ne_true hmay).elim

theorem Safe.event_advance (hx : Safe x) (hmay : x.mayStep a = true)
    (hs : x.server.step a = some s)
    (hphase : s.phase l = .activeChannels (some revents)) : s.destroyed = 0 := by
  have hplaced := hx.tended.server.placed
  have hturn {l' : Loop} {p : Phase} (hp : p ≠ .activeChannels (some revents))
      (h : Function.update x.server.phase l' p l = .activeChannels (some revents)) :
      x.server.destroyed = 0 := by
    by_cases hl : l = l'
    · subst l'
      rw [Function.update_self] at h
      exact (hp h).elim
    · rw [Function.update_of_ne hl] at h
      exact hx.event l revents h
  cases Step.of_step hs with
  | @go t f rest k _ hstack hg =>
    rw [hg.phase.1] at hphase
    have hzero := hx.event l revents hphase
    rcases hg.destroyed with hd | ⟨_, rfl⟩
    · exact hd.trans hzero
    · -- `connectDestroyed` is called in `doPendingFunctors`
      have hfunctors := (hx.tended.server.living.routed.frames t _
        (hstack ▸ List.mem_cons_self)).2 rfl
      cases hplaced.event l revents hphase
      cases hfunctors.symm.trans hphase
  | activeChannel | handled | swap | endFunctors => exact hturn (by intro h; cases h) hphase
  | @poll l' revents' _ _ hr =>
    by_cases hl : l = l'
    · subst l'
      have heq : revents' = some revents := by
        have hself : Function.update x.server.phase l (.activeChannels revents') l =
            .activeChannels (some revents) := hphase
        rw [Function.update_self] at hself
        cases hself
        rfl
      subst heq
      by_contra hne
      have hnone := (hx.removed (Nat.pos_of_ne_zero hne)).2
      have hsome := (hr rfl).2
      rw [hnone] at hsome
      cases hsome
    · have hother : Function.update x.server.phase l' (.activeChannels revents') l =
          .activeChannels (some revents) := hphase
      rw [Function.update_of_ne hl] at hother
      exact hx.event l revents hother
  | callFunctor | enter | leave | call | post | newConnection => exact hx.event l revents hphase
  | destroy => exact (Bool.false_ne_true hmay).elim

end

theorem Safe.step {a : Action} (hx : Safe x) (hp : x.Prudent a) (h : x.step a = some y) :
    Safe y := by
  have htended := hx.tended.step h
  have howned := hx.owned.step hx.tended h
  cases Steps.of_step h with
  | @server a s hmay hs =>
    have hloop : s.loop_ = x.server.loop_ := Server.Step.loop_eq hs
    have hmirrored := hx.tended.server.started.lived.mirrored
    refine ⟨htended, howned, (hx.removed.step_iff hmirrored hs).2 hp, hx.waits_advance hmay hs, ?_,
      fun l revents => hx.event_advance hmay hs⟩
    intro f hf hcall
    rcases hx.covered_advance hmay hs _ f hf (congrArg _ hloop) hcall with hk | hrefs
    · have hkept : x.kept (.loop s.loop_) = true := hloop.symm ▸ hk
      rcases kept_keeps hs _ hkept with hkept | hempty
      · exact .inl hkept
      · have hmem : f ∈ s.stack (.loop s.loop_) := hf
        rw [hempty] at hmem
        cases hmem
    · exact .inr hrefs
  | acquire =>
    exact ⟨htended, howned, hx.removed, fun _ => List.cons_ne_nil _ _,
      fun _ _ _ => .inr (List.cons_ne_nil _ _), hx.event⟩
  | @release t =>
    have hlast (hw : x.refs.erase t = []) := hp hw
    refine ⟨htended, howned, hx.removed, fun hw hn => (hlast hn).1 hw, ?_, hx.event⟩
    intro f hf hcall
    by_cases hn : x.refs.erase t = []
    · exact (Bool.false_ne_true (((hlast hn).2 f hf).symm.trans hcall)).elim
    · exact .inr hn

/-- A user who is prudent never has a destroyed connection used, whatever the threads do. -/
theorem prudent_safe (h : Run Lifetime.step (Lifetime.init config) as x)
    (hp : AllSteps Lifetime.step Prudent (Lifetime.init config) as) :
    AllStates Lifetime.step (fun x => ¬ x.Dangling) (Lifetime.init config) as :=
  h.allStates_when hp (Safe.init config) (fun _ _ _ hx hp hs => hx.step hp hs)
    fun _ => Safe.not_dangling

end

/-- A user's thread sends a message, shuts the connection down and gives its pointer back when the
loop has done both. Then the peer closes, and the connection is destroyed. -/
def sendingInTime : List Action :=
  connecting.map .server ++
  [.acquire (.user 0)] ++ (sending (block 3 1)).map .server ++ callingShutdown.map .server ++
  (iterate .io).map .server ++
  [.server (.loop .io), .server (.go (.loop .io) { write := .accepted 3 }),
    .server (.go (.loop .io) {}), .server (.loop .io), .server (.go (.loop .io) {}),
    .release (.user 0), .server (.loop .io)] ++
  (peerCloses.dropLast.map .server) ++
  [.server (.go (.loop .io) {}), .server (.leave .io), .server (.loop .io),
    .server (.go (.loop .io) {}), .server (.go (.loop .io) {}), .server (.loop .io),
    .server (.loop .base)]

theorem prudent_safe_example : ∃ x, Run Lifetime.step (Lifetime.init ioConfig) sendingInTime x ∧
    ¬ x.Held ∧ x.server.conn.written = [1, 1, 1] ∧
      AllStates Lifetime.step (fun x => ¬ x.Dangling) (Lifetime.init ioConfig) sendingInTime := by
  have hrun : (exec Lifetime.step (Lifetime.init ioConfig) sendingInTime).any (fun x =>
      decide (¬ x.Held) && x.server.conn.written == [1, 1, 1]) = true := by
    decide +kernel
  obtain ⟨x, hx, hp⟩ := Run.of_exec_any hrun
  simp only [Bool.and_eq_true, decide_eq_true_eq, beq_iff_eq] at hp
  exact ⟨x, hx, hp.1, hp.2, prudent_safe hx (by decide +kernel)⟩

end Lifetime
end MuduoStudy
