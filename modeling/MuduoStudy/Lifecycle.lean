import MuduoStudy.Handoff

namespace MuduoStudy.Server
open Transition
set_option autoImplicit true

/-- The functors that can be about before the connection is established. -/
def Functor.isEarly : Functor → Bool
  | .connectEstablished | .connectDestroyed | .removeConnectionInLoop | .other => true
  | _ => false

def Frame.isEarly : Frame → Bool
  | .user | .remove => true
  | .runInloop f => f.isEarly
  | .exec f => f.isEarly
  | _ => false

abbrev Early (stack : Thread → List Frame) (queue : Loop → BatchQueue Functor) : Prop :=
  Carries (fun _ f => f.isEarly = true) (fun _ f => f.isEarly = true) stack queue

/-- Nothing has happened to the connection yet. -/
structure Untouched (s : Server) : Prop where
  state : s.conn.state_ = .kDisconnected
  index : s.conn.channel_.index_ = .kNew
  exposed : s.exposed = false
  callbacks : s.callbacks = []
  accepted : s.accepted = []
  event : ∀ l revents, s.phase l ≠ .activeChannels (some revents)
  early : Early s.stack s.queue

theorem Untouched.of_early {s s' : Server} (h : Untouched s) (hearly : Early s'.stack s'.queue)
    (hconn : s'.conn = s.conn) (hexposed : s'.exposed = s.exposed)
    (hcallbacks : s'.callbacks = s.callbacks) (haccepted : s'.accepted = s.accepted)
    (hphase : ∀ l revents, s'.phase l ≠ .activeChannels (some revents)) : Untouched s' :=
  ⟨hconn ▸ h.state, hconn ▸ h.index, hexposed.trans h.exposed, hcallbacks.trans h.callbacks,
    haccepted.trans h.accepted, hphase, hearly⟩

theorem Untouched.goes {s s' : Server} (h : Untouched s) (hs : s.stack t = f :: rest)
    (hg : Goes s t rest k f s') : 0 < s'.established ∨ Untouched s' := by
  have hearly : f.isEarly = true := h.early.frames t f (hs ▸ List.mem_cons_self)
  have hrest (g : Frame) (hg : g ∈ rest) : g ∈ s.stack t := hs ▸ List.mem_cons_of_mem _ hg
  have hgoto (fs : List Frame) (hfs : ∀ g ∈ fs, g.isEarly = true) :
      Early (Function.update s.stack t (fs ++ rest)) s.queue := h.early.goto fs hfs hrest
  have hpost (l : Loop) (g : Functor) (hge : g.isEarly = true) :
      Early (Function.update s.stack t rest) (Function.update s.queue l ((s.queue l).push g)) :=
    (h.early.post hge).goto [] (fun _ => nofun) hrest
  have hone {g : Frame} (hge : g.isEarly = true) : ∀ g' ∈ [g], g'.isEarly = true :=
    List.forall_mem_singleton.2 hge
  cases hg with
  | runInLoop =>
    exact .inr (h.of_early (hgoto [.exec _] (hone hearly)) rfl rfl rfl rfl h.event)
  | runQueued => exact .inr (h.of_early (hpost s.loop_ _ hearly) rfl rfl rfl rfl h.event)
  | remove =>
    exact .inr ⟨h.state, rfl, h.exposed, h.callbacks, h.accepted, h.event,
      hgoto [] fun _ => nofun⟩
  | exec hc =>
    cases hc with
    | connectEstablished => exact .inl (Nat.succ_pos _)
    | destroyConnected hstate => cases h.state.symm.trans hstate
    | destroyLate =>
      exact .inr (h.of_early (hgoto [.remove] (hone rfl)) rfl rfl rfl rfl h.event)
    | removeConnectionInLoop =>
      exact .inr (h.of_early (hpost s.loop_ .connectDestroyed rfl) rfl rfl rfl rfl h.event)
    | other => exact .inr (h.of_early (hgoto [.user] (hone rfl)) rfl rfl rfl rfl h.event)
    | sendInLoop | sendLate | shutdownInLoop | forceCloseInLoop | forceCloseLate | startReadInLoop
    | stopReadInLoop | notice => cases hearly
  | handleEvent | readData | readEof | readError | handleWrite | drained | ifDisconnecting
  | ifNotDisconnecting | handleClose | connectionCallback | closeInLoop | closeQueued
  | setDisconnected | send | sendDropped | shutdown | shutdownDropped | setDisconnecting
  | forceClose | forceCloseDropped | queueForceClose | queueNotice => cases hearly

theorem Untouched.setPhase {s : Server} (h : Untouched s) (l : Loop) (p : Phase)
    (hp : ∀ revents, p ≠ .activeChannels (some revents)) (l' : Loop) (revents : Events) :
    (s.setPhase l p).phase l' ≠ .activeChannels (some revents) := by
  by_cases hl : l' = l
  · subst l'
    simp only [Server.setPhase, Function.update_self]
    exact hp revents
  · simp only [Server.setPhase, Function.update_of_ne hl]
    exact h.event l' revents

/-- As long as `connectEstablished` has not been called, nothing has happened. -/
theorem Untouched.step {s s' : Server} (hp : Placed s) (hm : Mirrored s) (h : Untouched s)
    (hstep : s.step a = some s') : 0 < s'.established ∨ Untouched s' := by
  have hone {g : Frame} (hge : g.isEarly = true) : ∀ g' ∈ [g], g'.isEarly = true :=
    List.forall_mem_singleton.2 hge
  cases Step.of_step hstep with
  | go hs hg => exact h.goes hs hg
  | activeChannel _ hphase => exact (h.event _ _ hphase).elim
  | handled =>
    exact .inr (h.of_early h.early rfl rfl rfl rfl (h.setPhase _ .swap fun _ => nofun))
  | @swap l _ hphase =>
    have hb := hp.batch l (by rw [hphase]; nofun)
    exact .inr (h.of_early (h.early.swap hb) rfl rfl rfl rfl
      (h.setPhase l .functors fun _ => nofun))
  | endFunctors =>
    exact .inr (h.of_early h.early rfl rfl rfl rfl (h.setPhase _ .poll fun _ => nofun))
  | @callFunctor l f q _ _ hq =>
    obtain ⟨hf, hcarries⟩ := h.early.dequeue hq
    exact .inr (h.of_early (hcarries.goto [.exec f] (hone hf) fun _ => nofun) rfl rfl rfl rfl
      h.event)
  | @poll l revents _ _ hr =>
    cases revents with
    | none =>
      exact .inr (h.of_early h.early rfl rfl rfl rfl
        (h.setPhase l (.activeChannels none) fun _ => nofun))
    | some revents =>
      have hsome := (hr rfl).2
      rw [hm.interest, if_neg (h.index ▸ nofun)] at hsome
      cases hsome
  | enter => exact .inr (h.of_early (h.early.goto [.user] (hone rfl) fun _ => nofun) rfl rfl rfl
      rfl h.event)
  | leave hs =>
    have hgoto := h.early.goto [] (fun _ => nofun) fun g hg => hs ▸ List.mem_cons_of_mem _ hg
    exact .inr (h.of_early hgoto rfl rfl rfl rfl h.event)
  | call _ he => cases h.exposed.symm.trans he
  | post => exact .inr (h.of_early (h.early.post rfl) rfl rfl rfl rfl h.event)
  | newConnection =>
    exact .inr (h.of_early (h.early.goto [.runInloop .connectEstablished] (hone rfl) fun _ => nofun)
      rfl rfl rfl rfl h.event)
  | destroy =>
    refine destroy_cases s ?_ ?_ ?_
    · intro _ _
      have hgoto := h.early.goto (t := .loop .base) [.exec .connectDestroyed] (hone rfl)
        fun _ hg => hg
      exact .inr (h.of_early hgoto rfl rfl rfl rfl h.event)
    · intro _ _
      exact .inr (h.of_early (h.early.post rfl) rfl rfl rfl rfl h.event)
    · intro _
      exact .inr (h.of_early h.early rfl rfl rfl rfl h.event)

theorem Untouched.init (config : Config) : Untouched (Server.init config) :=
  ⟨rfl, rfl, rfl, rfl, rfl, fun _ _ => nofun, ⟨fun _ _ => nofun, fun _ _ => nofun⟩⟩

/-- As long as the user has not been handed the connection, nobody is in one of its operations. -/
structure Quiet (s : Server) : Prop where
  callbacks : s.exposed = false ↔ s.callbacks = []
  frames : s.exposed = false → ∀ t, ∀ f ∈ s.stack t, f.isApi = false

theorem Goes.quiet {s s' : Server} (h : Goes s t rest k f s') :
    (∃ fs, s'.stack = Function.update s.stack t (fs ++ rest) ∧
      (f.isApi = false → ∀ g ∈ fs, g.isApi = false)) ∧
    (s'.exposed = s.exposed ∧ s'.callbacks = s.callbacks ∨
      s'.exposed = true ∧ s'.callbacks ≠ []) := by
  have hone {g : Frame} (hg : g.isApi = false) : ∀ g' ∈ [g], g'.isApi = false :=
    List.forall_mem_singleton.2 hg
  have hbelow {fs : List Frame} (hfs : ∀ g ∈ fs, g.isBelow = true) (g : Frame) (hg : g ∈ fs) :
      g.isApi = false := by
    have hb := hfs g hg
    cases g <;> first | rfl | cases hb
  cases h with
  | handleEvent =>
    have hdispatch (revents : Events) : ∀ g ∈ dispatch revents, g.isApi = false := by
      intro g hg
      rcases mem_dispatch hg with rfl | rfl | rfl <;> rfl
    exact ⟨⟨_, rfl, fun _ => hdispatch _⟩, .inl ⟨rfl, rfl⟩⟩
  | readData => exact ⟨⟨[.user], rfl, fun _ => hone rfl⟩, .inl ⟨rfl, rfl⟩⟩
  | readEof => exact ⟨⟨[.handleClose], rfl, fun _ => hone rfl⟩, .inl ⟨rfl, rfl⟩⟩
  | readError | handleWrite | ifDisconnecting | ifNotDisconnecting | closeQueued | remove
  | sendDropped | shutdownDropped | forceCloseDropped | runQueued | queueForceClose | queueNotice =>
    exact ⟨⟨[], rfl, fun _ _ => nofun⟩, .inl ⟨rfl, rfl⟩⟩
  | @drained c => exact ⟨⟨_, rfl, fun _ => hbelow (isBelow_drained c)⟩, .inl ⟨rfl, rfl⟩⟩
  | handleClose =>
    have htwo (g : Frame) (hg : g ∈ [Frame.connectionCallback .handleClose, .closeCallback]) :
        g.isApi = false := by
      rcases List.mem_pair.1 hg with rfl | rfl <;> rfl
    exact ⟨⟨_, rfl, fun _ => htwo⟩, .inl ⟨rfl, rfl⟩⟩
  | connectionCallback => exact ⟨⟨[.user], rfl, fun _ => hone rfl⟩, .inr ⟨rfl, by simp [goto]⟩⟩
  | closeInLoop =>
    exact ⟨⟨[.exec .removeConnectionInLoop], rfl, fun _ => hone rfl⟩, .inl ⟨rfl, rfl⟩⟩
  | setDisconnected =>
    exact ⟨⟨[.connectionCallback .connectDestroyed], rfl, fun _ => hone rfl⟩, .inl ⟨rfl, rfl⟩⟩
  | @send m => exact ⟨⟨[.runInloop (.sendInLoop m)], rfl, nofun⟩, .inl ⟨rfl, rfl⟩⟩
  | shutdown => exact ⟨⟨[.setDisconnecting], rfl, nofun⟩, .inl ⟨rfl, rfl⟩⟩
  | setDisconnecting => exact ⟨⟨[.runInloop .shutdownInLoop], rfl, nofun⟩, .inl ⟨rfl, rfl⟩⟩
  | forceClose => exact ⟨⟨[.queueForceClose], rfl, nofun⟩, .inl ⟨rfl, rfl⟩⟩
  | runInLoop => exact ⟨⟨[.exec _], rfl, fun _ => hone rfl⟩, .inl ⟨rfl, rfl⟩⟩
  | exec hc =>
    cases hc with
    | connectEstablished =>
      exact ⟨⟨[.connectionCallback .connectEstablished], rfl, fun _ => hone rfl⟩, .inl ⟨rfl, rfl⟩⟩
    | @sendInLoop c notices =>
      exact ⟨⟨_, rfl, fun _ => hbelow (isBelow_notices notices)⟩, .inl ⟨rfl, rfl⟩⟩
    | sendLate | shutdownInLoop | forceCloseLate | startReadInLoop | stopReadInLoop
    | removeConnectionInLoop => exact ⟨⟨[], rfl, fun _ _ => nofun⟩, .inl ⟨rfl, rfl⟩⟩
    | forceCloseInLoop => exact ⟨⟨[.handleClose], rfl, fun _ => hone rfl⟩, .inl ⟨rfl, rfl⟩⟩
    | destroyConnected =>
      have htwo (g : Frame) (hg : g ∈ [Frame.setDisconnected, .remove]) : g.isApi = false := by
        rcases List.mem_pair.1 hg with rfl | rfl <;> rfl
      exact ⟨⟨_, rfl, fun _ => htwo⟩, .inl ⟨rfl, rfl⟩⟩
    | destroyLate => exact ⟨⟨[.remove], rfl, fun _ => hone rfl⟩, .inl ⟨rfl, rfl⟩⟩
    | notice | other => exact ⟨⟨[.user], rfl, fun _ => hone rfl⟩, .inl ⟨rfl, rfl⟩⟩

theorem Quiet.goto {s s' : Server} (hq : Quiet s) (fs : List Frame)
    (hstack : s'.stack = Function.update s.stack t (fs ++ rest))
    (hfs : s.exposed = false → ∀ f ∈ fs, f.isApi = false) (hrest : ∀ f ∈ rest, f ∈ s.stack t)
    (hsame : s'.exposed = s.exposed ∧ s'.callbacks = s.callbacks) : Quiet s' := by
  have hframes (he : s'.exposed = false) : ∀ u, ∀ f ∈ s'.stack u, f.isApi = false := by
    have he := hsame.1.symm.trans he
    rw [hstack]
    exact frames_goto (hq.frames he) fs (hfs he) hrest
  refine ⟨?_, hframes⟩
  rw [hsame.1, hsame.2]
  exact hq.callbacks

theorem Quiet.step {s s' : Server} (hq : Quiet s) (h : s.step a = some s') : Quiet s' := by
  have hone {g : Frame} (hg : g.isApi = false) (_ : s.exposed = false) :
      ∀ g' ∈ [g], g'.isApi = false := List.forall_mem_singleton.2 hg
  cases Step.of_step h with
  | @go t f rest k _ hs hg =>
    obtain ⟨⟨fs, hstack, hfs⟩, hsame | ⟨he, hc⟩⟩ := hg.quiet
    · have hfs' (he : s.exposed = false) : ∀ g ∈ fs, g.isApi = false :=
        hfs (hq.frames he t f (hs ▸ List.mem_cons_self))
      exact hq.goto fs hstack hfs' (fun g hg => hs ▸ List.mem_cons_of_mem _ hg) hsame
    · have hiff : s'.exposed = false ↔ s'.callbacks = [] := by simp [he, hc]
      exact ⟨hiff, fun hf => (Bool.false_ne_true (hf.symm.trans he)).elim⟩
  | activeChannel => exact hq.goto [.handleEvent _] rfl (hone rfl) (fun _ => nofun) ⟨rfl, rfl⟩
  | handled | swap | endFunctors | poll | post => exact ⟨hq.callbacks, hq.frames⟩
  | callFunctor => exact hq.goto [.exec _] rfl (hone rfl) (fun _ => nofun) ⟨rfl, rfl⟩
  | enter => exact hq.goto [.user] rfl (hone rfl) (fun _ => nofun) ⟨rfl, rfl⟩
  | leave hs =>
    exact hq.goto [] rfl (fun _ _ => nofun) (fun g hg => hs ▸ List.mem_cons_of_mem _ hg) ⟨rfl, rfl⟩
  | @call t a _ he =>
    have hexposed (hf : s.exposed = false) : ∀ g ∈ [a.frame s t], g.isApi = false :=
      (Bool.false_ne_true (hf.symm.trans he)).elim
    exact hq.goto [a.frame s t] rfl hexposed (fun _ hg => hg) ⟨rfl, rfl⟩
  | newConnection =>
    exact hq.goto [.runInloop .connectEstablished] rfl (hone rfl) (fun _ => nofun) ⟨rfl, rfl⟩
  | destroy =>
    refine destroy_cases s ?_ ?_ ?_
    · intro _ _
      exact hq.goto [.exec .connectDestroyed] rfl (hone rfl) (fun _ hg => hg) ⟨rfl, rfl⟩
    · intro _ _
      exact ⟨hq.callbacks, hq.frames⟩
    · intro _
      exact ⟨hq.callbacks, hq.frames⟩

theorem Quiet.init (config : Config) : Quiet (Server.init config) :=
  ⟨⟨fun _ => rfl, fun _ => rfl⟩, fun _ _ _ => nofun⟩

def Functor.worth (p : Price) : Functor → Nat
  | .connectEstablished => p.establish
  | .removeConnectionInLoop => p.remove
  | .connectDestroyed => p.destroy
  | _ => 0

def Frame.worth (p : Price) : Frame → Nat
  | .closeCallback => p.close
  | .remove => p.finish
  | .runInloop f => f.worth p
  | .exec f => f.worth p
  | _ => 0

def framesWorth (p : Price) (frames : List Frame) : Nat := (frames.map (Frame.worth p)).sum

def queueWorth (p : Price) (q : BatchQueue Functor) : Nat := (q.contents.map (Functor.worth p)).sum

/-- The worth of the messages that the two loops hold. -/
def worth (stack : Thread → List Frame) (queue : Loop → BatchQueue Functor) (p : Price) : Nat :=
  framesWorth p (stack (.loop .base)) + framesWorth p (stack (.loop .io)) +
    (queueWorth p (queue .base) + queueWorth p (queue .io))

def handoff (s : Server) : Handoff where
  created := s.created
  registered := s.registered
  alive := s.alive
  established := s.established
  closes := s.closes
  closeCallbacks := s.closeCallbacks
  destroyQueued := s.destroyQueued
  destroys := s.destroys
  destroyed := s.destroyed

@[simp] theorem framesWorth_append (p : Price) (fs gs : List Frame) :
    framesWorth p (fs ++ gs) = framesWorth p fs + framesWorth p gs := by
  simp [framesWorth]

theorem framesWorth_cons (p : Price) (f : Frame) (fs : List Frame) :
    framesWorth p (f :: fs) = f.worth p + framesWorth p fs := by
  simp [framesWorth]

theorem framesWorth_eq_zero {fs : List Frame} (h : ∀ g ∈ fs, g.worth p = 0) :
    framesWorth p fs = 0 := by
  apply List.sum_eq_zero_iff_forall_eq_nat.2
  intro x hx
  obtain ⟨g, hg, rfl⟩ := List.mem_map.1 hx
  exact h g hg

theorem queueWorth_push (p : Price) (q : BatchQueue Functor) (f : Functor) :
    queueWorth p (q.push f) = queueWorth p q + f.worth p := by
  simp [queueWorth]

theorem Frame.worth_of_api {f : Frame} (h : f.isApi = true) (p : Price) : f.worth p = 0 := by
  cases f with
  | runInloop g => cases g <;> first | rfl | cases h
  | _ => first | rfl | cases h

section
variable (stack : Thread → List Frame) (queue : Loop → BatchQueue Functor)
  {t : Thread} {l : Loop} {rest : List Frame}

theorem worth_loop (frames : List Frame) (p : Price) :
    worth (Function.update stack (.loop l) frames) queue p + framesWorth p (stack (.loop l)) =
      worth stack queue p + framesWorth p frames := by
  cases l with
  | base =>
    have hne : (Thread.loop .io) ≠ .loop .base := nofun
    simp only [worth, Function.update_self, Function.update_of_ne hne]
    omega
  | io =>
    have hne : (Thread.loop .base) ≠ .loop .io := nofun
    simp only [worth, Function.update_self, Function.update_of_ne hne]
    omega

theorem worth_user (n : Nat) (frames : List Frame) (p : Price) :
    worth (Function.update stack (.user n) frames) queue p = worth stack queue p := by
  have hbase : (Thread.loop .base) ≠ .user n := nofun
  have hio : (Thread.loop .io) ≠ .user n := nofun
  rw [worth, Function.update_of_ne hbase, Function.update_of_ne hio]
  rfl

theorem worth_push (f : Frame) (p : Price) :
    worth (Function.update stack (.loop l) (f :: stack (.loop l))) queue p =
      worth stack queue p + f.worth p := by
  have hw := worth_loop stack queue (l := l) (f :: stack (.loop l)) p
  rw [framesWorth_cons] at hw
  omega

theorem worth_single {stack : Thread → List Frame} (hs : stack (.loop l) = []) (f : Frame)
    (p : Price) : worth (Function.update stack (.loop l) [f]) queue p =
      worth stack queue p + f.worth p := by
  have hw := worth_push stack queue (l := l) f p
  rwa [hs] at hw

theorem worth_goto {stack : Thread → List Frame} (hs : stack t = f :: rest) (fs : List Frame)
    (ht : ∀ n, t = .user n → f.isApi = true ∧ ∀ g ∈ fs, g.isApi = true) (p : Price) :
    worth (Function.update stack t (fs ++ rest)) queue p + f.worth p =
      worth stack queue p + framesWorth p fs := by
  cases t with
  | loop l =>
    have hw := worth_loop stack queue (l := l) (fs ++ rest) p
    rw [hs, framesWorth_append, framesWorth_cons] at hw
    omega
  | user n =>
    obtain ⟨hf, hfs⟩ := ht n rfl
    have hzero : framesWorth p fs = 0 :=
      framesWorth_eq_zero fun g hg => Frame.worth_of_api (hfs g hg) p
    rw [worth_user, hzero, Frame.worth_of_api hf p]

theorem worth_setQueue (q : BatchQueue Functor) (p : Price) :
    worth stack (Function.update queue l q) p + queueWorth p (queue l) =
      worth stack queue p + queueWorth p q := by
  cases l with
  | base =>
    have hne : Loop.io ≠ .base := nofun
    simp only [worth, Function.update_self, Function.update_of_ne hne]
    omega
  | io =>
    have hne : Loop.base ≠ .io := nofun
    simp only [worth, Function.update_self, Function.update_of_ne hne]
    omega

theorem worth_post (f : Functor) (p : Price) :
    worth stack (Function.update queue l ((queue l).push f)) p =
      worth stack queue p + f.worth p := by
  have hw := worth_setQueue stack queue (l := l) ((queue l).push f) p
  rw [queueWorth_push] at hw
  omega

end

theorem framesWorth_notices (p : Price) (notices : List Notice) :
    framesWorth p (notices.map .queueNotice) = 0 := by
  apply framesWorth_eq_zero
  intro g hg
  obtain ⟨n, _, rfl⟩ := List.mem_map.1 hg
  rfl

theorem framesWorth_dispatch (p : Price) (revents : Events) :
    framesWorth p (dispatch revents) = 0 := by
  apply framesWorth_eq_zero
  intro g hg
  rcases mem_dispatch hg with rfl | rfl | rfl <;> rfl

theorem framesWorth_drained (p : Price) (c : TcpConnection) :
    framesWorth p (drainedFrames c) = 0 := by
  apply framesWorth_eq_zero
  intro g hg
  rcases mem_drained hg with rfl | rfl <;> rfl

abbrev Moves (s s' : Server) : Prop :=
  Handoff.Move s.handoff (worth s.stack s.queue) s'.handoff (worth s'.stack s'.queue)

theorem Moves.called {s s' : Server} (hp : Placed s) (hs : s.stack t = .exec f :: rest)
    (h : Called s t rest k f s') : Moves s s' := by
  have hloop (fs : List Frame) (n : Nat) (hn : t = .user n) :
      (Frame.exec f).isApi = true ∧ ∀ g ∈ fs, g.isApi = true := by
    have hfits := hp.frame hs
    subst t
    cases hfits
  have hgoto (fs : List Frame) (hz : ∀ p, framesWorth p fs = 0) (p : Price) :
      worth (Function.update s.stack t (fs ++ rest)) s.queue p + f.worth p =
        worth s.stack s.queue p := by
    have hw := worth_goto s.queue hs fs (hloop fs) p
    rw [hz p, Nat.add_zero] at hw
    exact hw
  have hfinish (fs : List Frame) (hz : ∀ p, framesWorth p fs = p.finish) (p : Price) :
      worth (Function.update s.stack t (fs ++ rest)) s.queue p + f.worth p =
        worth s.stack s.queue p + p.finish := by
    have hw := worth_goto s.queue hs fs (hloop fs) p
    rw [hz p] at hw
    exact hw
  cases h with
  | connectEstablished =>
    exact .connectEstablished (hgoto [.connectionCallback .connectEstablished] fun _ => rfl)
  | @sendInLoop c notices =>
    exact .stay (hgoto (notices.map .queueNotice) fun p => framesWorth_notices p notices)
  | sendLate | shutdownInLoop | forceCloseLate | startReadInLoop | stopReadInLoop =>
    exact .stay (hgoto [] fun _ => rfl)
  | forceCloseInLoop => exact .stay (hgoto [.handleClose] fun _ => rfl)
  | destroyConnected =>
    exact .connectDestroyed (hfinish [.setDisconnected, .remove] fun p => by
      simp [framesWorth, Frame.worth])
  | destroyLate => exact .connectDestroyed (hfinish [.remove] fun _ => rfl)
  | removeConnectionInLoop ha =>
    apply Handoff.Move.removeConnectionInLoop ha
    intro p
    have hpost := worth_post s.stack s.queue (l := s.loop_) .connectDestroyed p
    have hw := worth_goto (Function.update s.queue s.loop_
      ((s.queue s.loop_).push .connectDestroyed)) hs [] (hloop []) p
    rw [hpost] at hw
    exact hw
  | notice | other => exact .stay (hgoto [.user] fun _ => rfl)

theorem Moves.goes {s s' : Server} (hp : Placed s) (he : 0 < s.established ∨ Untouched s)
    (hs : s.stack t = f :: rest) (h : Goes s t rest k f s') : Moves s s' := by
  have hfits := hp.frame hs
  have hapi (fs : List Frame) (hfs : f.isApi = true → ∀ g ∈ fs, g.isApi = true) (n : Nat)
      (hn : t = .user n) : f.isApi = true ∧ ∀ g ∈ fs, g.isApi = true := by
    subst t
    exact ⟨hfits, hfs hfits⟩
  have hgoto (fs : List Frame) (hfs : f.isApi = true → ∀ g ∈ fs, g.isApi = true)
      (hz : ∀ p, framesWorth p fs = 0) (p : Price) :
      worth (Function.update s.stack t (fs ++ rest)) s.queue p + f.worth p =
        worth s.stack s.queue p := by
    have hw := worth_goto s.queue hs fs (hapi fs hfs) p
    rw [hz p, Nat.add_zero] at hw
    exact hw
  have hone {g : Frame} (hg : g.isApi = true) : ∀ g' ∈ [g], g'.isApi = true :=
    List.forall_mem_singleton.2 hg
  have hpost (l : Loop) (g : Functor) (p : Price) :
      worth (Function.update s.stack t rest) (Function.update s.queue l ((s.queue l).push g)) p +
        f.worth p = worth s.stack s.queue p + g.worth p := by
    have hpost := worth_post s.stack s.queue (l := l) g p
    have hw := worth_goto (Function.update s.queue l ((s.queue l).push g)) hs []
      (hapi [] fun _ _ => nofun) p
    rw [hpost] at hw
    exact hw
  cases h with
  | handleEvent => exact .stay (hgoto _ nofun fun p => framesWorth_dispatch p _)
  | readData => exact .stay (hgoto [.user] nofun fun _ => rfl)
  | readEof => exact .stay (hgoto [.handleClose] nofun fun _ => rfl)
  | readError | handleWrite | ifDisconnecting | ifNotDisconnecting =>
    exact .stay (hgoto [] nofun fun _ => rfl)
  | remove => exact .remove (hgoto [] nofun fun _ => rfl)
  | @drained c => exact .stay (hgoto _ nofun fun p => framesWorth_drained p c)
  | handleClose =>
    have hpos : 0 < s.established := by
      rcases he with he | hu
      · exact he
      · cases hu.early.frames t .handleClose (hs ▸ List.mem_cons_self)
    apply Handoff.Move.handleClose hpos
    intro p
    have hclose : framesWorth p [.connectionCallback .handleClose, .closeCallback] =
        p.close := by
      simp [framesWorth, Frame.worth]
    have hw := worth_goto s.queue hs [.connectionCallback .handleClose, .closeCallback]
      (hapi _ nofun) p
    rw [hclose] at hw
    exact hw
  | connectionCallback => exact .stay (hgoto [.user] nofun fun _ => rfl)
  | closeInLoop ha =>
    exact .closeCallback ha fun p =>
      worth_goto s.queue hs [.exec .removeConnectionInLoop] (hapi _ nofun) p
  | closeQueued ha => exact .closeCallback ha (hpost .base .removeConnectionInLoop)
  | setDisconnected =>
    exact .stay (hgoto [.connectionCallback .connectDestroyed] nofun fun _ => rfl)
  | @send m =>
    exact .stay (hgoto [.runInloop (.sendInLoop m)] (fun _ => hone rfl) fun _ => rfl)
  | shutdown => exact .stay (hgoto [.setDisconnecting] (fun _ => hone rfl) fun _ => rfl)
  | sendDropped | shutdownDropped | forceCloseDropped =>
    exact .stay (hgoto [] (fun _ _ => nofun) fun _ => rfl)
  | setDisconnecting =>
    exact .stay (hgoto [.runInloop .shutdownInLoop] (fun _ => hone rfl) fun _ => rfl)
  | forceClose => exact .stay (hgoto [.queueForceClose] (fun _ => hone rfl) fun _ => rfl)
  | @runInLoop g ht =>
    have hloop (n : Nat) (hn : t = .user n) :
        (Frame.runInloop g).isApi = true ∧ ∀ g' ∈ [Frame.exec g], g'.isApi = true := by
      cases ht.symm.trans hn
    exact .stay fun p => Nat.add_right_cancel (worth_goto s.queue hs [.exec g] hloop p)
  | runQueued => exact .stay fun p => Nat.add_right_cancel (hpost s.loop_ _ p)
  | queueForceClose => exact .stay (hpost s.loop_ .forceCloseInLoop)
  | queueNotice => exact .stay (hpost s.loop_ (.notice _))
  | exec hc => exact .called hp hs hc

/-- Every step is a move of the hand-over. -/
theorem Moves.step {s s' : Server} (hp : Placed s) (he : 0 < s.established ∨ Untouched s)
    (h : s.step a = some s') : Moves s s' := by
  cases Step.of_step h with
  | go hs hg => exact .goes hp he hs hg
  | activeChannel hs => exact .stay (worth_single s.queue hs (.handleEvent _))
  | handled | endFunctors | poll => exact .stay fun _ => rfl
  | @swap l _ hphase =>
    have hb := hp.batch l (by rw [hphase]; nofun)
    apply Handoff.Move.stay
    intro p
    have hw := worth_setQueue s.stack s.queue (l := l) (s.queue l).swap p
    rw [queueWorth, queueWorth, BatchQueue.contents_swap hb] at hw
    exact Nat.add_right_cancel hw
  | @callFunctor l f q hs _ hq =>
    apply Handoff.Move.stay
    intro p
    have hw := worth_setQueue (Function.update s.stack (.loop l) [.exec f]) s.queue (l := l) q p
    have hqueue : queueWorth p (s.queue l) = f.worth p + queueWorth p q := by
      rw [queueWorth, BatchQueue.contents_pop hq, List.map_cons, List.sum_cons]
      rfl
    have hframe : (Frame.exec f).worth p = f.worth p := rfl
    rw [worth_single s.queue hs, hqueue, hframe] at hw
    simp only [goto, setQueue]
    omega
  | enter hs => exact .stay (worth_single s.queue hs .user)
  | leave hs => exact .stay fun p => worth_goto s.queue hs [] nofun p
  | @call t a =>
    apply Handoff.Move.stay
    intro p
    cases t with
    | loop l =>
      have hw := worth_push s.stack s.queue (l := l) (a.frame s (.loop l)) p
      rwa [Frame.worth_of_api (a.frame_isApi s _)] at hw
    | user n => exact worth_user s.stack s.queue n _ p
  | post => exact .stay (worth_post s.stack s.queue .other)
  | newConnection hs _ ha hc =>
    exact .newConnection hc ha (worth_single s.queue hs (.runInloop .connectEstablished))
  | destroy _ ha =>
    refine destroy_cases s ?_ ?_ ?_
    · intro hg _
      exact .destroyInLoop hg (worth_push s.stack s.queue (l := .base) (.exec .connectDestroyed))
    · intro hg _
      exact .destroyQueued hg (worth_post s.stack s.queue .connectDestroyed)
    · intro _
      exact .destroyIdle fun _ => rfl

structure Lived (s : Server) : Prop where
  placed : Placed s
  mirrored : Mirrored s
  begun : 0 < s.established ∨ Untouched s
  quiet : Quiet s
  sound : Handoff.Sound s.handoff (worth s.stack s.queue)

theorem Lived.init (config : Config) : Lived (Server.init config) :=
  ⟨Placed.init config, Mirrored.init config, .inr (Untouched.init config), Quiet.init config,
    ⟨rfl, rfl, fun _ => rfl, rfl, Nat.zero_le _, nofun, fun _ => rfl⟩⟩

theorem Lived.step {s s' : Server} (hl : Lived s) (h : s.step a = some s') : Lived s' := by
  have hmoves := Moves.step hl.placed hl.begun h
  have hbegun : 0 < s'.established ∨ Untouched s' := by
    rcases hl.begun with he | hu
    · exact .inl (Nat.lt_of_lt_of_le he hmoves.established_le)
    · exact hu.step hl.placed hl.mirrored h
  exact ⟨hl.placed.step h, hl.mirrored.step h, hbegun, hl.quiet.step h, hl.sound.move hmoves⟩

end MuduoStudy.Server
