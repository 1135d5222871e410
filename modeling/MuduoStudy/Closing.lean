import MuduoStudy.Course
import MuduoStudy.SendOrder
import MuduoStudy.Lifecycle

namespace MuduoStudy.Server
open Transition
set_option autoImplicit true

def Frame.mark : Frame → Mark
  | .handleClose => .handleClose
  | .connectionCallback caller => .connectionCallback caller
  | .setDisconnected => .setDisconnected
  | _ => .plain

def markOf : List Frame → Mark
  | [] => .plain
  | f :: _ => f.mark

abbrev mark (s : Server) : Mark := markOf (s.stack (.loop s.loop_))

def course (s : Server) : Course where
  state := s.conn.state_
  established := s.established
  closes := s.closes
  destroys := s.destroys
  destroyed := s.destroyed
  callbacks := s.callbacks

/-- The event that the next statement of a frame is. `handleClose` is entered on a hang-up, at the
end of the peer's stream and in `forceCloseInLoop`. -/
def Frame.event (s : Server) (k : Answer) : Frame → Event
  | .handleEvent revents =>
    if revents &&& POLLHUP ≠ 0 ∧ revents &&& POLLIN = 0 then .enterClose else .other
  | .handleRead => if k.read = .eof then .enterClose else .other
  | .exec .forceCloseInLoop =>
    if s.conn.state_ = .kConnected ∨ s.conn.state_ = .kDisconnecting then .enterClose else .other
  | .exec .connectEstablished => .connectEstablished
  | .exec .connectDestroyed => .connectDestroyed
  | .handleClose => .handleClose
  | .connectionCallback caller => .connectionCallback caller
  | .setDisconnected => .setDisconnected
  | .remove => .remove
  | _ => .other

def event (s : Server) : Action → Event
  | .go t k =>
    match s.stack t with
    | [] => .other
    | f :: _ => f.event s k
  | _ => .other

theorem markOf_below {fs : List Frame} (h : ∀ g ∈ fs, g.isBelow = true) : markOf fs = .plain := by
  cases fs with
  | nil => rfl
  | cons f fs =>
    have hb := h f List.mem_cons_self
    cases f <;> first | rfl | cases hb

theorem markOf_home {stack : Thread → List Frame} (ht : t = .loop l) (frames : List Frame) :
    markOf (Function.update stack t frames (.loop l)) = markOf frames := by
  subst t
  rw [Function.update_self]

abbrev Follows (s : Server) (e : Event) (s' : Server) : Prop :=
  s.course.Move s.mark e s'.course s'.mark

theorem Follows.other {s s' : Server} (hmark : s'.mark = s.mark) (hcourse : s'.course = s.course) :
    Follows s .other s' := by
  rw [Follows, hmark, hcourse]
  exact .other (.inl rfl)

theorem Follows.home {s s' : Server} (ht : t = .loop s.loop_)
    (hstack : s'.stack = Function.update s.stack t frames) (hloop : s'.loop_ = s.loop_)
    (h : s.course.Move s.mark e s'.course (markOf frames)) : Follows s e s' := by
  have hmark : s'.mark = markOf frames := by
    rw [mark, hloop, hstack, markOf_home ht]
  rw [Follows, hmark]
  exact h

theorem course_of_state {s : Server} {c : TcpConnection} (h : c.state_ = s.conn.state_) :
    ({ s with conn := c } : Server).course = s.course := by
  rw [course, h]
  rfl

theorem Lived.established_pos {s : Server} (hl : Lived s) (hs : s.stack t = f :: rest)
    (hf : f.isEarly = false) : 0 < s.established := by
  rcases hl.begun with he | hu
  · exact he
  · cases hf.symm.trans (hu.early.frames t f (hs ▸ List.mem_cons_self))

theorem event_forceCloseInLoop (s : Server) (k : Answer) :
    (Frame.exec .forceCloseInLoop).event s k =
      if s.conn.state_ = .kConnected ∨ s.conn.state_ = .kDisconnecting then .enterClose
      else .other := rfl

theorem event_handleEvent (s : Server) (k : Answer) (revents : Events) :
    (Frame.handleEvent revents).event s k =
      if revents &&& POLLHUP ≠ 0 ∧ revents &&& POLLIN = 0 then .enterClose else .other := rfl

theorem event_handleRead (s : Server) (k : Answer) :
    Frame.handleRead.event s k = if k.read = .eof then .enterClose else .other := rfl

theorem mark_dispatch (revents : Events) {rest : List Frame}
    (hrest : ∀ g ∈ rest, g.isBelow = true) :
    markOf (dispatch revents ++ rest) =
      if revents &&& POLLHUP ≠ 0 ∧ revents &&& POLLIN = 0 then .handleClose else .plain := by
  obtain ⟨fs, hfs, heq⟩ := dispatch_cases revents
  rw [heq]
  split
  · rfl
  · apply markOf_below
    intro g hg
    rcases List.mem_append.1 hg with hg | hg
    · rcases hfs g hg with rfl | rfl <;> rfl
    · exact hrest g hg

section
variable {s s' : Server} {t : Thread} {f : Frame} {rest : List Frame}

theorem mark_below (hl : Lived s) (hs : s.stack t = f :: rest) (hf : f.mark = .plain)
    (fs : List Frame) (hfs : ∀ g ∈ fs, g.isBelow = true) :
    markOf (Function.update s.stack t (fs ++ rest) (.loop s.loop_)) = s.mark := by
  apply update_keeps markOf
  have hbelow : markOf (fs ++ rest) = .plain := by
    apply markOf_below
    intro g hg
    exact (List.mem_append.1 hg).elim (hfs g) ((hl.placed.belowTop hs).2 g)
  rw [hs, hbelow]
  exact hf.symm

theorem mark_home (hl : Lived s) (hs : s.stack t = f :: rest) (hf : f.isLocal = true) :
    t = .loop s.loop_ ∧ s.mark = f.mark := by
  have ht := Frame.home (hl.placed.frame hs) hf
  subst t
  exact ⟨rfl, congrArg markOf hs⟩

end

theorem Follows.called {s s' : Server} (hl : Lived s) (hl' : Lived s')
    (hs : s.stack t = .exec f :: rest) (h : Called s t rest k f s') :
    Follows s ((Frame.exec f).event s k) s' := by
  have hplain := mark_below hl hs rfl
  have hrest := hplain [] fun _ => nofun
  have hhome := mark_home hl hs
  cases h with
  | connectEstablished =>
    have hzero : s.established = 0 := by
      have hone : s.established + 1 ≤ 1 := hl'.sound.established_le
      omega
    obtain ⟨ht, hmark⟩ := hhome rfl
    exact .home ht rfl rfl (.connectEstablished hmark hzero)
  | @sendInLoop c notices _ hd hc =>
    have hstate := (TcpConnection.Sends.of_sendInLoop hd hc).kept.state
    exact .other (hplain _ (isBelow_notices notices)) (course_of_state hstate)
  | sendLate | removeConnectionInLoop => exact .other hrest rfl
  | shutdownInLoop => exact .other hrest (course_of_state s.conn.shutdownInLoop_same.1)
  | forceCloseInLoop hstate =>
    obtain ⟨ht, hmark⟩ := hhome rfl
    rw [event_forceCloseInLoop, if_pos hstate]
    exact .home ht rfl rfl (.enterClose hmark (hl.established_pos hs rfl))
  | forceCloseLate hstate =>
    rw [event_forceCloseInLoop, if_neg hstate]
    exact .other hrest rfl
  | startReadInLoop =>
    exact .other hrest (course_of_state (TcpConnection.Kept.startReadInLoop _).state)
  | stopReadInLoop =>
    exact .other hrest (course_of_state (TcpConnection.Kept.stopReadInLoop _).state)
  | destroyConnected hstate =>
    obtain ⟨ht, hmark⟩ := hhome rfl
    exact .home ht rfl rfl (.destroyConnected hmark hstate)
  | destroyLate hstate =>
    obtain ⟨ht, hmark⟩ := hhome rfl
    exact .home ht rfl rfl (.destroyLate hmark hstate)
  | notice | other =>
    exact .other (hplain [.user] (List.forall_mem_singleton.2 rfl)) rfl

theorem Follows.goes {s s' : Server} (hl : Lived s) (hl' : Lived s') (hs : s.stack t = f :: rest)
    (h : Goes s t rest k f s') : Follows s (f.event s k) s' := by
  obtain ⟨_, hbelow⟩ := hl.placed.belowTop hs
  have hplain := mark_below hl hs
  have hhome := mark_home hl hs
  have hsame (g : Frame) (hf : f.mark = .plain) (hg : g.mark = .plain) :
      markOf (Function.update s.stack t (g :: rest) (.loop s.loop_)) = s.mark := by
    apply update_keeps markOf
    rw [hs]
    exact hg.trans hf.symm
  cases h with
  | @handleEvent revents =>
    obtain ⟨ht, hmark⟩ := hhome rfl
    have hnew := mark_dispatch revents hbelow
    rw [event_handleEvent]
    by_cases hhup : revents &&& POLLHUP ≠ 0 ∧ revents &&& POLLIN = 0
    · rw [if_pos hhup] at hnew ⊢
      have hpos := hl.established_pos hs rfl
      exact .home ht rfl rfl (hnew ▸ .enterClose hmark hpos)
    · rw [if_neg hhup] at hnew ⊢
      exact .home ht rfl rfl (hnew ▸ hmark ▸ .other (.inl rfl))
  | readData hk =>
    rw [event_handleRead, if_neg (by rw [hk]; nofun)]
    exact .other (hplain rfl [.user] (List.forall_mem_singleton.2 rfl)) rfl
  | readEof hk =>
    obtain ⟨ht, hmark⟩ := hhome rfl
    rw [event_handleRead, if_pos hk]
    exact .home ht rfl rfl (.enterClose hmark (hl.established_pos hs rfl))
  | readError hk =>
    rw [event_handleRead, if_neg (by rw [hk]; nofun)]
    exact .other (hplain rfl [] fun _ => nofun) rfl
  | handleWrite hc =>
    have hstate := (TcpConnection.Writes.of_handleWrite hc).kept.state
    exact .other (hplain rfl [] fun _ => nofun) (course_of_state hstate)
  | @drained c hc =>
    have hstate := (TcpConnection.Writes.of_handleWrite hc).kept.state
    exact .other (hplain rfl _ (isBelow_drained c)) (course_of_state hstate)
  | ifDisconnecting =>
    exact .other (hplain rfl [] fun _ => nofun) (course_of_state s.conn.shutdownInLoop_same.1)
  | ifNotDisconnecting | closeQueued | sendDropped | shutdownDropped | forceCloseDropped | runQueued
  | queueForceClose | queueNotice => exact .other (hplain rfl [] fun _ => nofun) rfl
  | handleClose =>
    obtain ⟨ht, hmark⟩ := hhome rfl
    exact .home ht rfl rfl (.handleClose hmark)
  | connectionCallback =>
    obtain ⟨ht, hmark⟩ := hhome rfl
    exact .home ht rfl rfl (.connectionCallback hmark)
  | closeInLoop => exact .other (hsame (.exec .removeConnectionInLoop) rfl rfl) rfl
  | setDisconnected =>
    obtain ⟨ht, hmark⟩ := hhome rfl
    exact .home ht rfl rfl (.setDisconnected hmark)
  | remove =>
    obtain ⟨ht, hmark⟩ := hhome rfl
    have hpos : 0 < s.destroys := by
      have hfinish : _ + (s.destroyed + 1) = s.destroys := hl'.sound.finish
      omega
    have hmove := Course.Move.remove hmark (c := s.course) hpos
    exact .home ht rfl rfl (markOf_below hbelow ▸ hmove)
  | @send m => exact .other (hsame (.runInloop (.sendInLoop m)) rfl rfl) rfl
  | shutdown => exact .other (hsame .setDisconnecting rfl rfl) rfl
  | setDisconnecting =>
    have hcalled : s.callbacks ≠ [] := by
      intro hnil
      have hapi := hl.quiet.frames (hl.quiet.callbacks.2 hnil) t .setDisconnecting
        (hs ▸ List.mem_cons_self)
      cases hapi
    have hmark := hsame (.runInloop .shutdownInLoop) rfl rfl
    rw [Follows]
    exact hmark ▸ Course.Move.other (.inr ⟨rfl, hcalled⟩)
  | forceClose => exact .other (hsame .queueForceClose rfl rfl) rfl
  | runInLoop => exact .other (hsame (.exec _) rfl rfl) rfl
  | exec hc => exact .called hl hl' hs hc

theorem mark_user {s : Server} (hl : Lived s) (h : s.inUserCode t = true) :
    markOf (s.stack t) = .plain := markOf_below (hl.placed.user_below h)

/-- Every step follows the course of the connection. -/
theorem Follows.step {s s' : Server} (hl : Lived s) (h : s.step a = some s') :
    Follows s (s.event a) s' := by
  have hfirst {l : Loop} (hs : s.stack (.loop l) = []) (f : Frame) (hf : f.mark = .plain) :
      markOf (Function.update s.stack (.loop l) [f] (.loop s.loop_)) = s.mark := by
    apply update_keeps markOf
    rw [hs]
    exact hf
  have hpush {t : Thread} (hu : s.inUserCode t = true) (f : Frame) (hf : f.mark = .plain) :
      markOf (Function.update s.stack t (f :: s.stack t) (.loop s.loop_)) = s.mark := by
    apply update_keeps markOf
    rw [mark_user hl hu]
    exact hf
  have hl' := hl.step h
  cases Step.of_step h with
  | @go t f rest k _ hs hg =>
    have hevent : s.event (.go t k) = f.event s k := by
      rw [event, hs]
    exact hevent ▸ .goes hl hl' hs hg
  | activeChannel hs => exact .other (hfirst hs (.handleEvent _) rfl) rfl
  | handled | swap | endFunctors | poll | post => exact .other rfl rfl
  | callFunctor hs => exact .other (hfirst hs (.exec _) rfl) rfl
  | enter hs => exact .other (hfirst hs .user rfl) rfl
  | leave hs => exact .other (mark_below hl hs rfl [] fun _ => nofun) rfl
  | @call t a hu =>
    have hframe : (a.frame s t).mark = .plain := by
      cases a <;> rfl
    exact .other (hpush hu _ hframe) rfl
  | newConnection hs => exact .other (hfirst hs (.runInloop .connectEstablished) rfl) rfl
  | destroy hu =>
    refine destroy_cases s ?_ ?_ ?_
    · intro _ _
      exact .other (hpush hu (.exec .connectDestroyed) rfl) rfl
    · intro _ _
      exact .other rfl rfl
    · intro _
      exact .other rfl rfl

/-- After `handleClose` has been called, no hang-up, no end of the peer's stream and no
`forceCloseInLoop` in a state other than `kDisconnected` calls it again. -/
def ClosesFirst (s : Server) (a : Action) : Prop := s.event a = .enterClose → s.closes = 0

instance (s : Server) (a : Action) : Decidable (s.ClosesFirst a) :=
  inferInstanceAs (Decidable (_ → _))

def forcing (n : Nat) : List Action :=
  [.call (.user n) .forceClose, .go (.user n) {}, .go (.user n) {}]

/-- The loop's thread runs `forceCloseInLoop` and the functions it calls. -/
def forceClosing : List Action :=
  [.loop .io, .go (.loop .io) {}, .go (.loop .io) {}, .go (.loop .io) {}, .leave .io,
    .go (.loop .io) {}]

/-- The loop of the `TcpServer` enters `doPendingFunctors` and runs `removeConnectionInLoop`. -/
def removing : List Action := [.loop .base, .loop .base, .loop .base, .go (.loop .base) {}]

/-- A connection is closed at most once when `handleClose` is not called again. -/
theorem closes_once {s : Server} (h : Run Server.step (Server.init config) as s)
    (hfirst : AllSteps Server.step ClosesFirst (Server.init config) as) :
    s.closeCallbacks ≤ 1 ∧ s.destroyQueued ≤ 1 := by
  have hinit : Lived (Server.init config) ∧
      (Server.init config).course.ClosedOnce (Server.init config).mark :=
    ⟨Lived.init config, Nat.zero_le _, nofun⟩
  have hboth := h.invariant_when (P := fun u => Lived u ∧ u.course.ClosedOnce u.mark) hfirst hinit
    fun _ _ _ hu hc hstep =>
      ⟨hu.1.step hstep, hu.2.move (Follows.step hu.1 hstep) hc⟩
  exact hboth.1.sound.once hboth.2.once

theorem closes_once_example : ∃ s, Run Server.step (Server.init ioConfig)
    (connecting ++ forcing 0 ++ iterate .io ++ forceClosing ++ removing) s ∧
      (s.closeCallbacks ≤ 1 ∧ s.destroyQueued ≤ 1) ∧ s.destroyQueued = 1 := by
  have hrun : (exec Server.step (Server.init ioConfig) (connecting ++ forcing 0 ++ iterate .io ++
      forceClosing ++ removing)).any (fun s => s.destroyQueued == 1) = true := by
    decide +kernel
  obtain ⟨s, hs, hp⟩ := Run.of_exec_any hrun
  exact ⟨s, hs, closes_once hs (by decide +kernel), beq_iff_eq.1 hp⟩

/-- Two calls of `forceClose` close the connection twice. -/
theorem closes_twice : ¬ ∀ config as s, Run Server.step (Server.init config) as s →
    s.closeCallbacks ≤ 1 ∧ s.destroyQueued ≤ 1 := by
  intro h
  have hrun : (exec Server.step (Server.init ioConfig) (connecting ++ forcing 0 ++ forcing 1 ++
      iterate .io ++ forceClosing ++ forceClosing ++ removing ++
      [.loop .base, .go (.loop .base) {}])).any
        (fun s => s.closeCallbacks == 2 && s.destroyQueued == 2) = true := by
    decide +kernel
  obtain ⟨s, hs, hp⟩ := Run.of_exec_any hrun
  simp only [Bool.and_eq_true, beq_iff_eq] at hp
  have hle := (h _ _ _ hs).1
  omega

/-- The connection callback has been told once that the connection is up and at most once, from
whichever function, that it is down: exactly once when `connectDestroyed` has finished. -/
def ToldOnce (s : Server) : Prop := ∃ caller,
  s.callbacks <+: [(.connectEstablished, true), (caller, false)] ∧
    (0 < s.destroyed → s.callbacks = [(.connectEstablished, true), (caller, false)])

/-- `handleClose` is called once, before `connectDestroyed` and with its callback in a state other
than `kConnected`, or else `connectDestroyed` finds `kConnected`. -/
def Orderly (s : Server) (a : Action) : Prop := s.course.Orderly (s.event a)

instance (s : Server) (a : Action) : Decidable (s.Orderly a) :=
  inferInstanceAs (Decidable (Course.Orderly _ _))

def shuttingDown : List Action :=
  [.call (.user 0) .shutdown, .go (.user 0) {}, .go (.user 0) {}, .go (.user 0) {}] ++
    iterate .io ++ [.loop .io, .go (.loop .io) {}, .loop .io]

/-- The peer closes its side, and `connectDestroyed` is called in the end. -/
def peerCloses : List Action :=
  [.poll .io (some POLLIN), .loop .io, .go (.loop .io) {}, .go (.loop .io) { read := .eof },
    .go (.loop .io) {}, .go (.loop .io) {}, .leave .io, .go (.loop .io) {}] ++
  removing ++
  [.loop .io, .loop .io, .loop .io, .go (.loop .io) {}]

theorem told_once {s : Server} (h : Run Server.step (Server.init config) as s)
    (horderly : AllSteps Server.step Orderly (Server.init config) as) : ToldOnce s := by
  have hinit : Lived (Server.init config) ∧
      (Server.init config).course.Told (Server.init config).mark :=
    ⟨Lived.init config, .fresh rfl rfl rfl rfl nofun rfl⟩
  have hboth := h.invariant_when (P := fun u => Lived u ∧ u.course.Told u.mark) horderly hinit
    fun _ _ _ hu hc hstep =>
      ⟨hu.1.step hstep, hu.2.move (Follows.step hu.1 hstep) hc⟩
  exact hboth.2.callbacks

theorem told_once_example : ∃ s, Run Server.step (Server.init ioConfig)
    (connecting ++ shuttingDown ++ peerCloses ++ [.go (.loop .io) {}]) s ∧
      0 < s.destroyed ∧ ToldOnce s := by
  have hrun : (exec Server.step (Server.init ioConfig) (connecting ++ shuttingDown ++
      peerCloses ++ [.go (.loop .io) {}])).any (fun s => s.destroyed == 1) = true := by
    decide +kernel
  obtain ⟨s, hs, hp⟩ := Run.of_exec_any hrun
  have hone := beq_iff_eq.1 hp
  exact ⟨s, hs, by omega, told_once hs (by decide +kernel)⟩

/-- When the peer closes first, the callback is told that the connection is up a second time. -/
theorem told_twice : ¬ ∀ config as s, Run Server.step (Server.init config) as s → ToldOnce s := by
  intro h
  have hrun : (exec Server.step (Server.init ioConfig) (connecting ++ [.loop .io] ++
      peerCloses ++ [.go (.loop .io) {}, .go (.loop .io) {}, .leave .io, .go (.loop .io) {}])).any
        (fun s => s.callbacks == [(.connectEstablished, true), (.handleClose, true),
          (.connectDestroyed, false)] && s.destroyed == 1) = true := by
    decide +kernel
  obtain ⟨s, hs, hp⟩ := Run.of_exec_any hrun
  simp only [Bool.and_eq_true, beq_iff_eq] at hp
  obtain ⟨caller, _, hall⟩ := h _ _ _ hs
  have hcalls := hall (by omega)
  rw [hp.1] at hcalls
  simp at hcalls

end MuduoStudy.Server
