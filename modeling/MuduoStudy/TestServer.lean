import Mathlib.Data.List.Infix
import MuduoStudy.ByteQueue
import MuduoStudy.ReadFd
import MuduoStudy.SendOrder
import MuduoStudy.Shutdown
import MuduoStudy.Stages
import MuduoStudy.WriteInterest

namespace MuduoStudy
open Transition Server
set_option autoImplicit true

/-- The example server with one of its connections. What `onMessage` answers is left open. -/
structure TestServer where
  server : Server
  inputBuffer_ : Buff := Buff.new Buff.kInitialSize
  /-- the bytes of each `readFd` that has read some -/
  received : List (List UInt8) := []
  /-- the strings that `onMessage` has printed -/
  printed : List (List UInt8) := []
  /-- `messageCallback_` has been called, and `onMessage` is at its first statement -/
  entered : Bool := false

namespace TestServer

/-- What `onMessage` puts into `send_buf`, whatever it has received. -/
def hello (_ : List UInt8) : Block := ⟨[104, 101, 108, 108, 111], by decide⟩

/-- How `handleRead` sees the result of `readFd`. -/
def readResult (n : Int) : ReadResult := if 0 < n then .data else if n = 0 then .eof else .error

/-- `TcpConnection::handleRead` up to its callback. -/
def handleRead (s : TestServer) (r : Readv) (alloc : Bool) : Option TestServer :=
  if (s.server.stack (.loop s.server.loop_)).head? = some .handleRead ∧ r.fits s.inputBuffer_ then
    (s.inputBuffer_.readFd r alloc).bind fun read =>
      (s.server.step (.go (.loop s.server.loop_) { read := readResult read.2.1 })).map fun server =>
        { s with
          server := server
          inputBuffer_ := read.1
          received := if 0 < read.2.1 then s.received ++ [r.bytes] else s.received
          entered := decide (0 < read.2.1) }
  else none

/-- `onMessage` up to the body of `con->send(&send_buf)`. -/
def onMessage (reply : List UInt8 → Block) (s : TestServer) : Option TestServer :=
  if s.entered then
    let buf := s.inputBuffer_.retrieveAsString s.inputBuffer_.readableBytes
    ((Buff.new Buff.kInitialSize).append (reply buf.1).bytes).bind fun send_buf =>
      if h : (send_buf.peek send_buf.readableBytes).length < 2 ^ 63 then
        (s.server.step (.call (.loop s.server.loop_) (.send ⟨_, h⟩))).map fun server =>
          { s with
            server := server
            inputBuffer_ := buf.2
            printed := s.printed ++ [buf.1]
            entered := false }
      else none
  else none

inductive Action where
  | server (a : Server.Action)
  | handleRead (r : Readv) (alloc : Bool)
  | onMessage

/-- The example makes no other calls, queues nothing and keeps its server. A callback returns when
it has done its work. -/
def mayStep (s : TestServer) : Server.Action → Bool
  | .go t _ => (s.server.stack t).head? ≠ some .handleRead
  | .leave l => !(s.entered && l = s.server.loop_)
  | .call .. | .post .. | .destroy => false
  | .loop _ | .poll .. | .enter _ | .newConnection => true

def step (reply : List UInt8 → Block) (s : TestServer) : Action → Option TestServer
  | .server a =>
    if s.mayStep a then (s.server.step a).map fun server => { s with server := server } else none
  | .handleRead r alloc => s.handleRead r alloc
  | .onMessage => s.onMessage reply

def init (config : Config) : TestServer where
  server := Server.init config

end TestServer

namespace Server

theorem Goes.carried {s s' : Server} (h : Goes s t rest k f s') (ht : t = .loop s.loop_)
    (hstate : f.sends ≠ [] → s.conn.state_ = .kConnected) :
    ∃ fs, s'.stack = Function.update s.stack t (fs ++ rest) ∧
      s'.executed ++ Server.carried fs = s.executed ++ f.sends := by
  have hnone (fs : List Frame) (hstack : s'.stack = Function.update s.stack t (fs ++ rest))
      (hf : f.sends = []) (hfs : Server.carried fs = []) (he : s'.executed = s.executed) :
      ∃ fs, s'.stack = Function.update s.stack t (fs ++ rest) ∧
        s'.executed ++ Server.carried fs = s.executed ++ f.sends :=
    ⟨fs, hstack, by rw [he, hf, hfs]⟩
  cases h with
  | handleEvent => exact hnone _ rfl rfl (carried_dispatch _) rfl
  | readData | connectionCallback => exact hnone [.user] rfl rfl rfl rfl
  | readEof => exact hnone [.handleClose] rfl rfl rfl rfl
  | @drained c => exact hnone _ rfl rfl (carried_below (isBelow_drained c)) rfl
  | handleClose =>
    exact hnone [.connectionCallback .handleClose, .closeCallback] rfl rfl rfl rfl
  | closeInLoop => exact hnone [.exec .removeConnectionInLoop] rfl rfl rfl rfl
  | setDisconnected => exact hnone [.connectionCallback .connectDestroyed] rfl rfl rfl rfl
  | @send m => exact ⟨[.runInloop (.sendInLoop m)], rfl, rfl⟩
  | @sendDropped m hn => exact (hn (hstate (List.cons_ne_nil m []))).elim
  | shutdown => exact hnone [.setDisconnecting] rfl rfl rfl rfl
  | setDisconnecting => exact hnone [.runInloop .shutdownInLoop] rfl rfl rfl rfl
  | forceClose => exact hnone [.queueForceClose] rfl rfl rfl rfl
  | @runInLoop g => exact ⟨[.exec g], rfl, congrArg (s.executed ++ ·) (List.append_nil _)⟩
  | runQueued hn => exact (hn ht).elim
  | readError | handleWrite | ifDisconnecting | ifNotDisconnecting | closeQueued | remove
  | shutdownDropped | forceCloseDropped | queueForceClose | queueNotice =>
    exact hnone [] rfl rfl rfl rfl
  | exec hc =>
    cases hc with
    | connectEstablished =>
      exact hnone [.connectionCallback .connectEstablished] rfl rfl rfl rfl
    | @sendInLoop c notices m =>
      have hnotices : Server.carried (notices.map .queueNotice) = [] :=
        carried_below (isBelow_notices notices)
      refine ⟨_, rfl, ?_⟩
      rw [hnotices, List.append_nil]
      rfl
    | @sendLate m hd =>
      have hc := hstate (List.cons_ne_nil m [])
      cases hd.symm.trans hc
    | forceCloseInLoop => exact hnone [.handleClose] rfl rfl rfl rfl
    | destroyConnected => exact hnone [.setDisconnected, .remove] rfl rfl rfl rfl
    | destroyLate => exact hnone [.remove] rfl rfl rfl rfl
    | notice | other => exact hnone [.user] rfl rfl rfl rfl
    | shutdownInLoop | forceCloseLate | startReadInLoop | stopReadInLoop
    | removeConnectionInLoop => exact hnone [] rfl rfl rfl rfl

/-- The connection's loop is the only thread that sends, and nobody does anything else with the
connection. -/
structure Answering (s : Server) : Prop where
  staged : Staged s
  tracked : Tracked s
  -- the user's functions run on the connection's loop, which hands over what it sends
  calls : Carries (fun t f => f.isApi = true → t = .loop s.loop_ ∧ f.sends ≠ [])
    (fun _ f => f.isApi = false) s.stack s.queue
  state : s.conn.state_ = .kDisconnected ∨ s.conn.state_ = .kConnected
  order : s.destroys = 0 → s.called = s.executed ++ carried (s.stack (.loop s.loop_))
  late : s.executed <+: s.called

theorem Answering.init (config : Config) : Answering (Server.init config) :=
  ⟨Staged.init config, Tracked.init config, ⟨fun _ _ h => (List.not_mem_nil h).elim,
    fun _ _ h => (List.not_mem_nil h).elim⟩, .inl rfl, fun _ => rfl, List.prefix_rfl⟩

theorem Goes.called_eq {s s' : Server} (h : Goes s t rest k f s') : s'.called = s.called := by
  cases h with
  | exec hc => cases hc <;> rfl
  | _ => rfl

theorem Goes.executed_eq {s s' : Server} (h : Goes s t rest k f s') (ht : t ≠ .loop s.loop_)
    (hf : f.fits s.loop_ t = true) : s'.executed = s.executed := by
  cases h with
  | exec hc =>
    cases hc with
    | sendInLoop => exact (ht (Frame.home hf rfl)).elim
    | _ => rfl
  | _ => rfl

theorem Goes.queues_api {s s' : Server} (h : Goes s t rest k f s')
    (hf : f.isApi = true → t = .loop s.loop_ ∧ f.sends ≠ [])
    (hq : ∀ l, ∀ g ∈ (s.queue l).contents, g.isApi = false) :
    ∀ l, ∀ g ∈ (s'.queue l).contents, g.isApi = false := by
  have hcarries : Carries (fun _ _ => True) (fun _ g => g.isApi = false) s.stack s.queue :=
    ⟨fun _ _ _ => trivial, hq⟩
  cases h with
  | closeQueued | queueNotice => exact (hcarries.post rfl).queued
  | queueForceClose => exact ((hf rfl).2 rfl).elim
  | @runQueued g ht =>
    have hg : g.isApi = false := by
      apply Bool.eq_false_iff.2
      intro hg
      exact ht (hf hg).1
    exact (hcarries.post hg).queued
  | exec hc =>
    cases hc with
    | removeConnectionInLoop => exact (hcarries.post rfl).queued
    | _ => exact hq
  | _ => exact hq

theorem Runs.state (h : Runs c k f c') (hf : f ≠ .setDisconnecting) :
    c'.state_ = c.state_ ∨ c'.state_ = .kConnected ∨ c'.state_ = .kDisconnected := by
  cases h with
  | connectEstablished => exact .inr (.inl rfl)
  | sendInLoop _ hs => exact .inl hs.kept.state
  | shutdownInLoop | ifDisconnecting => exact .inl c.shutdownInLoop_same.1
  | startReadInLoop => exact .inl (TcpConnection.Kept.startReadInLoop c).state
  | stopReadInLoop => exact .inl (TcpConnection.Kept.stopReadInLoop c).state
  | handleWrite hw => exact .inl hw.kept.state
  | handleClose | remove => exact .inl rfl
  | setDisconnected => exact .inr (.inr rfl)
  | setDisconnecting => exact (hf rfl).elim

theorem Runs.message_cases (h : Runs c k f c') :
    f.message = [] ∨ c.state_ ≠ .kDisconnected ∧ ∃ m, f = .exec (.sendInLoop m) := by
  cases h with
  | @sendInLoop _ m hstate => exact .inr ⟨hstate, m, rfl⟩
  | _ => exact .inl rfl

section
variable {s s' : Server}

theorem Answering.not_setDisconnecting (ha : Answering s) (hs : s.stack t = f :: rest) :
    f ≠ .setDisconnecting := by
  rintro rfl
  have hcall := ha.calls.frames t .setDisconnecting (hs ▸ List.mem_cons_self)
  exact (hcall rfl).2 rfl

theorem Answering.inOrder (ha : Answering s) (a : Action) : InOrder s a := by
  cases a with
  | go t k =>
    cases hs : s.stack t with
    | nil =>
      rw [InOrder, Server.inOrder, hs]
    | cons f rest =>
      rw [InOrder, inOrder_go hs]
      have hnot := ha.not_setDisconnecting hs
      have hstate : s.conn.state_ ≠ .kDisconnecting := by
        intro hd
        rcases ha.state with h | h
        · cases h.symm.trans hd
        · cases h.symm.trans hd
      cases f with
      | setDisconnecting => exact (hnot rfl).elim
      | exec g =>
        cases g with
        | connectDestroyed => exact decide_eq_true hstate
        | _ => rfl
      | _ => rfl
  | _ => rfl

theorem Answering.state_step (ha : Answering s) (h : s.step a = some s') :
    s'.conn.state_ = .kDisconnected ∨ s'.conn.state_ = .kConnected := by
  cases ConnStep.of_step h with
  | same hc =>
    rw [hc]
    exact ha.state
  | runs hs hr =>
    rcases hr.state (ha.not_setDisconnecting hs) with hsame | hc | hd
    · rw [hsame]
      exact ha.state
    · exact .inr hc
    · exact .inl hd

theorem Goes.calls (h : Goes s t rest k f s')
    (hf : f.isApi = true → t = .loop s.loop_ ∧ f.sends ≠ []) :
    ∃ fs, s'.stack = Function.update s.stack t (fs ++ rest) ∧
      ∀ g ∈ fs, g.isApi = true → t = .loop s.loop_ ∧ g.sends ≠ [] := by
  cases hapi : f.isApi with
  | false =>
    obtain ⟨⟨fs, hstack, hfs⟩, _⟩ := h.quiet
    refine ⟨fs, hstack, ?_⟩
    intro g hg hgapi
    cases (hfs hapi g hg).symm.trans hgapi
  | true =>
    obtain ⟨ht, hcarried⟩ := hf hapi
    have hone {g : Frame} (hg : g.isApi = true → t = .loop s.loop_ ∧ g.sends ≠ []) :
        ∀ g' ∈ [g], g'.isApi = true → t = .loop s.loop_ ∧ g'.sends ≠ [] :=
      List.forall_mem_singleton.2 hg
    cases h with
    | @send m => exact ⟨[.runInloop (.sendInLoop m)], rfl, hone fun _ => ⟨ht, hcarried⟩⟩
    | @runInLoop g => exact ⟨[.exec g], rfl, hone fun hg => by cases hg⟩
    | sendDropped | runQueued => exact ⟨[], rfl, List.forall_mem_nil _⟩
    | exec => cases hapi
    | handleEvent | readData | readEof | readError | handleWrite | drained | ifDisconnecting
    | ifNotDisconnecting | handleClose | connectionCallback | closeInLoop | closeQueued
    | setDisconnected | remove | queueNotice => cases hapi
    | shutdown | shutdownDropped | setDisconnecting | forceClose | forceCloseDropped
    | queueForceClose => exact (hcarried rfl).elim

theorem Answering.connected (ha : Answering s) (hs : s.stack t = f :: rest)
    (hf : f.isEarly = false) (hdestroys : s.destroys = 0) : s.conn.state_ = .kConnected :=
  ha.state.resolve_left
    (ha.tracked.alive.state (ha.tracked.lived.established_pos hs hf) hdestroys)

theorem Frame.isEarly_of_sends {f : Frame} (h : f.sends ≠ []) : f.isEarly = false := by
  cases hf : f.isEarly with
  | false => rfl
  | true =>
    have hitem : f.sends = [] := by
      cases f with
      | runInloop g => cases g <;> first | rfl | cases hf
      | exec g => cases g <;> first | rfl | cases hf
      | send => cases hf
      | _ => rfl
    exact (h hitem).elim

/-- What has been executed stays a first part of what the user has sent. -/
theorem Answering.executed (ha : Answering s) (hs : s.stack t = f :: rest)
    (h : Goes s t rest k f s') : s'.executed <+: s'.called := by
  rw [h.called_eq]
  cases ConnStep.of_goes hs h with
  | same _ he =>
    rw [he]
    exact ha.late
  | @runs _ g gs _ _ hs' hr he =>
    rw [he]
    cases hs.symm.trans hs'
    rcases hr.message_cases with hnil | ⟨hstate, m, rfl⟩
    · rw [hnil, List.append_nil]
      exact ha.late
    · obtain ⟨ht, hmark⟩ := mark_home ha.tracked.lived hs rfl
      have hmarked : s.mark ≠ .setDisconnected := by
        rw [hmark]
        nofun
      -- behind a `connectDestroyed` the state is `kDisconnected`, and nothing is executed
      have hdestroys : s.destroys = 0 := by
        apply Nat.eq_zero_of_not_pos
        intro hpos
        exact hstate (ha.staged.settled.of_ne hmarked hpos)
      subst t
      rw [ha.order hdestroys, hs, carried_cons, ← List.append_assoc]
      exact List.prefix_append _ _

theorem Answering.goes (ha : Answering s) (h : s.step (.go t k) = some s')
    (hs : s.stack t = f :: rest) (hg : Goes s t rest k f s') : Answering s' := by
  have hplaced : Placed s := ha.tracked.lived.placed
  have hmove := Follows.step ha.tracked.lived h
  have hcounts : s.closes ≤ s'.closes ∧ s.destroys ≤ s'.destroys := hmove.counts_le
  obtain ⟨hrest, hbelow⟩ := hplaced.belowTop hs
  have hloop : s'.loop_ = s.loop_ := Step.loop_eq h
  have htop := ha.calls.frames t f (hs ▸ List.mem_cons_self)
  have hcalls : Carries (fun t f => f.isApi = true → t = .loop s'.loop_ ∧ f.sends ≠ [])
      (fun _ f => f.isApi = false) s'.stack s'.queue := by
    obtain ⟨fs, hstack, hfs⟩ := hg.calls htop
    rw [hstack, hloop]
    exact ⟨(ha.calls.goto fs hfs hrest).frames, hg.queues_api htop ha.calls.queued⟩
  have horder (hdestroys : s'.destroys = 0) :
      s'.called = s'.executed ++ carried (s'.stack (.loop s'.loop_)) := by
    have hbefore : s.destroys = 0 := by omega
    rw [hg.called_eq, ha.order hbefore, hloop]
    by_cases ht : t = .loop s.loop_
    · have hstate (hcarried : f.sends ≠ []) : s.conn.state_ = .kConnected :=
        ha.connected hs (Frame.isEarly_of_sends hcarried) hbefore
      obtain ⟨fs, hstack, hcarried⟩ := hg.carried ht hstate
      subst t
      rw [hstack, Function.update_self, carried_append, carried_below hbelow, List.append_nil,
        hcarried, hs, carried_cons, carried_below hbelow, List.append_nil]
    · obtain ⟨fs, hstack, _⟩ := hg.calls htop
      rw [hstack, Function.update_of_ne (Ne.symm ht), hg.executed_eq ht (hplaced.frame hs)]
  exact ⟨ha.staged.step (ha.inOrder _) h, ha.tracked.step h, hcalls, ha.state_step h, horder,
    ha.executed hs hg⟩

theorem Answering.other (ha : Answering s) (h : s.step a = some s')
    (hcalls : Carries (fun t f => f.isApi = true → t = .loop s.loop_ ∧ f.sends ≠ [])
      (fun _ f => f.isApi = false) s'.stack s'.queue)
    (hcalled : s'.called = s.called) (hexecuted : s'.executed = s.executed)
    (hcarried : carried (s'.stack (.loop s.loop_)) = carried (s.stack (.loop s.loop_))) :
    Answering s' := by
  have hmove := Follows.step ha.tracked.lived h
  have hcounts : s.closes ≤ s'.closes ∧ s.destroys ≤ s'.destroys := hmove.counts_le
  have hloop : s'.loop_ = s.loop_ := Step.loop_eq h
  have horder (hdestroys : s'.destroys = 0) :
      s'.called = s'.executed ++ carried (s'.stack (.loop s'.loop_)) := by
    rw [hcalled, hexecuted, hloop, hcarried]
    exact ha.order (by omega)
  have hlate : s'.executed <+: s'.called := by
    rw [hcalled, hexecuted]
    exact ha.late
  rw [← hloop] at hcalls
  exact ⟨ha.staged.step (ha.inOrder _) h, ha.tracked.step h, hcalls, ha.state_step h, horder,
    hlate⟩

/-- The steps that the user's code does not decide. -/
def isOwn : Action → Bool
  | .call .. | .post .. | .destroy => false
  | .go .. | .loop _ | .poll .. | .enter _ | .leave _ | .newConnection => true

theorem Answering.step (ha : Answering s) (h : s.step a = some s') (hown : isOwn a = true) :
    Answering s' := by
  have hfirst {l : Loop} (hs : s.stack (.loop l) = []) (f : Frame) (hf : f.sends = []) :
      carried (Function.update s.stack (.loop l) [f] (.loop s.loop_)) =
        carried (s.stack (.loop s.loop_)) := by
    apply update_keeps carried
    rw [hs]
    change f.sends ++ [] = []
    rw [hf, List.append_nil]
  have henter {l : Loop} (f : Frame) (hf : f.isApi = false) :
      Carries (fun t f => f.isApi = true → t = .loop s.loop_ ∧ f.sends ≠ [])
        (fun _ f => f.isApi = false) (Function.update s.stack (.loop l) [f]) s.queue := by
    have hone (g : Frame) (hg : g ∈ [f]) (hapi : g.isApi = true) :
        Thread.loop l = .loop s.loop_ ∧ g.sends ≠ [] := by
      cases List.mem_singleton.1 hg
      cases hf.symm.trans hapi
    exact ha.calls.goto [f] hone (List.forall_mem_nil _)
  cases Step.of_step h with
  | go hs hg => exact ha.goes h hs hg
  | activeChannel hs =>
    exact ha.other h (henter (.handleEvent _) rfl) rfl rfl (hfirst hs (.handleEvent _) rfl)
  | handled | endFunctors | poll => exact ha.other h ha.calls rfl rfl rfl
  | @swap l hs hphase =>
    have hb := ha.tracked.lived.placed.batch l (by rw [hphase]; nofun)
    exact ha.other h (ha.calls.swap hb) rfl rfl rfl
  | @callFunctor l g q hs hphase hq =>
    obtain ⟨hg, hcarries⟩ := ha.calls.dequeue hq
    have hcarried : (Frame.exec g).sends = [] := by
      cases g <;> first | rfl | cases hg
    exact ha.other h ⟨(henter (.exec g) rfl).frames, hcarries.queued⟩ rfl rfl
      (hfirst hs (.exec g) hcarried)
  | enter hs => exact ha.other h (henter .user rfl) rfl rfl (hfirst hs .user rfl)
  | @leave l rest hs =>
    have hrest (g : Frame) (hg : g ∈ rest) : g ∈ s.stack (.loop l) :=
      hs ▸ List.mem_cons_of_mem _ hg
    have hcalls := ha.calls.goto [] (List.forall_mem_nil _) hrest
    have hcarried : carried (Function.update s.stack (.loop l) rest (.loop s.loop_)) =
        carried (s.stack (.loop s.loop_)) := by
      apply update_keeps carried
      rw [hs]
      rfl
    exact ha.other h hcalls rfl rfl hcarried
  | newConnection hs =>
    exact ha.other h (henter (.runInloop .connectEstablished) rfl) rfl rfl
      (hfirst hs (.runInloop .connectEstablished) rfl)
  | call | post | destroy => cases hown

theorem carried_user (ha : Answering s) (h : s.inUserCode t = true) : carried (s.stack t) = [] :=
  carried_below (ha.tracked.lived.placed.user_below h)

theorem Answering.send (ha : Answering s)
    (h : s.step (.call (.loop s.loop_) (.send message)) = some s') :
    Answering s' ∧ s'.called = s.called ++ [⟨s.called.length, .loop s.loop_, message⟩] := by
  have hmove := Follows.step ha.tracked.lived h
  have hcounts : s.closes ≤ s'.closes ∧ s.destroys ≤ s'.destroys := hmove.counts_le
  have hstaged := ha.staged.step (ha.inOrder _) h
  have htracked := ha.tracked.step h
  have hstate := ha.state_step h
  cases Step.of_step h with
  | call hu =>
    refine ⟨⟨hstaged, htracked, ?_, hstate, ?_, ha.late.trans (List.prefix_append _ _)⟩, rfl⟩
    · exact ha.calls.goto [.send _]
        (List.forall_mem_singleton.2 fun _ => ⟨rfl, List.cons_ne_nil _ _⟩) fun _ hg => hg
    · intro hdestroys
      have hbefore : s.destroys = 0 := by omega
      have hcalled := ha.order hbefore
      rw [carried_user ha hu, List.append_nil] at hcalled
      have hstack : carried (Function.update s.stack (.loop s.loop_)
          (.send ⟨s.called.length, .loop s.loop_, message⟩ :: s.stack (.loop s.loop_))
          (.loop s.loop_)) = [⟨s.called.length, .loop s.loop_, message⟩] := by
        rw [Function.update_self]
        change [_] ++ carried (s.stack (.loop s.loop_)) = _
        rw [carried_user ha hu, List.append_nil]
      exact (congrArg (· ++ _) hcalled).trans (congrArg (s.executed ++ ·) hstack.symm)

theorem stack_user (h : s.step a = some s') (hu : s.inUserCode (.loop l) = true)
    (hown : isOwn a = true) (hleave : a ≠ .leave l) :
    s'.stack (.loop l) = s.stack (.loop l) := by
  have hhead : (s.stack (.loop l)).head? = some .user := of_decide_eq_true hu
  have hidle {l' : Loop} (hs : s.stack (.loop l') = []) (fs : List Frame) :
      Function.update s.stack (.loop l') fs (.loop l) = s.stack (.loop l) := by
    apply Function.update_of_ne
    intro heq
    rw [heq, hs] at hhead
    cases hhead
  cases Step.of_step h with
  | @go t f rest k _ hs hg =>
    have ht : Thread.loop l ≠ t := by
      rintro rfl
      rw [hs] at hhead
      cases hhead
      cases hg
    obtain ⟨⟨fs, hstack, _⟩, _⟩ := hg.quiet
    rw [hstack, Function.update_of_ne ht]
  | handled | swap | endFunctors | poll => rfl
  | activeChannel hs | callFunctor hs | enter hs | newConnection hs => exact hidle hs _
  | @leave l' rest hs =>
    apply Function.update_of_ne
    rintro ⟨⟩
    exact hleave rfl
  | call | post | destroy => cases hown

end

end Server

namespace TestServer

/-- What `onMessage` has seen is answered, and what it has not yet seen is in `inputBuffer_`. -/
structure Answers (reply : List UInt8 → Block) (s : TestServer) : Prop where
  answering : s.server.Answering
  wf : s.inputBuffer_.Wf
  received : s.received = s.printed ++ if s.entered then [s.inputBuffer_.readable] else []
  empty : s.entered = false → s.inputBuffer_.readable = []
  inside : s.entered = true → s.server.inUserCode (.loop s.server.loop_) = true
  sent : s.server.called.map (fun m => m.message.bytes) = s.printed.map fun b => (reply b).bytes

section
variable {reply : List UInt8 → Block} {s s' : TestServer}

theorem Answers.init (config : Config) : Answers reply (init config) :=
  ⟨Answering.init config, Buff.Wf.new (by decide), rfl, fun _ => Buff.readable_new _,
    fun h => (Bool.false_ne_true h).elim, rfl⟩

theorem Answers.server {next : Server} (ha : Answers reply s) (hmay : s.mayStep a = true)
    (h : s.server.step a = some next) : Answers reply { s with server := next } := by
  have hown : isOwn a = true := by
    cases a <;> first | rfl | cases hmay
  have hcalled : next.called = s.server.called := by
    rcases called_step h with hc | ⟨t, message, rfl, _⟩
    · exact hc
    · cases hmay
  have hinside (he : s.entered = true) : next.inUserCode (.loop next.loop_) = true := by
    have hleave : a ≠ .leave s.server.loop_ := by
      rintro rfl
      rw [mayStep, he, decide_eq_true rfl] at hmay
      cases hmay
    have hstack := stack_user h (ha.inside he) hown hleave
    rw [Step.loop_eq h, inUserCode, hstack]
    exact ha.inside he
  have hsent : next.called.map (fun m => m.message.bytes) =
      s.printed.map fun b => (reply b).bytes := by
    rw [hcalled]
    exact ha.sent
  exact ⟨ha.answering.step h hown, ha.wf, ha.received, ha.empty, hinside, hsent⟩

theorem readFd_cases {b b' : Buff} (hwf : b.Wf) (hfits : r.fits b = true)
    (h : b.readFd r alloc = some (b', n, e)) : b'.Wf ∧
      (0 < n ∧ b'.readable = b.readable ++ r.bytes ∨ ¬ 0 < n ∧ b'.readable = b.readable) := by
  cases r with
  | error errno =>
    cases h
    exact ⟨hwf, .inr ⟨by decide, rfl⟩⟩
  | data bytes =>
    cases hwf.reads (of_decide_eq_true hfits) alloc with
    | returns c _ hcall hwf' hread =>
      cases hcall.symm.trans h
      refine ⟨hwf', ?_⟩
      cases bytes with
      | nil => exact .inr ⟨Int.lt_irrefl 0, hread.trans (List.append_nil _)⟩
      | cons x xs => exact .inl ⟨Int.natCast_pos.2 (Nat.succ_pos _), hread⟩
    | throws _ _ hcall => cases hcall.symm.trans h

theorem Answers.handleRead (ha : Answers reply s) (h : s.handleRead r alloc = some s') :
    Answers reply s' := by
  rw [TestServer.handleRead, Option.ite_none_right_eq_some] at h
  obtain ⟨⟨htop, hfits⟩, h⟩ := h
  obtain ⟨⟨b, n, e⟩, hread, h⟩ := Option.bind_eq_some_iff.1 h
  obtain ⟨next, hnext, rfl⟩ := Option.map_eq_some_iff.1 h
  have hentered : s.entered = false := by
    apply Bool.eq_false_iff.2
    intro he
    have huser := of_decide_eq_true (ha.inside he)
    rw [htop] at huser
    cases huser
  have hanswering := ha.answering.step hnext rfl
  have hsent : next.called.map (fun m => m.message.bytes) =
      s.printed.map fun b => (reply b).bytes := by
    rcases called_step hnext with hc | ⟨_, _, hcall, _⟩
    · rw [hc]
      exact ha.sent
    · cases hcall
  have hreceived := ha.received
  have hempty := ha.empty hentered
  rw [hentered, if_neg Bool.false_ne_true, List.append_nil] at hreceived
  obtain ⟨hwf, ⟨hpos, hreadable⟩ | ⟨hpos, hreadable⟩⟩ := readFd_cases ha.wf hfits hread
  · rw [hempty, List.nil_append] at hreadable
    have hinside : next.inUserCode (.loop next.loop_) = true := by
      rw [Step.loop_eq hnext]
      cases Step.of_step hnext with
      | @go t f rest k _ hs hg =>
        rw [hs] at htop
        cases htop
        cases hg with
        | readData =>
          have hstack := Function.update_self (Thread.loop s.server.loop_) (Frame.user :: rest)
            s.server.stack
          exact decide_eq_true (congrArg List.head? hstack)
        | readEof hk | readError hk =>
          rw [readResult, if_pos hpos] at hk
          cases hk
    simp only [hpos, ↓reduceIte, decide_true]
    refine ⟨hanswering, hwf, ?_, fun he => (Bool.false_ne_true he.symm).elim,
      fun _ => hinside, hsent⟩
    simp only [↓reduceIte, hreceived, hreadable]
  · rw [hempty] at hreadable
    simp only [hpos, ↓reduceIte, decide_false]
    refine ⟨hanswering, hwf, ?_, fun _ => hreadable, fun he => (Bool.false_ne_true he).elim, hsent⟩
    simp only [Bool.false_eq_true, ↓reduceIte, List.append_nil]
    exact hreceived

theorem Answers.onMessage (ha : Answers reply s) (h : s.onMessage reply = some s') :
    Answers reply s' := by
  rw [TestServer.onMessage, Option.ite_none_right_eq_some] at h
  obtain ⟨hentered, h⟩ := h
  obtain ⟨send_buf, happend, h⟩ := Option.bind_eq_some_iff.1 h
  obtain ⟨hwf, hrest⟩ := ha.wf.retrieve s.inputBuffer_.readableBytes
  rw [ha.wf.readableBytes, List.drop_length, ← ha.wf.readableBytes] at hrest
  obtain ⟨hsend, hreply⟩ :=
    (Buff.Wf.new (by decide : Buff.kInitialSize < 2 ^ 62)).append (reply _).bound happend
  split at h
  · obtain ⟨next, hnext, rfl⟩ := Option.map_eq_some_iff.1 h
    obtain ⟨hanswering, hcalled⟩ := ha.answering.send hnext
    have hreceived := ha.received
    rw [hentered, if_pos rfl, ← ha.wf.peek] at hreceived
    refine ⟨hanswering, hwf, ?_, fun _ => hrest, fun he => (Bool.false_ne_true he).elim, ?_⟩
    · simp only [Bool.false_eq_true, ↓reduceIte, List.append_nil]
      exact hreceived
    · rw [hcalled, List.map_append, ha.sent, List.map_append]
      simp only [List.map_cons, List.map_nil]
      rw [hsend.peek, hreply, Buff.readable_new, List.nil_append]
  · cases h

theorem Answers.step (ha : Answers reply s) (h : s.step reply a = some s') : Answers reply s' := by
  cases a with
  | server a =>
    simp only [TestServer.step, Option.ite_none_right_eq_some] at h
    obtain ⟨hmay, h⟩ := h
    obtain ⟨next, hnext, rfl⟩ := Option.map_eq_some_iff.1 h
    exact ha.server hmay hnext
  | handleRead r alloc => exact ha.handleRead h
  | onMessage => exact ha.onMessage h

theorem Answers.run (h : Run (TestServer.step reply) (TestServer.init config) as s) :
    Answers reply s :=
  h.invariant (Answers.init config) fun _ _ _ => Answers.step

def answers (reply : List UInt8 → Block) (messages : List (List UInt8)) : List UInt8 :=
  messages.flatMap fun b => (reply b).bytes

theorem Answers.bytes_called (ha : Answers reply s) :
    bytes s.server.called = answers reply s.printed := by
  rw [bytes, answers, List.flatMap_def, List.flatMap_def, ha.sent]

/-- What has come in is answered in its order, nothing is lost and nothing is answered twice. -/
theorem answers_in_order (h : Run (TestServer.step reply) (init config) as s) :
    s.received = s.printed ++ (if s.entered then [s.inputBuffer_.readable] else []) ∧
      (s.server.conn.faulted = false → s.server.conn.written <+: answers reply s.printed) ∧
      (s.server.destroys = 0 → s.server.stack (.loop s.server.loop_) = [] →
        s.inputBuffer_.readable = [] ∧ s.printed = s.received ∧
          (s.server.conn.faulted = false →
            s.server.conn.stream = answers reply s.received)) := by
  have ha := Answers.run h
  have houtbound := ha.answering.tracked.outbound
  refine ⟨ha.received, ?_, ?_⟩
  · intro hf
    rw [← ha.bytes_called]
    have hwritten : s.server.conn.written <+: bytes s.server.executed := by
      rw [← houtbound.exact hf]
      exact List.prefix_append _ _
    exact hwritten.trans (List.IsPrefix.flatMap ha.answering.late _)
  · intro hdestroys hstack
    have hentered : s.entered = false := by
      apply Bool.eq_false_iff.2
      intro he
      have huser := of_decide_eq_true (ha.inside he)
      rw [hstack] at huser
      cases huser
    have hreceived := ha.received
    rw [hentered, if_neg Bool.false_ne_true, List.append_nil] at hreceived
    refine ⟨ha.empty hentered, hreceived.symm, ?_⟩
    intro hf
    have hcalled := ha.answering.order hdestroys
    rw [hstack] at hcalled
    rw [hreceived, ← ha.bytes_called, hcalled, houtbound.exact hf]
    exact (congrArg bytes (List.append_nil _)).symm

end

def answering (bytes : List UInt8) (w : WriteResult) : List Action :=
  [.server (.poll .io (some POLLIN)), .server (.loop .io), .server (.go (.loop .io) {}),
    .handleRead (.data bytes) true, .onMessage, .server (.go (.loop .io) {}),
    .server (.go (.loop .io) {}), .server (.go (.loop .io) { write := w })]

/-- Two messages come in. The kernel takes three bytes of the first answer. -/
def answeringTwo : List Action := connecting.map .server ++ [.server (.loop .io)] ++
  answering [1, 2] (.accepted 3) ++
  [.server (.leave .io), .server (.loop .io), .server (.loop .io), .server (.loop .io)] ++
  answering [3] (.accepted 0) ++ [.server (.leave .io)]

theorem answers_in_order_example : ∃ s, Run (TestServer.step hello)
    (init ioConfig) answeringTwo s ∧ s.received = [[1, 2], [3]] ∧
      s.server.conn.written = [104, 101, 108] ∧
      s.server.conn.stream = [104, 101, 108, 108, 111, 104, 101, 108, 108, 111] := by
  have hrun : (exec (TestServer.step hello) (init ioConfig) answeringTwo).any (fun s =>
      s.received == [[1, 2], [3]] && s.server.conn.written == [104, 101, 108] &&
        s.server.destroys == 0 && s.server.stack (.loop s.server.loop_) == [] &&
          !s.server.conn.faulted) = true := by
    decide +kernel
  obtain ⟨s, hs, hp⟩ := Run.of_exec_any hrun
  simp only [Bool.and_eq_true, Bool.not_eq_true', beq_iff_eq] at hp
  obtain ⟨⟨⟨⟨hreceived, hwritten⟩, hdestroys⟩, hstack⟩, hfaulted⟩ := hp
  have hstream := ((answers_in_order hs).2.2 hdestroys hstack).2.2 hfaulted
  rw [hreceived] at hstream
  exact ⟨s, hs, hreceived, hwritten, hstream⟩

end TestServer
end MuduoStudy
