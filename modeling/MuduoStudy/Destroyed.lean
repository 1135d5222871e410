import MuduoStudy.Closing

namespace MuduoStudy
open Transition Server
set_option autoImplicit true

namespace TcpConnection

def sendWaits (c : TcpConnection) (message : List UInt8) (w : WriteResult) : Bool :=
  c.state_ ≠ .kDisconnected && !c.channel_.isWriting &&
    if c.outputBuffer_.readableBytes = 0 then
      match w with
      | .accepted n => n < message.length
      | .error e => !(e = .EPIPE ∨ e = .ECONNRESET) && 0 < message.length
    else 0 < message.length

def writeDrains (c : TcpConnection) : WriteResult → Bool
  | .accepted n => c.channel_.isWriting && 0 < n && (c.outputBuffer_.retrieve n).readableBytes = 0
  | .error _ => false

theorem setEvents_index (c : TcpConnection) (events : Events) :
    (c.setEvents events).channel_.index_ ≠ .kNew := Eepoller.updateChannel_index _ _

theorem Buffers.index_iff (hnew : c.channel_.index_ = .kNew) (h : Buffers c rest c') :
    c'.channel_.index_ = .kNew ↔ ¬ (c.channel_.isWriting = false ∧ 0 < rest.length) := by
  cases h with
  | nothing => simp [hnew]
  | writing _ _ hw => simp [hnew, hw]
  | @enable _ b hrest _ hw =>
    have hindex := setEvents_index { c with outputBuffer_ := b }
      (c.channel_.events_ ||| Channel.kWriteEvent)
    have hpos := List.length_pos_iff.2 hrest
    exact iff_of_false hindex fun hn => hn ⟨hw, hpos⟩

theorem sendWaits_of_state {c : TcpConnection} (h : c.state_ ≠ .kDisconnected)
    (message : List UInt8) (w : WriteResult) : c.sendWaits message w =
      (!c.channel_.isWriting && if c.outputBuffer_.readableBytes = 0 then
        match w with
        | .accepted n => decide (n < message.length)
        | .error e => !(e = .EPIPE ∨ e = .ECONNRESET) && 0 < message.length
      else decide (0 < message.length)) := by
  simp only [sendWaits, ne_eq, h, not_false_eq_true, decide_true, Bool.true_and]

theorem Sends.index_iff (hnew : c.channel_.index_ = .kNew) (hstate : c.state_ ≠ .kDisconnected)
    (h : Sends c message w c') : c'.channel_.index_ = .kNew ↔ c.sendWaits message w = false := by
  rw [sendWaits_of_state hstate]
  cases h with
  | @written n _ hi hn hb =>
    have hnew' : (c.accept (message.take n)).channel_.index_ = .kNew := hnew
    have hwriting : (c.accept (message.take n)).channel_.isWriting = c.channel_.isWriting := rfl
    simp only [idle, Bool.and_eq_true, Bool.not_eq_true', beq_iff_eq] at hi
    rw [hb.index_iff hnew', hwriting, hi.1, hi.2, List.length_drop, Nat.sub_pos_iff_lt]
    simp
  | @fault e hi he =>
    simp only [idle, Bool.and_eq_true, Bool.not_eq_true', beq_iff_eq] at hi
    rw [hi.1, hi.2]
    simp [hnew, he]
  | buffered hw hb =>
    rw [hb.index_iff hnew]
    cases hwriting : c.channel_.isWriting with
    | true => simp
    | false =>
      by_cases hr : c.outputBuffer_.readableBytes = 0
      · have hi : c.idle = true := by simp [idle, hwriting, hr]
        obtain ⟨e, rfl, he⟩ := hw hi
        simp [hr, he]
      · simp [hr]

theorem handleWrite_done {c c' : TcpConnection} (h : c.handleWrite w = some (c', done)) :
    c.writeDrains w = done := by
  unfold handleWrite at h
  cases hw : c.channel_.isWriting with
  | false =>
    simp only [hw, Bool.false_eq_true, ↓reduceIte, Option.some.injEq, Prod.mk.injEq] at h
    cases w <;> simp [writeDrains, hw, h.2.symm]
  | true =>
    rw [if_pos hw] at h
    cases w with
    | error e =>
      cases h
      rfl
    | accepted n =>
      simp only [Option.ite_none_right_eq_some] at h
      obtain ⟨hn, h⟩ := h
      simp only [writeDrains, hw, Bool.true_and]
      by_cases hz : 0 < n
      · rw [if_pos hz] at h
        by_cases hr : (c.outputBuffer_.retrieve n).readableBytes = 0
        · cases (if_pos hr).symm.trans h
          simp [hz, hr]
        · cases (if_neg hr).symm.trans h
          simp [hz, hr]
      · rw [if_neg hz] at h
        cases h
        simp [hz]

theorem Writes.index_iff (hnew : c.channel_.index_ = .kNew) (h : Writes c w c' done) :
    c'.channel_.index_ = .kNew ↔ done = false := by
  cases h with
  | nothing | part => exact iff_of_true hnew rfl
  | drained => exact iff_of_false (setEvents_index _ _) nofun

theorem startReadInLoop_index_iff {c : TcpConnection} (hnew : c.channel_.index_ = .kNew) :
    c.startReadInLoop.channel_.index_ = .kNew ↔ (!c.reading_ || !c.channel_.isReading) = false := by
  cases h : !c.reading_ || !c.channel_.isReading with
  | false =>
    rw [startReadInLoop, h]
    exact iff_of_true hnew rfl
  | true =>
    rw [startReadInLoop, h]
    exact iff_of_false (setEvents_index _ _) Bool.false_ne_true.symm

theorem stopReadInLoop_index_iff {c : TcpConnection} (hnew : c.channel_.index_ = .kNew) :
    c.stopReadInLoop.channel_.index_ = .kNew ↔ (c.reading_ || c.channel_.isReading) = false := by
  cases h : c.reading_ || c.channel_.isReading with
  | false =>
    rw [stopReadInLoop, h]
    exact iff_of_true hnew rfl
  | true =>
    rw [stopReadInLoop, h]
    exact iff_of_false (setEvents_index _ _) Bool.false_ne_true.symm

end TcpConnection

namespace Server

/-- The next statement of the frame calls `Channel::update`. -/
def Frame.updates (c : TcpConnection) (k : Answer) : Frame → Bool
  | .exec .connectEstablished | .handleClose | .setDisconnected => true
  | .exec (.sendInLoop m) => c.sendWaits m.message.bytes k.write
  | .exec .startReadInLoop => !c.reading_ || !c.channel_.isReading
  | .exec .stopReadInLoop => c.reading_ || c.channel_.isReading
  | .handleWrite => c.writeDrains k.write
  | _ => false

def updates (s : Server) : Action → Bool
  | .go t k =>
    match s.stack t with
    | [] => false
    | f :: _ => f.updates s.conn k
  | _ => false

theorem Goes.index_iff {s s' : Server} (hnew : s.conn.channel_.index_ = .kNew)
    (h : Goes s t rest k f s') :
    s'.conn.channel_.index_ = .kNew ↔ f.updates s.conn k = false := by
  have hupdate {c : TcpConnection} (events : Events) :
      (c.setEvents events).channel_.index_ = .kNew ↔ true = false :=
    iff_of_false (TcpConnection.setEvents_index c events) nofun
  have hshutdown : s.conn.shutdownInLoop.channel_.index_ = .kNew := by
    rw [s.conn.shutdownInLoop_same.2.1]
    exact hnew
  cases h with
  | handleWrite hc =>
    have hdone : Frame.handleWrite.updates s.conn k = false := TcpConnection.handleWrite_done hc
    exact iff_of_true (((TcpConnection.Writes.of_handleWrite hc).index_iff hnew).2 rfl) hdone
  | drained hc =>
    have hdone : Frame.handleWrite.updates s.conn k = true := TcpConnection.handleWrite_done hc
    rw [hdone]
    exact (TcpConnection.Writes.of_handleWrite hc).index_iff hnew
  | ifDisconnecting => exact iff_of_true hshutdown rfl
  | handleClose => exact hupdate _
  | setDisconnected => exact hupdate _
  | remove => exact iff_of_true rfl rfl
  | handleEvent | readData | readEof | readError | ifNotDisconnecting | connectionCallback
  | closeInLoop | closeQueued | send | sendDropped | shutdown | shutdownDropped | setDisconnecting
  | forceClose | forceCloseDropped | runInLoop | runQueued | queueForceClose | queueNotice =>
    exact iff_of_true hnew rfl
  | exec hc =>
    cases hc with
    | connectEstablished => exact hupdate _
    | sendInLoop hd hc => exact (TcpConnection.Sends.of_sendInLoop hd hc).index_iff hnew hd
    | @sendLate m hd =>
      have hwaits : (Frame.exec (.sendInLoop m)).updates s.conn k = false := by
        change s.conn.sendWaits m.message.bytes k.write = false
        simp [TcpConnection.sendWaits, hd]
      exact iff_of_true hnew hwaits
    | shutdownInLoop => exact iff_of_true hshutdown rfl
    | startReadInLoop => exact TcpConnection.startReadInLoop_index_iff hnew
    | stopReadInLoop => exact TcpConnection.stopReadInLoop_index_iff hnew
    | forceCloseInLoop | forceCloseLate | destroyConnected | destroyLate | removeConnectionInLoop
    | notice | other => exact iff_of_true hnew rfl

theorem Goes.destroyed {s s' : Server} (h : Goes s t rest k f s') :
    s'.destroyed = s.destroyed ∨ s'.conn.channel_.index_ = .kNew ∧ f = .remove := by
  cases h with
  | remove => exact .inr ⟨rfl, rfl⟩
  | exec hc => cases hc <;> exact .inl rfl
  | _ => exact .inl rfl

/-- Once `connectDestroyed` has finished, the poller does not know the channel and the kernel does
not watch its descriptor. -/
def Removed (s : Server) : Prop := 0 < s.destroyed →
  s.conn.poller_.hasChannel s.conn.channel_ = false ∧
    s.conn.poller_.interest s.conn.channel_.fd_ = none

/-- Once `connectDestroyed` has finished, nothing calls `Channel::update` any more. -/
def Detached (s : Server) (a : Action) : Prop := 0 < s.destroyed → s.updates a = false

instance (s : Server) (a : Action) : Decidable (s.Detached a) :=
  inferInstanceAs (Decidable (_ → _))

theorem removed_iff {s : Server} (hm : Mirrored s) :
    Removed s ↔ (0 < s.destroyed → s.conn.channel_.index_ = .kNew) := by
  have hhas := hm.hasChannel
  constructor
  · intro h hpos
    by_contra hne
    rw [(h hpos).1] at hhas
    exact Bool.false_ne_true (hhas.2 hne)
  · intro h hpos
    have hnew := h hpos
    exact ⟨Bool.eq_false_iff.2 fun ht => hhas.1 ht hnew, hm.interest_eq_none.2 (hnew ▸ nofun)⟩

theorem Removed.step_iff {s s' : Server} (hm : Mirrored s) (hr : Removed s)
    (h : s.step a = some s') : Removed s' ↔ Detached s a := by
  rw [removed_iff (hm.step h)]
  rw [removed_iff hm] at hr
  have hsame (hconn : s'.conn = s.conn) (hdestroyed : s'.destroyed = s.destroyed)
      (ha : s.updates a = false) :
      (0 < s'.destroyed → s'.conn.channel_.index_ = .kNew) ↔ Detached s a := by
    rw [hconn, hdestroyed]
    exact iff_of_true hr fun _ => ha
  cases Step.of_step h with
  | @go t f rest k _ hs hg =>
    have hupdates : s.updates (.go t k) = f.updates s.conn k := by
      rw [updates, hs]
    rcases hg.destroyed with hd | ⟨hnew, rfl⟩
    · rw [hd, Detached, hupdates]
      exact imp_congr_right fun hpos => hg.index_iff (hr hpos)
    · exact iff_of_true (fun _ => hnew) fun _ => hupdates
  | activeChannel | handled | swap | endFunctors | callFunctor | poll | enter | leave | call | post
  | newConnection => exact hsame rfl rfl rfl
  | destroy =>
    have hdestroyed : s.destroy.destroyed = s.destroyed :=
      destroy_cases s (fun _ _ => rfl) (fun _ _ => rfl) fun _ => rfl
    exact hsame s.destroy_conn.1 hdestroyed rfl

/-- A user's thread calls an operation that it leaves to the loop, which then executes it. -/
def handingOver (api : Api) : List Action :=
  [.call (.user 0) api, .go (.user 0) {}] ++
    [.loop .io, .poll .io none, .loop .io, .loop .io, .loop .io, .go (.loop .io) {}]

/-- The channel of a destroyed connection stays out of the poller exactly in the runs in which
nothing calls `Channel::update` after `connectDestroyed`. -/
theorem removed_iff_detached {s : Server} (h : Run Server.step (Server.init config) as s) :
    AllStates Server.step Removed (Server.init config) as ↔
      AllSteps Server.step Detached (Server.init config) as :=
  h.allStates_iff (I := Mirrored) (Mirrored.init config) nofun
    (fun _ _ _ => Mirrored.step) fun _ _ _ => Removed.step_iff

theorem removed_example : AllStates Server.step Removed (Server.init ioConfig)
    (connecting ++ shuttingDown ++ peerCloses ++ [.go (.loop .io) {}] ++
      handingOver .stopRead) := by
  have hrun : (exec Server.step (Server.init ioConfig) (connecting ++ shuttingDown ++
      peerCloses ++ [.go (.loop .io) {}] ++ handingOver .stopRead)).any (fun s =>
        s.destroyed == 1) = true := by
    decide +kernel
  obtain ⟨s, hs, _⟩ := Run.of_exec_any hrun
  exact (removed_iff_detached hs).2 (by decide +kernel)

/-- `startRead` registers the channel of a destroyed connection anew. -/
theorem removed_registers_anew : ¬ ∀ config as s, Run Server.step (Server.init config) as s →
    Removed s := by
  intro h
  have hrun : (exec Server.step (Server.init ioConfig) (connecting ++ shuttingDown ++
      peerCloses ++ [.go (.loop .io) {}] ++ handingOver .startRead)).any (fun s =>
        s.destroyed == 1 && s.conn.poller_.hasChannel s.conn.channel_) = true := by
    decide +kernel
  obtain ⟨s, hs, hp⟩ := Run.of_exec_any hrun
  simp only [Bool.and_eq_true, beq_iff_eq] at hp
  have hnot := (h _ _ _ hs (by omega)).1
  exact Bool.false_ne_true (hnot.symm.trans hp.2)

end Server
end MuduoStudy
