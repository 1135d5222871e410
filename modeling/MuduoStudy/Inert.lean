import MuduoStudy.WriteInterest

namespace MuduoStudy
open Transition
set_option autoImplicit true

namespace TcpConnection

def issuesWrite (c : TcpConnection) : Bool := c.state_ ≠ .kDisconnected && c.idle

theorem Buffers.buffer_iff (hwf : c.outputBuffer_.Wf) (hlen : rest.length < 2 ^ 63)
    (h : Buffers c rest c') : c'.outputBuffer_ = c.outputBuffer_ ↔ rest = [] := by
  have hgrown {b : Buff} (hne : rest ≠ []) (hb : c.outputBuffer_.append rest = some b) :
      b ≠ c.outputBuffer_ := by
    intro he
    have hread := (hwf.append hlen hb).2
    rw [he, List.self_eq_append_right] at hread
    exact hne hread
  cases h with
  | nothing => exact iff_of_true rfl rfl
  | writing hne hb => exact iff_of_false (hgrown hne hb) hne
  | enable hne hb => exact iff_of_false (hgrown hne hb) hne

theorem Sends.quiet_iff (hwf : c.outputBuffer_.Wf) (hlen : message.length < 2 ^ 63)
    (hw : c.channel_.isWriting = false) (h : Sends c message w c') :
    (c.idle = false ∧ c'.outputBuffer_ = c.outputBuffer_) ↔
      message = [] ∧ c.outputBuffer_.readableBytes ≠ 0 := by
  have hidle : c.idle = false ↔ c.outputBuffer_.readableBytes ≠ 0 := by
    simp [idle, hw]
  cases h with
  | written hi | fault hi =>
    have hempty : ¬ c.outputBuffer_.readableBytes ≠ 0 := by
      rw [← hidle, hi]
      exact Bool.false_ne_true.symm
    exact iff_of_false (fun hq => hempty (hidle.1 hq.1)) fun hq => hempty hq.2
  | buffered _ hb => rw [hidle, hb.buffer_iff hwf hlen, and_comm]

theorem Sends.quiet (hne : c.outputBuffer_.readableBytes ≠ 0) (h : Sends c [] w c') : c' = c := by
  have hnot (hi : c.idle = true) : False := by
    simp [idle, hne] at hi
  cases h with
  | written hi | fault hi => exact (hnot hi).elim
  | buffered _ hb =>
    cases hb with
    | nothing => rfl
    | writing hne | enable hne => exact (hne rfl).elim

theorem Writes.quiet (hw : c.channel_.isWriting = false) (h : Writes c w c' done) : c' = c := by
  cases h with
  | nothing => rfl
  | part ht | drained ht => exact (Bool.false_ne_true (hw.symm.trans ht)).elim

end TcpConnection

namespace Server

/-- The message that the step calls `sendInLoop` with, if it does. -/
def sendsInLoop (s : Server) : Action → List Sent
  | .go t _ =>
    match s.stack t with
    | [] => []
    | f :: _ => f.message
  | _ => []

def messageCallback (s : Server) : Action → Bool
  | .go t k => (s.stack t).head? = some .handleRead && k.read = .data
  | _ => false

/-- The step sends nothing, hands no data to the user and does not wait for the socket again. -/
structure Idles (s : Server) (a : Action) (s' : Server) : Prop where
  write : ∀ m ∈ s.sendsInLoop a, s.conn.issuesWrite = false
  buffer : ∀ m ∈ s.sendsInLoop a, s'.conn.outputBuffer_ = s.conn.outputBuffer_
  message : s.messageCallback a = false
  writing : s'.conn.channel_.isWriting = true → s.conn.channel_.isWriting = true

def Inert (s : Server) (a : Action) : Prop :=
  0 < s.closes → ∀ s', s.step a = some s' → Idles s a s'

/-- The frame calls neither `sendInLoop`, but in `kDisconnected` or with an empty message behind a
backlog, nor `handleRead` with data to read. -/
def Frame.silent (c : TcpConnection) (k : Answer) : Frame → Bool
  | .exec (.sendInLoop m) => c.state_ = .kDisconnected ||
    m.message.bytes = [] && c.outputBuffer_.readableBytes ≠ 0
  | .handleRead => k.read ≠ .data
  | _ => true

def silent (s : Server) : Action → Bool
  | .go t k =>
    match s.stack t with
    | [] => true
    | f :: _ => f.silent s.conn k
  | _ => true

def Silent (s : Server) (a : Action) : Prop := 0 < s.closes → s.silent a = true

instance (s : Server) (a : Action) : Decidable (s.Silent a) := inferInstanceAs (Decidable (_ → _))

theorem silent_go {s : Server} (hs : s.stack t = f :: rest) :
    s.silent (.go t k) = f.silent s.conn k := by
  rw [silent, hs]

theorem silent_sendInLoop {c : TcpConnection} {m : Sent} :
    (Frame.exec (.sendInLoop m)).silent c k = true ↔ c.state_ = .kDisconnected ∨
      m.message.bytes = [] ∧ c.outputBuffer_.readableBytes ≠ 0 := by
  simp [Frame.silent]

theorem Runs.notWriting (hw : c.channel_.isWriting = false) (hs : f.silent c k = true)
    (h : Runs c k f c') : c'.channel_.isWriting = false := by
  cases h with
  | connectEstablished => exact (TcpConnection.isWriting_enableReading _).trans hw
  | sendInLoop hd hsends =>
    rcases silent_sendInLoop.1 hs with hc | ⟨hnil, hne⟩
    · exact (hd hc).elim
    · rw [hnil] at hsends
      rw [hsends.quiet hne]
      exact hw
  | shutdownInLoop | ifDisconnecting =>
    rw [c.shutdownInLoop_same.2.1]
    exact hw
  | startReadInLoop => exact (TcpConnection.isWriting_startReadInLoop c).trans hw
  | stopReadInLoop => exact (TcpConnection.isWriting_stopReadInLoop c).trans hw
  | handleWrite hwrites =>
    rw [hwrites.quiet hw]
    exact hw
  | handleClose | setDisconnected => exact TcpConnection.isWriting_disableAll _
  | remove | setDisconnecting => exact hw

theorem Goes.closes {s s' : Server} (h : Goes s t rest k f s') :
    s'.closes = s.closes ∨ s'.conn = s.conn.disableAll := by
  cases h with
  | handleClose => exact .inr rfl
  | exec hc => cases hc <;> exact .inl rfl
  | _ => exact .inl rfl

theorem closes_step {s s' : Server} (h : s.step a = some s') :
    s'.closes = s.closes ∨ s'.conn = s.conn.disableAll := by
  cases Step.of_step h with
  | go _ hg => exact hg.closes
  | destroy => exact .inl (destroy_cases s (fun _ _ => rfl) (fun _ _ => rfl) fun _ => rfl)
  | _ => exact .inl rfl

theorem Frame.message_eq {f : Frame} (h : m ∈ f.message) : f = .exec (.sendInLoop m) := by
  cases f with
  | exec g =>
    cases g with
    | sendInLoop n => rw [List.mem_singleton.1 h]
    | _ => cases h
  | _ => cases h

theorem sendsInLoop_cases {s s' : Server} (ha : m ∈ s.sendsInLoop a) (h : s.step a = some s') :
    s.conn.state_ = .kDisconnected ∧ s'.conn = s.conn ∨
      s.conn.state_ ≠ .kDisconnected ∧ ∃ w, s.conn.Sends m.message.bytes w s'.conn := by
  cases Step.of_step h with
  | @go t f rest k _ hs hg =>
    rw [sendsInLoop, hs] at ha
    cases Frame.message_eq ha
    cases hg with
    | exec hc =>
      cases hc with
      | sendInLoop hd hc => exact .inr ⟨hd, _, .of_sendInLoop hd hc⟩
      | sendLate hd => exact .inl ⟨hd, rfl⟩
  | _ => cases ha

/-- As long as the connection is silent, its channel does not wait for the socket once
`handleClose` has begun. -/
structure Hushed (s : Server) : Prop where
  outbound : Outbound s.conn s.executed
  writing : 0 < s.closes → s.conn.channel_.isWriting = false

theorem Hushed.init (config : Config) : Hushed (Server.init config) :=
  ⟨Outbound.init config, nofun⟩

theorem Hushed.notWriting {s s' : Server} (hi : Hushed s) (hc : Silent s a)
    (hpos : 0 < s.closes) (h : s.step a = some s') : s'.conn.channel_.isWriting = false := by
  have hw := hi.writing hpos
  cases ConnStep.of_step h with
  | same hconn => rwa [hconn]
  | runs hs hr => exact hr.notWriting hw ((silent_go hs).symm.trans (hc hpos))

theorem Hushed.step {s s' : Server} (hi : Hushed s) (hc : Silent s a) (h : s.step a = some s') :
    Hushed s' := by
  refine ⟨hi.outbound.step h, ?_⟩
  intro hpos
  rcases closes_step h with hsame | hclose
  · exact hi.notWriting hc (hsame ▸ hpos) h
  · rw [hclose]
    exact TcpConnection.isWriting_disableAll _

theorem Hushed.silent {s s' : Server} (hi : Hushed s) (hpos : 0 < s.closes)
    (h : s.step a = some s') (hidles : Idles s a s') : s.silent a = true := by
  cases a with
  | go t k =>
    cases hs : s.stack t with
    | nil => rw [Server.silent, hs]
    | cons f rest =>
      rw [silent_go hs]
      cases f with
      | exec g =>
        cases g with
        | sendInLoop m =>
          have hm : m ∈ s.sendsInLoop (.go t k) := by
            rw [sendsInLoop, hs]
            exact List.mem_singleton.2 rfl
          apply silent_sendInLoop.2
          rcases sendsInLoop_cases hm h with ⟨hd, _⟩ | ⟨hd, w, hsends⟩
          · exact .inl hd
          · have hidle : s.conn.idle = false := by
              simpa [TcpConnection.issuesWrite, hd] using hidles.write m hm
            have hquiet := hsends.quiet_iff hi.outbound.wf m.message.bound (hi.writing hpos)
            exact .inr (hquiet.1 ⟨hidle, hidles.buffer m hm⟩)
        | _ => rfl
      | handleRead => simpa [messageCallback, hs, Frame.silent] using hidles.message
      | _ => rfl
  | _ => rfl

theorem Hushed.idles {s s' : Server} (hi : Hushed s) (hpos : 0 < s.closes) (hc : Silent s a)
    (h : s.step a = some s') : Idles s a s' := by
  have hsilent := hc hpos
  have hsend (m : Sent) (hm : m ∈ s.sendsInLoop a) :
      s.conn.issuesWrite = false ∧ s'.conn.outputBuffer_ = s.conn.outputBuffer_ := by
    rcases sendsInLoop_cases hm h with ⟨hd, hsame⟩ | ⟨hd, w, hsends⟩
    · exact ⟨by simp [TcpConnection.issuesWrite, hd], hsame ▸ rfl⟩
    · have hempty : m.message.bytes = [] ∧ s.conn.outputBuffer_.readableBytes ≠ 0 := by
        cases a with
        | go t k =>
          cases hs : s.stack t with
          | nil =>
            rw [sendsInLoop, hs] at hm
            cases hm
          | cons f rest =>
            rw [sendsInLoop, hs] at hm
            cases Frame.message_eq hm
            rw [silent_go hs] at hsilent
            exact (silent_sendInLoop.1 hsilent).resolve_left hd
        | _ => cases hm
      have hquiet := hsends.quiet_iff hi.outbound.wf m.message.bound (hi.writing hpos)
      obtain ⟨hidle, hbuffer⟩ := hquiet.2 hempty
      exact ⟨by simp [TcpConnection.issuesWrite, hidle], hbuffer⟩
  refine ⟨fun m hm => (hsend m hm).1, fun m hm => (hsend m hm).2, ?_, ?_⟩
  · cases a with
    | go t k =>
      cases hs : s.stack t with
      | nil => simp [messageCallback, hs]
      | cons f rest =>
        rw [silent_go hs] at hsilent
        cases f with
        | handleRead => simpa [messageCallback, hs, Frame.silent] using hsilent
        | _ => simp [messageCallback, hs]
    | _ => rfl
  · intro ht
    exact (Bool.false_ne_true ((hi.notWriting hc hpos h).symm.trans ht)).elim

theorem Hushed.inert_iff {s s' : Server} (hi : Hushed s) (h : s.step a = some s') :
    Inert s a ↔ Silent s a := by
  constructor
  · intro hinert hpos
    exact hi.silent hpos h (hinert hpos s' h)
  · intro hc hpos t ht
    exact hi.idles hpos hc ht

/-- A closed connection is inert exactly in the runs in which, after `handleClose` has begun,
`sendInLoop` runs in `kDisconnected` only, or with an empty message behind a backlog, and
`handleRead` finds no data. -/
theorem inert_iff_silent {s : Server} (h : Run Server.step (Server.init config) as s) :
    AllSteps Server.step Inert (Server.init config) as ↔
      AllSteps Server.step Silent (Server.init config) as :=
  h.allSteps_iff (Hushed.init config) (fun _ _ _ => Hushed.step) fun _ _ _ => Hushed.inert_iff

theorem inert_example : AllSteps Server.step Inert (Server.init ioConfig)
    (connecting ++ shuttingDown ++ peerCloses ++ [.go (.loop .io) {}]) := by
  have hrun : (exec Server.step (Server.init ioConfig) (connecting ++ shuttingDown ++
      peerCloses ++ [.go (.loop .io) {}])).any (fun s => s.closes == 1) = true := by
    decide +kernel
  obtain ⟨s, hs, _⟩ := Run.of_exec_any hrun
  exact (inert_iff_silent hs).2 (by decide +kernel)

/-- The connection callback that `handleClose` makes can still send. -/
theorem sends_after_close : ¬ ∀ config as s, Run Server.step (Server.init config) as s →
    AllSteps Server.step Inert (Server.init config) as := by
  intro h
  have hrun : (exec Server.step (Server.init ioConfig) (connecting ++
      [.loop .io, .poll .io (some POLLIN), .loop .io, .go (.loop .io) {},
        .go (.loop .io) { read := .eof }, .go (.loop .io) {}, .go (.loop .io) {},
        .call (.loop .io) (.send (block 3 1)), .go (.loop .io) {}, .go (.loop .io) {},
        .go (.loop .io) { write := .accepted 3 }])).any
        (fun s => s.closes == 1 && s.conn.written == [1, 1, 1]) = true := by
    decide +kernel
  obtain ⟨s, hs, _⟩ := Run.of_exec_any hrun
  have hsilent := (hs.allSteps_iff (Hushed.init ioConfig) (fun _ _ _ => Hushed.step)
    fun _ _ _ => Hushed.inert_iff).1 (h _ _ _ hs)
  revert hsilent
  decide +kernel

end Server
end MuduoStudy
