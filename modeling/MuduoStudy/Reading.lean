import MuduoStudy.Closing

namespace MuduoStudy
open Transition
set_option autoImplicit true

namespace TcpConnection

theorem isReading_setEvents (c : TcpConnection) (events : Events) :
    (c.setEvents events).channel_.isReading = decide (events &&& Channel.kReadEvent ≠ 0) := by
  simp [Channel.isReading, setEvents]

theorem isReading_enableReading (c : TcpConnection) :
    c.enableReading.channel_.isReading = true := by
  rw [enableReading, isReading_setEvents, Channel.add_and_self]
  decide

theorem isReading_disableReading (c : TcpConnection) :
    c.disableReading.channel_.isReading = false := by
  rw [disableReading, isReading_setEvents, Channel.drop_and_self]
  rfl

theorem isReading_enableWriting (c : TcpConnection) :
    c.enableWriting.channel_.isReading = c.channel_.isReading := by
  rw [enableWriting, isReading_setEvents, Channel.add_and_other (by decide)]
  rfl

theorem isReading_disableWriting (c : TcpConnection) :
    c.disableWriting.channel_.isReading = c.channel_.isReading := by
  rw [disableWriting, isReading_setEvents, Channel.drop_and_other (by decide)]
  rfl

theorem isReading_of_none {c : Channel} (h : c.events_ = Channel.kNoneEvent) :
    c.isReading = false := by
  rw [Channel.isReading, h]
  decide

theorem isReading_disableAll (c : TcpConnection) : c.disableAll.channel_.isReading = false := by
  rw [disableAll, isReading_setEvents]
  decide

theorem startReadInLoop_reads (c : TcpConnection) :
    c.startReadInLoop.reading_ = true ∧ c.startReadInLoop.channel_.isReading = true := by
  rw [startReadInLoop]
  cases h : !c.reading_ || !c.channel_.isReading with
  | true => exact ⟨rfl, isReading_enableReading c⟩
  | false =>
    simp only [Bool.or_eq_false_iff, Bool.not_eq_false'] at h
    exact h

theorem stopReadInLoop_reads (c : TcpConnection) :
    c.stopReadInLoop.reading_ = false ∧ c.stopReadInLoop.channel_.isReading = false := by
  rw [stopReadInLoop]
  cases h : c.reading_ || c.channel_.isReading with
  | true => exact ⟨rfl, isReading_disableReading c⟩
  | false => exact Bool.or_eq_false_iff.1 h

/-- What a step that has nothing to do with reading leaves alone. -/
structure SameReading (c c' : TcpConnection) : Prop where
  reading : c'.reading_ = c.reading_
  isReading : c'.channel_.isReading = c.channel_.isReading

theorem SameReading.refl (c : TcpConnection) : SameReading c c := ⟨rfl, rfl⟩

theorem Buffers.sameReading (h : Buffers c rest c') : SameReading c c' := by
  cases h with
  | nothing | writing => exact ⟨rfl, rfl⟩
  | enable => exact ⟨rfl, isReading_enableWriting _⟩

theorem Sends.sameReading (h : Sends c message w c') : SameReading c c' := by
  cases h with
  | written _ _ hb => exact ⟨hb.sameReading.reading, hb.sameReading.isReading⟩
  | fault => exact ⟨rfl, rfl⟩
  | buffered _ hb => exact hb.sameReading

theorem Writes.sameReading (h : Writes c w c' done) : SameReading c c' := by
  cases h with
  | nothing | part => exact ⟨rfl, rfl⟩
  | drained => exact ⟨rfl, isReading_disableWriting _⟩

theorem SameReading.shutdownInLoop (c : TcpConnection) : SameReading c c.shutdownInLoop := by
  obtain h | ⟨_, h⟩ := c.shutdownInLoop_cases
  · rw [h]
    exact .refl c
  · rw [h]
    exact ⟨rfl, rfl⟩

end TcpConnection

/-- The calls that set `reading_` or the channel's interest in reading. -/
inductive ReadCall where
  | connectEstablished
  | startReadInLoop
  | stopReadInLoop
  -- by `handleClose` and `connectDestroyed`
  | disableAll
  deriving DecidableEq, Repr

namespace ReadCall

/-- Of `startReadInLoop` and `stopReadInLoop`, `startReadInLoop` was called last. Calls are listed
newest first. -/
def asked : List ReadCall → Bool
  | [] | .stopReadInLoop :: _ => false
  | .startReadInLoop :: _ => true
  | .connectEstablished :: before | .disableAll :: before => asked before

/-- The last call that set the interest has set it to reading. -/
def interest : List ReadCall → Bool
  | .connectEstablished :: _ | .startReadInLoop :: _ => true
  | [] | .stopReadInLoop :: _ | .disableAll :: _ => false

/-- The last call also set `reading_`, or it turned the interest off when reading was not asked
for. -/
def InStep : List ReadCall → Prop
  | [] | .startReadInLoop :: _ | .stopReadInLoop :: _ => True
  | .connectEstablished :: _ => False
  | .disableAll :: before => asked before = false

instance InStep.decidable : (calls : List ReadCall) → Decidable (InStep calls)
  | [] | .startReadInLoop :: _ | .stopReadInLoop :: _ => isTrue trivial
  | .connectEstablished :: _ => isFalse id
  | .disableAll :: before => inferInstanceAs (Decidable (asked before = false))

theorem asked_eq_interest_iff
    (h : ∀ before, calls = .connectEstablished :: before → before = []) :
    asked calls = interest calls ↔ InStep calls := by
  cases calls with
  | nil => exact iff_of_true rfl trivial
  | cons r before =>
    cases r with
    | connectEstablished =>
      cases h before rfl
      exact iff_of_false nofun id
    | startReadInLoop | stopReadInLoop => exact iff_of_true rfl trivial
    | disableAll => exact Iff.rfl

end ReadCall

namespace Server
open TcpConnection

/-- The calls that the next statement of a frame makes. -/
def Frame.readCalls : Frame → List ReadCall
  | .exec .connectEstablished => [.connectEstablished]
  | .exec .startReadInLoop => [.startReadInLoop]
  | .exec .stopReadInLoop => [.stopReadInLoop]
  | .handleClose | .setDisconnected => [.disableAll]
  | _ => []

def readCalls (s : Server) : Action → List ReadCall
  | .go t _ =>
    match s.stack t with
    | [] => []
    | f :: _ => f.readCalls
  | _ => []

/-- What the calls do to `reading_` and to the channel's interest. -/
inductive Reads (c : TcpConnection) : List ReadCall → TcpConnection → Prop where
  | none : SameReading c c' → Reads c [] c'
  | connectEstablished : c'.reading_ = c.reading_ → c'.channel_.isReading = true →
      Reads c [.connectEstablished] c'
  | startReadInLoop : c'.reading_ = true → c'.channel_.isReading = true →
      Reads c [.startReadInLoop] c'
  | stopReadInLoop : c'.reading_ = false → c'.channel_.isReading = false →
      Reads c [.stopReadInLoop] c'
  | disableAll : c'.reading_ = c.reading_ → c'.channel_.isReading = false →
      Reads c [.disableAll] c'

theorem Reads.runs (h : Runs c k f c') : Reads c f.readCalls c' := by
  cases h with
  | connectEstablished => exact .connectEstablished rfl (isReading_enableReading _)
  | sendInLoop _ hs => exact .none hs.sameReading
  | shutdownInLoop | ifDisconnecting => exact .none (.shutdownInLoop c)
  | startReadInLoop => exact .startReadInLoop c.startReadInLoop_reads.1 c.startReadInLoop_reads.2
  | stopReadInLoop => exact .stopReadInLoop c.stopReadInLoop_reads.1 c.stopReadInLoop_reads.2
  | handleWrite hw => exact .none hw.sameReading
  | handleClose => exact .disableAll rfl (isReading_disableAll _)
  | setDisconnected => exact .disableAll rfl (isReading_disableAll _)
  | remove | setDisconnecting => exact .none ⟨rfl, rfl⟩

theorem Goes.runs {s s' : Server} (h : Goes s t rest k f s') (hf : f.readCalls ≠ []) :
    Runs s.conn k f s'.conn := by
  cases h with
  | handleClose => exact .handleClose
  | setDisconnected => exact .setDisconnected
  | exec hc =>
    cases hc with
    | connectEstablished => exact .connectEstablished
    | startReadInLoop => exact .startReadInLoop
    | stopReadInLoop => exact .stopReadInLoop
    | _ => exact (hf rfl).elim
  | _ => exact (hf rfl).elim

theorem Reads.goes {s s' : Server} (hs : s.stack t = f :: rest) (h : Goes s t rest k f s') :
    Reads s.conn f.readCalls s'.conn := by
  by_cases hf : f.readCalls = []
  · cases ConnStep.of_goes hs h with
    | same hconn =>
      rw [hf, hconn]
      exact .none (.refl _)
    | runs hs' hr =>
      cases hs.symm.trans hs'
      exact .runs hr
  · exact .runs (h.runs hf)

theorem readCalls_go {s : Server} (hs : s.stack t = f :: rest) (k : Answer) :
    s.readCalls (.go t k) = f.readCalls := by
  rw [readCalls, hs]

theorem Reads.step {s s' : Server} (h : s.step a = some s') :
    Reads s.conn (s.readCalls a) s'.conn := by
  cases Step.of_step h with
  | go hs hg =>
    rw [readCalls_go hs]
    exact .goes hs hg
  | activeChannel | handled | swap | endFunctors | callFunctor | poll | enter | leave | call | post
  | newConnection => exact .none (.refl _)
  | destroy =>
    rw [s.destroy_conn.1]
    exact .none (.refl _)

theorem Lived.readCalls {s s' : Server} (hl : Lived s) (h : s.step a = some s')
    (hr : r ∈ s.readCalls a) :
    0 < s'.established ∧ (r = .connectEstablished → s.established = 0) := by
  have hle : s.established ≤ s'.established :=
    (Moves.step hl.placed hl.begun h).established_le
  have hone : s'.established ≤ 1 := (hl.step h).sound.established_le
  cases Step.of_step h with
  | @go t f rest k _ hs hg =>
    rw [readCalls_go hs] at hr
    have hlater (hf : f.isEarly = false) (hne : r ≠ .connectEstablished) :
        0 < s'.established ∧ (r = .connectEstablished → s.established = 0) :=
      ⟨Nat.lt_of_lt_of_le (hl.established_pos hs hf) hle, fun he => (hne he).elim⟩
    cases f with
    | exec g =>
      cases g with
      | connectEstablished =>
        cases hg with
        | exec hc =>
          cases hc with
          | connectEstablished =>
            have hone : s.established + 1 ≤ 1 := hone
            exact ⟨Nat.succ_pos _, fun _ => by omega⟩
      | startReadInLoop | stopReadInLoop =>
        cases List.mem_singleton.1 hr
        exact hlater rfl nofun
      | _ => cases hr
    | handleClose | setDisconnected =>
      cases List.mem_singleton.1 hr
      exact hlater rfl nofun
    | _ => cases hr
  | _ => cases hr

/-- `reading_` and the channel are as the calls so far have left them. -/
structure Logged (s : Server) (calls : List ReadCall) : Prop where
  lived : Lived s
  reading : s.conn.reading_ = ReadCall.asked calls
  isReading : s.conn.channel_.isReading = ReadCall.interest calls
  first : s.established = 0 → calls = []
  begun : ∀ before, calls = .connectEstablished :: before → before = []

theorem Logged.init (config : Config) : Logged (Server.init config) [] :=
  ⟨Lived.init config, rfl, isReading_of_none rfl, fun _ => rfl, nofun⟩

theorem Logged.step {s s' : Server} (hl : Logged s calls) (h : s.step a = some s') :
    Logged s' (s.readCalls a ++ calls) := by
  have hmoves := Moves.step hl.lived.placed hl.lived.begun h
  have hle : s.established ≤ s'.established := hmoves.established_le
  have hcalled {r : ReadCall} (hr : r ∈ s.readCalls a) := hl.lived.readCalls h hr
  have hreads := Reads.step h
  generalize s.readCalls a = new at hcalled hreads
  have hfirst {r : ReadCall} (hr : r ∈ new) (hz : s'.established = 0) : new ++ calls = [] := by
    have hpos := (hcalled hr).1
    omega
  have hself {r : ReadCall} : r ∈ [r] := List.mem_singleton.2 rfl
  cases hreads with
  | none hsame =>
    exact ⟨hl.lived.step h, hsame.reading.trans hl.reading, hsame.isReading.trans hl.isReading,
      fun hz => hl.first (by omega), hl.begun⟩
  | connectEstablished hreading hinterest =>
    have hnil := hl.first ((hcalled hself).2 rfl)
    subst hnil
    refine ⟨hl.lived.step h, hreading.trans hl.reading, hinterest, hfirst hself, ?_⟩
    intro before hbefore
    cases hbefore
    rfl
  | startReadInLoop hreading hinterest | stopReadInLoop hreading hinterest =>
    exact ⟨hl.lived.step h, hreading, hinterest, hfirst hself, nofun⟩
  | disableAll hreading hinterest =>
    exact ⟨hl.lived.step h, hreading.trans hl.reading, hinterest, hfirst hself, nofun⟩

/-- The connection has been established, and its loop's thread is between two steps. -/
def Between (s : Server) : Prop := 0 < s.established ∧ s.stack (.loop s.loop_) = []

instance (s : Server) : Decidable s.Between := inferInstanceAs (Decidable (_ ∧ _))

/-- `TcpConnection::isReading()` tells whether the channel waits for something to read. -/
def Truthful (s : Server) : Prop := s.Between → s.conn.reading_ = s.conn.channel_.isReading

instance (s : Server) : Decidable s.Truthful := inferInstanceAs (Decidable (_ → _))

/-- Between two steps of the loop, the last call left the two in step. -/
def InStep (x : Server × List ReadCall) : Prop := x.1.Between → ReadCall.InStep x.2

instance (x : Server × List ReadCall) : Decidable (InStep x) :=
  inferInstanceAs (Decidable (_ → _))

/-- In a run, `isReading()` always tells the truth exactly when no two steps of the loop have
`connectEstablished` as the last call between them, or a `disableAll` behind a `startReadInLoop`
that no `stopReadInLoop` follows. -/
theorem truthful_iff {s : Server} (h : Run Server.step (Server.init config) as s) :
    AllStates Server.step Truthful (Server.init config) as ↔
      AllStates (recorded Server.step readCalls) InStep (Server.init config, []) as := by
  apply h.allStates_recorded (Logged.init config)
  · intro s log a t hl hstep
    exact hl.step hstep
  · intro s log hl
    rw [Truthful, InStep, hl.reading, hl.isReading, ReadCall.asked_eq_interest_iff hl.begun]

/-- The connection callback calls `startRead`. Later a user's thread calls `stopRead`, and another
one closes the connection. -/
def throttling : List Action :=
  connecting.dropLast ++
  [.call (.loop .io) .startRead, .go (.loop .io) {}, .go (.loop .io) {}, .leave .io,
    .call (.user 0) .stopRead, .go (.user 0) {}] ++
  iterate .io ++
  [.loop .io, .go (.loop .io) {}] ++ forcing 1 ++ iterate .io ++ forceClosing

theorem truthful_example : ∃ s, Run Server.step (Server.init ioConfig) throttling s ∧
    AllStates Server.step Truthful (Server.init ioConfig) throttling ∧ s.Between ∧
      s.closes = 1 := by
  have hrun : (exec Server.step (Server.init ioConfig) throttling).any
      (fun s => decide s.Between && s.closes == 1) = true := by
    decide +kernel
  obtain ⟨s, hs, hp⟩ := Run.of_exec_any hrun
  simp only [Bool.and_eq_true, decide_eq_true_eq, beq_iff_eq] at hp
  exact ⟨s, hs, (truthful_iff hs).2 (by decide +kernel), hp⟩

/-- A new connection reads, but says that it does not. -/
theorem not_truthful : ¬ ∀ config as s, Run Server.step (Server.init config) as s →
    AllStates Server.step Truthful (Server.init config) as := by
  intro h
  have hrun : (exec Server.step (Server.init ioConfig) connecting).any
      (fun s => decide s.Between && !s.conn.reading_ && s.conn.channel_.isReading) = true := by
    decide +kernel
  obtain ⟨s, hs, hp⟩ := Run.of_exec_any hrun
  simp only [Bool.and_eq_true, decide_eq_true_eq, Bool.not_eq_true'] at hp
  obtain ⟨⟨hbetween, hflag⟩, hinterest⟩ := hp
  have hsame := hs.of_allStates (h _ _ _ hs) hbetween
  cases hflag.symm.trans (hsame.trans hinterest)

end Server
end MuduoStudy
