import MuduoStudy.Buffer
import MuduoStudy.Epoller

namespace MuduoStudy
set_option autoImplicit true

inductive StateE where
  | kDisconnected
  | kConnecting
  | kConnected
  | kDisconnecting
  deriving DecidableEq, Repr

inductive Errno where
  | EWOULDBLOCK
  | EPIPE
  | ECONNRESET
  | other
  deriving DecidableEq, Repr

/-- The result of `::write`. -/
inductive WriteResult where
  | accepted (n : Nat)
  | error (e : Errno)
  deriving DecidableEq, Repr

/-- The kernel accepts nothing. -/
def WriteResult.silent : WriteResult → Bool
  | .accepted n => n = 0
  | .error _ => true

/-- The user's callbacks that a connection queues. -/
inductive Notice where
  | writeComplete
  | highWater (size : Nat)
  deriving DecidableEq, Repr

/-- The members of `TcpConnection` that only its loop's thread uses, and `state_`. -/
structure TcpConnection where
  state_ : StateE := .kDisconnected
  reading_ : Bool := false
  channel_ : Channel
  /-- the poller of `loop_` -/
  poller_ : Eepoller := {}
  outputBuffer_ : Buff := Buff.new Buff.kInitialSize
  highWaterMark_ : Nat := 64 * 1024 * 1024
  /-- whether `writeCompleteCallback_` is set -/
  writeCompleteCallback_ : Bool := false
  /-- whether `highWaterCallback_` is set -/
  highWaterCallback_ : Bool := false
  /-- the bytes that `::write` has accepted -/
  written : List UInt8 := []
  /-- the number of calls of `socket_->shutdownWrite()` -/
  shutdownWrites : Nat := 0
  /-- `sendInLoop` has met `EPIPE` or `ECONNRESET` -/
  faulted : Bool := false

namespace TcpConnection

/-- Sets `events_` and calls `Channel::update`. -/
def setEvents (c : TcpConnection) (events : Events) : TcpConnection :=
  let updated := c.poller_.updateChannel { c.channel_ with events_ := events }
  { c with poller_ := updated.1, channel_ := updated.2 }

def enableReading (c : TcpConnection) : TcpConnection :=
  c.setEvents (c.channel_.events_ ||| Channel.kReadEvent)

def disableReading (c : TcpConnection) : TcpConnection :=
  c.setEvents (c.channel_.events_ &&& ~~~Channel.kReadEvent)

def enableWriting (c : TcpConnection) : TcpConnection :=
  c.setEvents (c.channel_.events_ ||| Channel.kWriteEvent)

def disableWriting (c : TcpConnection) : TcpConnection :=
  c.setEvents (c.channel_.events_ &&& ~~~Channel.kWriteEvent)

def disableAll (c : TcpConnection) : TcpConnection := c.setEvents Channel.kNoneEvent

def remove (c : TcpConnection) : TcpConnection :=
  let removed := c.poller_.removeChannel c.channel_
  { c with poller_ := removed.1, channel_ := removed.2 }

/-- `sendInLoop` from `if(!faultError && remaining > 0)` on, without an error: `rest` is what the
direct write has left. A vector that cannot grow ends the program. -/
def bufferRest (c : TcpConnection) (rest : List UInt8) : Option (TcpConnection × List Notice) :=
  if 0 < rest.length then
    let oldlen := c.outputBuffer_.readableBytes
    let notices :=
      if sizeAdd oldlen rest.length ≥ c.highWaterMark_ ∧ oldlen < c.highWaterMark_ ∧
          c.highWaterCallback_ then [.highWater (sizeAdd oldlen rest.length)]
      else []
    (c.outputBuffer_.append rest).map fun b =>
      let c := { c with outputBuffer_ := b }
      (if c.channel_.isWriting then c else c.enableWriting, notices)
  else some (c, [])

/-- `sendInLoop` with `w` as the answer to its `::write`, if it makes one. It yields the callbacks
to queue, in order. -/
def sendInLoop (c : TcpConnection) (message : List UInt8) (w : WriteResult) :
    Option (TcpConnection × List Notice) :=
  if c.state_ = .kDisconnected then some (c, [])
  else if !c.channel_.isWriting && c.outputBuffer_.readableBytes == 0 then
    match w with
    | .accepted n =>
      if n ≤ message.length then
        let c := { c with written := c.written ++ message.take n }
        if message.length - n = 0 then
          some (c, if c.writeCompleteCallback_ then [.writeComplete] else [])
        else c.bufferRest (message.drop n)
      else none
    | .error e =>
      if e = .EPIPE ∨ e = .ECONNRESET then some ({ c with faulted := true }, [])
      else c.bufferRest message
  else c.bufferRest message

/-- `handleWrite` up to the drained buffer, with `w` as the answer to its `::write`. The flag says
whether the buffer has been drained. -/
def handleWrite (c : TcpConnection) (w : WriteResult) : Option (TcpConnection × Bool) :=
  if c.channel_.isWriting then
    match w with
    | .accepted n =>
      if n ≤ c.outputBuffer_.readableBytes then
        if 0 < n then
          let bytes := c.outputBuffer_.peek c.outputBuffer_.readableBytes
          let c := { c with
            written := c.written ++ bytes.take n, outputBuffer_ := c.outputBuffer_.retrieve n }
          if c.outputBuffer_.readableBytes = 0 then some (c.disableWriting, true)
          else some (c, false)
        else some (c, false)
      else none
    | .error _ => some (c, false)
  else some (c, false)

def shutdownInLoop (c : TcpConnection) : TcpConnection :=
  if !c.channel_.isWriting then { c with shutdownWrites := c.shutdownWrites + 1 } else c

def startReadInLoop (c : TcpConnection) : TcpConnection :=
  if !c.reading_ || !c.channel_.isReading then { c.enableReading with reading_ := true } else c

def stopReadInLoop (c : TcpConnection) : TcpConnection :=
  if c.reading_ || c.channel_.isReading then { c.disableReading with reading_ := false } else c

/-- `connectEstablished` up to the callback. -/
def connectEstablished (c : TcpConnection) : TcpConnection :=
  { c with state_ := .kConnected }.enableReading

/-- The body of the `if` in `connectDestroyed` up to the callback. -/
def setDisconnected (c : TcpConnection) : TcpConnection :=
  { c with state_ := .kDisconnected }.disableAll

theorem shutdownInLoop_cases (c : TcpConnection) : c.shutdownInLoop = c ∨
    c.channel_.isWriting = false ∧
      c.shutdownInLoop = { c with shutdownWrites := c.shutdownWrites + 1 } := by
  cases hw : c.channel_.isWriting with
  | true =>
    apply Or.inl
    rw [shutdownInLoop, hw]
    rfl
  | false =>
    apply Or.inr
    rw [shutdownInLoop, hw]
    exact ⟨rfl, rfl⟩

theorem startReadInLoop_cases (c : TcpConnection) : c.startReadInLoop = c ∨
    c.startReadInLoop = { c.enableReading with reading_ := true } := by
  rw [startReadInLoop]
  split
  · exact .inr rfl
  · exact .inl rfl

theorem stopReadInLoop_cases (c : TcpConnection) : c.stopReadInLoop = c ∨
    c.stopReadInLoop = { c.disableReading with reading_ := false } := by
  rw [stopReadInLoop]
  split
  · exact .inr rfl
  · exact .inl rfl

/-- What the direct write of `sendInLoop` leaves behind if `n` bytes are accepted. -/
def accept (c : TcpConnection) (bytes : List UInt8) : TcpConnection :=
  { c with written := c.written ++ bytes }

/-- Everything `bufferRest` can do. -/
inductive Buffers (c : TcpConnection) : List UInt8 → TcpConnection → Prop where
  | nothing : Buffers c [] c
  | writing : rest ≠ [] → c.outputBuffer_.append rest = some b → c.channel_.isWriting = true →
      Buffers c rest { c with outputBuffer_ := b }
  | enable : rest ≠ [] → c.outputBuffer_.append rest = some b → c.channel_.isWriting = false →
      Buffers c rest ({ c with outputBuffer_ := b } : TcpConnection).enableWriting

theorem Buffers.of_bufferRest {c c' : TcpConnection} (h : c.bufferRest rest = some (c', notices)) :
    Buffers c rest c' := by
  cases rest with
  | nil =>
    cases h
    exact .nothing
  | cons x xs =>
    obtain ⟨b, hb, he⟩ := Option.map_eq_some_iff.1 h
    cases hw : c.channel_.isWriting with
    | true =>
      simp only [hw, ↓reduceIte, Prod.mk.injEq] at he
      exact he.1 ▸ .writing nofun hb hw
    | false =>
      simp only [hw, Bool.false_eq_true, ↓reduceIte, Prod.mk.injEq] at he
      exact he.1 ▸ .enable nofun hb hw

/-- The channel waits for nothing and nothing is buffered, so `sendInLoop` writes at once. -/
def idle (c : TcpConnection) : Bool :=
  !c.channel_.isWriting && c.outputBuffer_.readableBytes == 0

/-- Everything `sendInLoop` can do in a state other than `kDisconnected`. -/
inductive Sends (c : TcpConnection) (message : List UInt8) :
    WriteResult → TcpConnection → Prop where
  | written : c.idle = true → n ≤ message.length →
      Buffers (c.accept (message.take n)) (message.drop n) c' → Sends c message (.accepted n) c'
  | fault : c.idle = true → e = .EPIPE ∨ e = .ECONNRESET →
      Sends c message (.error e) { c with faulted := true }
  | buffered : (c.idle = true → ∃ e, w = .error e ∧ ¬ (e = .EPIPE ∨ e = .ECONNRESET)) →
      Buffers c message c' → Sends c message w c'

theorem Sends.of_sendInLoop {c c' : TcpConnection} (hs : c.state_ ≠ .kDisconnected)
    (h : c.sendInLoop message w = some (c', notices)) : Sends c message w c' := by
  unfold sendInLoop at h
  rw [if_neg hs] at h
  cases hi : c.idle with
  | false =>
    rw [idle] at hi
    rw [hi] at h
    exact .buffered (fun ht => (Bool.false_ne_true (hi.symm.trans ht)).elim) (.of_bufferRest h)
  | true =>
    have hidle := hi
    rw [idle] at hi
    rw [hi] at h
    cases w with
    | accepted n =>
      simp only [↓reduceIte, Option.ite_none_right_eq_some] at h
      obtain ⟨hn, h⟩ := h
      by_cases hz : message.length - n = 0
      · rw [if_pos hz, Option.some.injEq, Prod.mk.injEq] at h
        have hrest : message.drop n = [] := List.drop_of_length_le (by omega)
        exact .written hidle hn (hrest ▸ h.1 ▸ .nothing)
      · rw [if_neg hz] at h
        exact .written hidle hn (.of_bufferRest h)
    | error e =>
      simp only [↓reduceIte] at h
      by_cases he : e = .EPIPE ∨ e = .ECONNRESET
      · rw [if_pos he, Option.some.injEq, Prod.mk.injEq] at h
        exact h.1 ▸ .fault hidle he
      · rw [if_neg he] at h
        exact .buffered (fun _ => ⟨e, rfl, he⟩) (.of_bufferRest h)

/-- The `n` first readable bytes go out. -/
def drain (c : TcpConnection) (n : Nat) : TcpConnection :=
  { c.accept ((c.outputBuffer_.peek c.outputBuffer_.readableBytes).take n) with
    outputBuffer_ := c.outputBuffer_.retrieve n }

/-- Everything `handleWrite` can do. -/
inductive Writes (c : TcpConnection) : WriteResult → TcpConnection → Bool → Prop where
  | nothing : Writes c w c false
  | part : c.channel_.isWriting = true → 0 < n → n ≤ c.outputBuffer_.readableBytes →
      (c.drain n).outputBuffer_.readableBytes ≠ 0 → Writes c (.accepted n) (c.drain n) false
  | drained : c.channel_.isWriting = true → 0 < n → n ≤ c.outputBuffer_.readableBytes →
      (c.drain n).outputBuffer_.readableBytes = 0 →
      Writes c (.accepted n) (c.drain n).disableWriting true

theorem Writes.of_handleWrite {c c' : TcpConnection} (h : c.handleWrite w = some (c', done)) :
    Writes c w c' done := by
  unfold handleWrite at h
  cases hw : c.channel_.isWriting with
  | false =>
    simp only [hw, Bool.false_eq_true, ↓reduceIte, Option.some.injEq, Prod.mk.injEq] at h
    obtain ⟨rfl, rfl⟩ := h
    exact .nothing
  | true =>
    rw [if_pos hw] at h
    cases w with
    | error e =>
      cases h
      exact .nothing
    | accepted n =>
      simp only [Option.ite_none_right_eq_some] at h
      obtain ⟨hn, h⟩ := h
      by_cases hz : 0 < n
      · rw [if_pos hz] at h
        by_cases hr : (c.drain n).outputBuffer_.readableBytes = 0
        · have he := (if_pos hr).symm.trans h
          cases he
          exact .drained hw hz hn hr
        · have he := (if_neg hr).symm.trans h
          cases he
          exact .part hw hz hn hr
      · rw [if_neg hz] at h
        cases h
        exact .nothing

/-- The channel's place in the poller stays known, and `state_` and the socket's write side are
left alone. -/
structure Kept (c c' : TcpConnection) : Prop where
  mirrors : c.poller_.Mirrors c.channel_ → c'.poller_.Mirrors c'.channel_
  state : c'.state_ = c.state_
  shutdown : c'.shutdownWrites = c.shutdownWrites

theorem Kept.refl (c : TcpConnection) : Kept c c := ⟨id, rfl, rfl⟩

theorem Kept.trans (h : Kept a b) (h' : Kept b c) : Kept a c :=
  ⟨h'.mirrors ∘ h.mirrors, h'.state.trans h.state, h'.shutdown.trans h.shutdown⟩

theorem Kept.setEvents (c : TcpConnection) (events : Events) : Kept c (c.setEvents events) :=
  ⟨fun h => h.updateChannel events, rfl, rfl⟩

theorem Buffers.kept (h : Buffers c rest c') : Kept c c' := by
  cases h with
  | nothing => exact .refl c
  | writing => exact ⟨id, rfl, rfl⟩
  | @enable _ b =>
    have hbuffer : Kept c { c with outputBuffer_ := b } := ⟨id, rfl, rfl⟩
    exact hbuffer.trans (.setEvents _ _)

theorem Sends.kept (h : Sends c message w c') : Kept c c' := by
  cases h with
  | written _ _ hb => exact (⟨id, rfl, rfl⟩ : Kept c (c.accept _)).trans hb.kept
  | fault => exact ⟨id, rfl, rfl⟩
  | buffered _ hb => exact hb.kept

theorem Writes.kept (h : Writes c w c' done) : Kept c c' := by
  have hdrain (n : Nat) : Kept c (c.drain n) := ⟨id, rfl, rfl⟩
  cases h with
  | nothing => exact .refl c
  | part => exact hdrain _
  | drained => exact (hdrain _).trans (.setEvents _ _)

theorem Kept.startReadInLoop (c : TcpConnection) : Kept c c.startReadInLoop := by
  obtain h | h := c.startReadInLoop_cases
  · rw [h]
    exact .refl c
  · have hset := Kept.setEvents c (c.channel_.events_ ||| Channel.kReadEvent)
    rw [h]
    exact ⟨hset.mirrors, rfl, rfl⟩

theorem Kept.stopReadInLoop (c : TcpConnection) : Kept c c.stopReadInLoop := by
  obtain h | h := c.stopReadInLoop_cases
  · rw [h]
    exact .refl c
  · have hset := Kept.setEvents c (c.channel_.events_ &&& ~~~Channel.kReadEvent)
    rw [h]
    exact ⟨hset.mirrors, rfl, rfl⟩

/-- What a step that neither sends nor writes leaves alone. -/
structure SameData (c c' : TcpConnection) : Prop where
  buffer : c'.outputBuffer_ = c.outputBuffer_
  written : c'.written = c.written
  faulted : c'.faulted = c.faulted

theorem SameData.refl (c : TcpConnection) : SameData c c := ⟨rfl, rfl, rfl⟩

theorem SameData.startReadInLoop (c : TcpConnection) : SameData c c.startReadInLoop := by
  obtain h | h := c.startReadInLoop_cases
  · rw [h]
    exact .refl c
  · rw [h]
    exact ⟨rfl, rfl, rfl⟩

theorem SameData.stopReadInLoop (c : TcpConnection) : SameData c c.stopReadInLoop := by
  obtain h | h := c.stopReadInLoop_cases
  · rw [h]
    exact .refl c
  · rw [h]
    exact ⟨rfl, rfl, rfl⟩

theorem SameData.shutdownInLoop (c : TcpConnection) : SameData c c.shutdownInLoop := by
  obtain h | ⟨_, h⟩ := c.shutdownInLoop_cases
  · rw [h]
    exact .refl c
  · rw [h]
    exact ⟨rfl, rfl, rfl⟩

theorem shutdownInLoop_same (c : TcpConnection) : c.shutdownInLoop.state_ = c.state_ ∧
    c.shutdownInLoop.channel_ = c.channel_ ∧ c.shutdownInLoop.poller_ = c.poller_ ∧
      c.shutdownInLoop.outputBuffer_ = c.outputBuffer_ := by
  obtain h | ⟨_, h⟩ := c.shutdownInLoop_cases
  · rw [h]
    exact ⟨rfl, rfl, rfl, rfl⟩
  · rw [h]
    exact ⟨rfl, rfl, rfl, rfl⟩

/-- What has left through the socket, followed by what still waits. -/
def stream (c : TcpConnection) : List UInt8 := c.written ++ c.outputBuffer_.readable

/-- The backlog behind a connection's stream of bytes is sound. -/
structure Streams (c c' : TcpConnection) (message : List UInt8) : Prop where
  wf : c'.outputBuffer_.Wf
  stream : c'.stream = c.stream ++ message
  faulted : c'.faulted = c.faulted

theorem Buffers.streams (hwf : c.outputBuffer_.Wf) (hlen : rest.length < 2 ^ 63)
    (h : Buffers c rest c') : Streams c c' rest := by
  have happend {b : Buff} (hb : c.outputBuffer_.append rest = some b) :
      b.Wf ∧ c.written ++ b.readable = c.stream ++ rest := by
    obtain ⟨hbwf, hread⟩ := hwf.append hlen hb
    exact ⟨hbwf, by rw [hread, stream, List.append_assoc]⟩
  cases h with
  | nothing => exact ⟨hwf, (List.append_nil _).symm, rfl⟩
  | writing _ hb => exact ⟨(happend hb).1, (happend hb).2, rfl⟩
  | enable _ hb => exact ⟨(happend hb).1, (happend hb).2, rfl⟩

theorem readable_of_idle {c : TcpConnection} (hwf : c.outputBuffer_.Wf) (h : c.idle = true) :
    c.outputBuffer_.readable = [] := by
  simp only [idle, Bool.and_eq_true, beq_iff_eq, hwf.readableBytes] at h
  exact List.eq_nil_of_length_eq_zero h.2

/-- `sendInLoop` appends the whole message to the stream, unless the socket fails. -/
theorem Sends.streams (hwf : c.outputBuffer_.Wf) (hlen : message.length < 2 ^ 63)
    (h : Sends c message w c') : Streams c c' message ∨
      c'.faulted = true ∧ c'.outputBuffer_ = c.outputBuffer_ ∧ c'.written = c.written ∧
        c.outputBuffer_.readable = [] := by
  cases h with
  | @written n _ hi hn hb =>
    have hrest : (message.drop n).length < 2 ^ 63 := by
      rw [List.length_drop]
      omega
    have hwfa : (c.accept (message.take n)).outputBuffer_.Wf := hwf
    obtain ⟨hwf', hstream, hf⟩ := hb.streams hwfa hrest
    have hread := readable_of_idle hwf hi
    have hwhole : c'.stream = c.stream ++ message := by
      rw [hstream]
      simp only [stream, accept, hread, List.append_nil, List.append_assoc,
        List.take_append_drop]
    exact .inl ⟨hwf', hwhole, hf⟩
  | fault hi he => exact .inr ⟨rfl, rfl, rfl, readable_of_idle hwf hi⟩
  | buffered _ hb => exact .inl (hb.streams hwf hlen)

theorem Writes.streams (hwf : c.outputBuffer_.Wf) (h : Writes c w c' done) :
    Streams c c' [] := by
  have hdrain (n : Nat) : Streams c (c.drain n) [] := by
    obtain ⟨hwf', hread⟩ := hwf.retrieve n
    have hstream : (c.drain n).stream = c.stream ++ [] := by
      simp only [stream, drain, accept, hwf.peek, hread, List.append_assoc, List.append_nil,
        List.take_append_drop]
    exact ⟨hwf', hstream, rfl⟩
  cases h with
  | nothing => exact ⟨hwf, (List.append_nil _).symm, rfl⟩
  | part => exact hdrain _
  | @drained n =>
    have hd := hdrain n
    exact ⟨hd.wf, hd.stream, rfl⟩

theorem Buffers.written (h : Buffers c rest c') : c'.written = c.written := by
  cases h with
  | nothing => rfl
  | writing => rfl
  | enable => rfl

theorem Sends.silent (hw : w.silent = true) (h : Sends c message w c') :
    c'.written = c.written := by
  cases h with
  | written _ _ hb =>
    have hn := of_decide_eq_true hw
    subst hn
    rw [hb.written, accept, List.take_zero, List.append_nil]
  | fault => rfl
  | buffered _ hb => exact hb.written

theorem Writes.silent (hw : w.silent = true) (h : Writes c w c' done) :
    c'.written = c.written := by
  cases h with
  | nothing => rfl
  | part _ hn => exact (Nat.ne_of_gt hn (of_decide_eq_true hw)).elim
  | drained _ hn => exact (Nat.ne_of_gt hn (of_decide_eq_true hw)).elim

/-- Buffered bytes wait for the socket to become writable. -/
def Watched (c : TcpConnection) : Prop :=
  c.channel_.isWriting = false → c.outputBuffer_.readable = []

theorem isWriting_setEvents (c : TcpConnection) (events : Events) :
    (c.setEvents events).channel_.isWriting = decide (events &&& Channel.kWriteEvent ≠ 0) := by
  simp [Channel.isWriting, setEvents]

theorem isWriting_enableWriting (c : TcpConnection) :
    c.enableWriting.channel_.isWriting = true := by
  rw [enableWriting, isWriting_setEvents, Channel.add_and_self]
  decide

theorem isWriting_enableReading (c : TcpConnection) :
    c.enableReading.channel_.isWriting = c.channel_.isWriting := by
  rw [enableReading, isWriting_setEvents, Channel.add_and_other (by decide)]
  rfl

theorem isWriting_disableReading (c : TcpConnection) :
    c.disableReading.channel_.isWriting = c.channel_.isWriting := by
  rw [disableReading, isWriting_setEvents, Channel.drop_and_other (by decide)]
  rfl

theorem isWriting_startReadInLoop (c : TcpConnection) :
    c.startReadInLoop.channel_.isWriting = c.channel_.isWriting := by
  obtain h | h := c.startReadInLoop_cases
  · rw [h]
  · rw [h]
    exact isWriting_enableReading c

theorem isWriting_stopReadInLoop (c : TcpConnection) :
    c.stopReadInLoop.channel_.isWriting = c.channel_.isWriting := by
  obtain h | h := c.stopReadInLoop_cases
  · rw [h]
  · rw [h]
    exact isWriting_disableReading c

theorem Buffers.watched (hw : Watched c) (h : Buffers c rest c') : Watched c' := by
  cases h with
  | nothing => exact hw
  | writing _ _ ht =>
    intro hf
    cases hf.symm.trans ht
  | @enable _ b =>
    have ht := isWriting_enableWriting { c with outputBuffer_ := b }
    intro hf
    cases hf.symm.trans ht

theorem Sends.watched (hw : Watched c) (h : Sends c message w c') : Watched c' := by
  cases h with
  | @written n _ _ _ hb =>
    have haccept : Watched (c.accept (message.take n)) := hw
    exact hb.watched haccept
  | fault => exact hw
  | buffered _ hb => exact hb.watched hw

theorem Writes.watched (hwf : c.outputBuffer_.Wf) (hw : Watched c) (h : Writes c w c' done) :
    Watched c' := by
  cases h with
  | nothing => exact hw
  | part ht =>
    intro hf
    cases hf.symm.trans ht
  | @drained n _ _ _ hempty =>
    have hwf' : (c.drain n).outputBuffer_.Wf := (hwf.retrieve n).1
    have hnone : (c.drain n).outputBuffer_.readable = [] := by
      rw [hwf'.readableBytes] at hempty
      exact List.eq_nil_of_length_eq_zero hempty
    intro _
    exact hnone

theorem Watched.startReadInLoop (hw : Watched c) : Watched c.startReadInLoop := by
  rw [Watched, isWriting_startReadInLoop, (SameData.startReadInLoop c).buffer]
  exact hw

theorem Watched.stopReadInLoop (hw : Watched c) : Watched c.stopReadInLoop := by
  rw [Watched, isWriting_stopReadInLoop, (SameData.stopReadInLoop c).buffer]
  exact hw

theorem Watched.shutdownInLoop (hw : Watched c) : Watched c.shutdownInLoop := by
  obtain ⟨_, hchannel, _, hbuffer⟩ := c.shutdownInLoop_same
  rw [Watched, hchannel, hbuffer]
  exact hw

end TcpConnection
end MuduoStudy
