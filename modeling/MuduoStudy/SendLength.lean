import MuduoStudy.Space
import MuduoStudy.TcpConnection

namespace MuduoStudy
set_option autoImplicit true

/-- The conversion of an `int` to `size_t`. -/
def toSize (len : Int32) : Nat := (len.toInt % 2 ^ 64).toNat

/-- What a call of `sendInLoop` does with the memory of its message. -/
structure Transfer where
  /-- the size that is passed to `::write` -/
  passed : Option Nat := none
  /-- the number of bytes that `::write` accepts -/
  nwrote : Nat := 0
  /-- the number of bytes that are copied into `outputBuffer_`, from `message + nwrote` on -/
  copied : Nat := 0
  /-- the difference `len - nwrote` and the sum `oldlen + remaining`, where they are computed -/
  sizes : List SizeOp := []
  deriving DecidableEq

/-- Nothing behind the `len` bytes of the message is written or buffered, no byte is both, and the
sizes are those in the integers. -/
structure Transfer.Within (t : Transfer) (len : Int) : Prop where
  passed : ∀ count ∈ t.passed, count ≤ len.toNat
  total : t.nwrote + t.copied ≤ len.toNat
  exact : ∀ op ∈ t.sizes, op.Exact

namespace TcpConnection

/-- `sendInLoop` from `if(!faultError && remaining > 0)` on. An `append` that throws copies
nothing. -/
def bufferTransfer (c : TcpConnection) (t : Transfer) (remaining : Nat) : Transfer :=
  if 0 < remaining then
    { t with
      sizes := t.sizes ++ [.add c.outputBuffer_.readableBytes remaining]
      copied := if (c.outputBuffer_.ensureWritableBytes remaining).isSome then remaining else 0 }
  else t

/-- `sendInLoop(message, len)` with `w` as the answer to its `::write`, if it makes one. -/
def transfer (c : TcpConnection) (len : Nat) (w : WriteResult) : Option Transfer :=
  if c.state_ = .kDisconnected then some {}
  else if c.idle then
    match w with
    | .accepted n =>
      if n ≤ len then
        some (c.bufferTransfer { passed := some len, nwrote := n, sizes := [.sub len n] }
          (sizeSub len n))
      else none
    | .error e =>
      if e = .EPIPE ∨ e = .ECONNRESET then some { passed := some len }
      else some (c.bufferTransfer { passed := some len } len)
  else some (c.bufferTransfer {} len)

/-- `send(const void*, int)`. Where it queues `sendInLoop`, the connection is `later` when the loop
comes to it. -/
def send (c : TcpConnection) (isInLoopThread : Bool) (later : TcpConnection) (len : Int32)
    (w : WriteResult) : Option Transfer :=
  if c.state_ = .kConnected then
    if isInLoopThread then c.transfer (toSize len) w else later.transfer (toSize len) w
  else some {}

/-- `sendInLoop` comes to nothing with a negative `len`: it gives up, or it goes on to an `append`
that throws. -/
def Harmless (c : TcpConnection) (len : Int) : Prop :=
  c.state_ = .kDisconnected ∨ c.idle = false ∧ (Buff.kCheapPrepend : Int) < -len ∧
    (c.outputBuffer_.writerIndex_ : Int) < -len

/-- Everything `sendInLoop` can do with its message. -/
inductive Transfers (c : TcpConnection) (len : Nat) : WriteResult → Transfer → Prop where
  | disconnected : c.state_ = .kDisconnected → Transfers c len w {}
  | written : c.state_ ≠ .kDisconnected → c.idle = true → n ≤ len →
      Transfers c len (.accepted n) (c.bufferTransfer
        { passed := some len, nwrote := n, sizes := [.sub len n] } (sizeSub len n))
  | fault : c.state_ ≠ .kDisconnected → c.idle = true → e = .EPIPE ∨ e = .ECONNRESET →
      Transfers c len (.error e) { passed := some len }
  | error : c.state_ ≠ .kDisconnected → c.idle = true → ¬ (e = .EPIPE ∨ e = .ECONNRESET) →
      Transfers c len (.error e) (c.bufferTransfer { passed := some len } len)
  | buffered : c.state_ ≠ .kDisconnected → c.idle = false →
      Transfers c len w (c.bufferTransfer {} len)

theorem Transfers.of_transfer {c : TcpConnection} (h : c.transfer len w = some t) :
    Transfers c len w t := by
  unfold transfer at h
  by_cases hs : c.state_ = .kDisconnected
  · rw [if_pos hs, Option.some.injEq] at h
    exact h ▸ .disconnected hs
  · rw [if_neg hs] at h
    cases hi : c.idle with
    | false =>
      rw [hi, if_neg Bool.false_ne_true, Option.some.injEq] at h
      exact h ▸ .buffered hs hi
    | true =>
      rw [hi, if_pos rfl] at h
      cases w with
      | accepted n =>
        simp only [Option.ite_none_right_eq_some, Option.some.injEq] at h
        exact h.2 ▸ .written hs hi h.1
      | error e =>
        by_cases he : e = .EPIPE ∨ e = .ECONNRESET
        · simp only [if_pos he, Option.some.injEq] at h
          exact h ▸ .fault hs hi he
        · simp only [if_neg he, Option.some.injEq] at h
          exact h ▸ .error hs hi he

theorem bufferTransfer_keeps (c : TcpConnection) (t : Transfer) (remaining : Nat) :
    (c.bufferTransfer t remaining).passed = t.passed ∧
      (c.bufferTransfer t remaining).nwrote = t.nwrote := by
  rw [bufferTransfer]
  split
  · exact ⟨rfl, rfl⟩
  · exact ⟨rfl, rfl⟩

theorem Buffers.transfer {c c' : TcpConnection} {t : Transfer} (hwf : c.outputBuffer_.Wf)
    (hlen : rest.length < 2 ^ 63) (h : Buffers c rest c') :
    c'.outputBuffer_.readable = c.outputBuffer_.readable ++
      rest.take (c.bufferTransfer t rest.length).copied := by
  have happend {b : Buff} (hne : rest ≠ []) (hb : c.outputBuffer_.append rest = some b) :
      b.readable = c.outputBuffer_.readable ++
        rest.take (c.bufferTransfer t rest.length).copied := by
    obtain ⟨b', hb', _⟩ := Option.map_eq_some_iff.1 hb
    have hroom : c.outputBuffer_.ensureWritableBytes rest.length = some b' := hb'
    have hall : (c.bufferTransfer t rest.length).copied = rest.length := by
      simp only [bufferTransfer, if_pos (List.length_pos_of_ne_nil hne), hroom, Option.isSome_some,
        ↓reduceIte]
    rw [hall, List.take_length]
    exact (hwf.append hlen hb).2
  cases h with
  | nothing => rw [List.take_nil, List.append_nil]
  | writing hne hb => exact happend hne hb
  | enable hne hb => exact happend hne hb

theorem Transfers.transfer {c : TcpConnection} (h : Transfers c len w t) :
    c.transfer len w = some t := by
  unfold TcpConnection.transfer
  cases h with
  | disconnected hs => rw [if_pos hs]
  | written hs hi hn => simp only [if_neg hs, hi, ↓reduceIte, if_pos hn]
  | fault hs hi he => simp only [if_neg hs, hi, ↓reduceIte, if_pos he]
  | error hs hi he => simp only [if_neg hs, hi, ↓reduceIte, if_neg he]
  | buffered hs hi => rw [if_neg hs, hi, if_neg Bool.false_ne_true]

/-- What `sendInLoop` does to the connection is what it does with the message: the bytes that
`::write` accepts go out, and those that are copied are buffered. -/
theorem transfer_of_sendInLoop {c c' : TcpConnection} (hwf : c.outputBuffer_.Wf)
    (hlen : message.length < 2 ^ 63) (h : c.sendInLoop message w = some (c', notices)) :
    ∃ t, c.transfer message.length w = some t ∧
      c'.written = c.written ++ message.take t.nwrote ∧
      c'.outputBuffer_.readable =
        c.outputBuffer_.readable ++ (message.drop t.nwrote).take t.copied := by
  have hnothing (bytes : List UInt8) : bytes = bytes ++ message.take 0 := by
    rw [List.take_zero, List.append_nil]
  have hbuffered {t : Transfer} (hn : t.nwrote = 0) (hb : Buffers c message c') :
      c'.written = c.written ++ message.take (c.bufferTransfer t message.length).nwrote ∧
        c'.outputBuffer_.readable = c.outputBuffer_.readable ++
          (message.drop (c.bufferTransfer t message.length).nwrote).take
            (c.bufferTransfer t message.length).copied := by
    rw [(c.bufferTransfer_keeps _ _).2, hn, hb.written]
    exact ⟨hnothing _, hb.transfer hwf hlen⟩
  by_cases hs : c.state_ = .kDisconnected
  · unfold sendInLoop at h
    rw [if_pos hs, Option.some.injEq, Prod.mk.injEq] at h
    obtain ⟨rfl, _⟩ := h
    exact ⟨_, (Transfers.disconnected hs).transfer, hnothing _, hnothing _⟩
  · cases Sends.of_sendInLoop hs h with
    | @written n _ hi hn hb =>
      have hsub : sizeSub message.length n = (message.drop n).length := by
        rw [List.length_drop]
        exact sizeSub_of_le hn (by omega)
      have hrest : (message.drop n).length < 2 ^ 63 := by
        rw [List.length_drop]
        omega
      have hacc : (c.accept (message.take n)).outputBuffer_.Wf := hwf
      refine ⟨_, (Transfers.written hs hi hn).transfer, ?_⟩
      have hread := hb.transfer (t := ⟨some message.length, n, 0, [.sub message.length n]⟩)
        hacc hrest
      rw [(c.bufferTransfer_keeps _ _).2, hb.written, hsub]
      exact ⟨rfl, hread⟩
    | fault hi he => exact ⟨_, (Transfers.fault hs hi he).transfer, hnothing _, hnothing _⟩
    | buffered hw hb =>
      cases hi : c.idle with
      | false => exact ⟨_, (Transfers.buffered hs hi).transfer, hbuffered rfl hb⟩
      | true =>
        obtain ⟨e, rfl, he⟩ := hw hi
        exact ⟨_, (Transfers.error hs hi he).transfer, hbuffered rfl hb⟩

theorem toSize_of_nonneg {len : Int32} (h : 0 ≤ len.toInt) :
    toSize len = len.toInt.toNat ∧ len.toInt.toNat < 2 ^ 31 := by
  have hlt := len.toInt_lt
  rw [toSize]
  omega

theorem toSize_of_neg {len : Int32} (h : len.toInt < 0) :
    (toSize len : Int) = 2 ^ 64 + len.toInt ∧ 2 ^ 63 ≤ toSize len ∧ toSize len < 2 ^ 64 := by
  have hle := len.le_toInt
  rw [toSize]
  omega

theorem bufferTransfer_within {c : TcpConnection} {t : Transfer} (hwf : c.outputBuffer_.Wf)
    (hpassed : ∀ count ∈ t.passed, count ≤ len.toNat) (hsizes : ∀ op ∈ t.sizes, op.Exact)
    (hcopied : t.copied = 0) (htotal : t.nwrote + remaining ≤ len.toNat)
    (hlen : len.toNat < 2 ^ 31) : (c.bufferTransfer t remaining).Within len := by
  rw [bufferTransfer]
  split
  · have hold := hwf.bound
    have hsum : SizeOp.Exact (.add c.outputBuffer_.readableBytes remaining) := by
      simp only [SizeOp.Exact, hwf.readableBytes]
      omega
    refine ⟨hpassed, ?_, ?_⟩
    · simp only
      split
      · exact htotal
      · omega
    · simp only
      intro op hop
      rcases List.mem_append.1 hop with hop | hop
      · exact hsizes op hop
      · cases List.mem_singleton.1 hop
        exact hsum
  · exact ⟨hpassed, by omega, hsizes⟩

theorem Transfers.of_nonneg {c : TcpConnection} {len : Int32} (hwf : c.outputBuffer_.Wf)
    (hlen : 0 ≤ len.toInt) (h : Transfers c (toSize len) w t) : t.Within len.toInt := by
  obtain ⟨hsize, hbound⟩ := toSize_of_nonneg hlen
  rw [hsize] at h
  have hpassed : ∀ count ∈ some len.toInt.toNat, count ≤ len.toInt.toNat := by
    intro count hcount
    cases hcount
    exact Nat.le_refl _
  have hall : 0 + len.toInt.toNat ≤ len.toInt.toNat := Nat.le_of_eq (Nat.zero_add _)
  cases h with
  | disconnected => exact ⟨nofun, Nat.zero_le _, nofun⟩
  | @written n _ _ hn =>
    have hsub : sizeSub len.toInt.toNat n = len.toInt.toNat - n := sizeSub_of_le hn (by omega)
    have hexact : ∀ op ∈ [SizeOp.sub len.toInt.toNat n], op.Exact :=
      List.forall_mem_singleton.2 hn
    have htotal : n + sizeSub len.toInt.toNat n ≤ len.toInt.toNat := by omega
    exact bufferTransfer_within hwf hpassed hexact rfl htotal hbound
  | fault => exact ⟨hpassed, Nat.zero_le _, nofun⟩
  | error => exact bufferTransfer_within hwf hpassed nofun rfl hall hbound
  | buffered => exact bufferTransfer_within hwf nofun nofun rfl hall hbound

theorem bufferTransfer_of_neg {c : TcpConnection} {len : Int32} (hwf : c.outputBuffer_.Wf)
    (hlen : len.toInt < 0) : (c.bufferTransfer {} (toSize len)).Within len.toInt ↔
      (Buff.kCheapPrepend : Int) < -len.toInt ∧
        (c.outputBuffer_.writerIndex_ : Int) < -len.toInt := by
  obtain ⟨hsize, hlarge, hlt⟩ := toSize_of_neg hlen
  have hnone := hwf.ensureWritableBytes_eq_none_iff hlarge hlt
  have hpos : 0 < toSize len := by omega
  have hzero : len.toInt.toNat = 0 := by omega
  have hold : c.outputBuffer_.readableBytes ≤ c.outputBuffer_.writerIndex_ := by
    rw [hwf.readableBytes, hwf.length_readable]
    exact Nat.sub_le _ _
  have hfits : (toSize len + Buff.kCheapPrepend < 2 ^ 64 ∧
      toSize len + c.outputBuffer_.writerIndex_ < 2 ^ 64) ↔
        (Buff.kCheapPrepend : Int) < -len.toInt ∧
          (c.outputBuffer_.writerIndex_ : Int) < -len.toInt := by
    omega
  rw [← hfits, ← hnone, bufferTransfer, if_pos hpos]
  constructor
  · intro hwithin
    have htotal := hwithin.total
    cases hb : c.outputBuffer_.ensureWritableBytes (toSize len) with
    | none => rfl
    | some b =>
      simp only [hb, Option.isSome_some, ↓reduceIte] at htotal
      omega
  · intro hb
    obtain ⟨_, hsum⟩ := hnone.1 hb
    refine ⟨nofun, ?_, List.forall_mem_singleton.2 ?_⟩
    · simp only [hb, Option.isSome_none, Bool.false_eq_true, ↓reduceIte]
      exact Nat.zero_le _
    · simp only [SizeOp.Exact]
      omega

theorem Transfers.of_neg {c : TcpConnection} {len : Int32} (hwf : c.outputBuffer_.Wf)
    (hlen : len.toInt < 0) (h : Transfers c (toSize len) w t) :
    t.Within len.toInt ↔ c.Harmless len.toInt := by
  have hlarge := (toSize_of_neg hlen).2.1
  -- a direct write is given more bytes than there are
  have hwrites (hpassed : t.passed = some (toSize len)) : ¬ t.Within len.toInt := by
    intro hwithin
    have hle := hwithin.passed (toSize len) hpassed
    omega
  have hidle (hs : c.state_ ≠ .kDisconnected) (hi : c.idle = true) :
      ¬ c.Harmless len.toInt := by
    rintro (hd | ⟨hf, _⟩)
    · exact hs hd
    · exact Bool.false_ne_true (hf.symm.trans hi)
  cases h with
  | disconnected hs => exact iff_of_true ⟨nofun, Nat.zero_le _, nofun⟩ (.inl hs)
  | written hs hi | error hs hi =>
    exact iff_of_false (hwrites (c.bufferTransfer_keeps _ _).1) (hidle hs hi)
  | fault hs hi => exact iff_of_false (hwrites rfl) (hidle hs hi)
  | buffered hs hi =>
    rw [bufferTransfer_of_neg hwf hlen, Harmless, hi]
    simp only [hs, true_and, false_or]

/-- A call of `send` stays within its message exactly when `len` is not negative, or the call comes
to nothing. -/
theorem send_length_iff {c later : TcpConnection} {len : Int32} (hwf : c.outputBuffer_.Wf)
    (hlater : later.outputBuffer_.Wf) (h : c.send isInLoopThread later len w = some t) :
    t.Within len.toInt ↔ 0 ≤ len.toInt ∨ c.state_ ≠ .kConnected ∨
      (if isInLoopThread then c else later).Harmless len.toInt := by
  have hcall : c.state_ ≠ .kConnected ∧ t = {} ∨ c.state_ = .kConnected ∧
      Transfers (if isInLoopThread then c else later) (toSize len) w t := by
    rw [send] at h
    by_cases hs : c.state_ = .kConnected
    · rw [if_pos hs] at h
      refine .inr ⟨hs, .of_transfer ?_⟩
      cases isInLoopThread with
      | true => exact h
      | false => exact h
    · rw [if_neg hs, Option.some.injEq] at h
      exact .inl ⟨hs, h.symm⟩
  have hboth : (if isInLoopThread then c else later).outputBuffer_.Wf := by
    split
    · exact hwf
    · exact hlater
  rcases hcall with ⟨hs, rfl⟩ | ⟨hs, ht⟩
  · exact iff_of_true ⟨nofun, Nat.zero_le _, nofun⟩ (.inr (.inl hs))
  · by_cases hlen : 0 ≤ len.toInt
    · exact iff_of_true (ht.of_nonneg hboth hlen) (.inl hlen)
    · rw [ht.of_neg hboth (Int.not_le.1 hlen)]
      exact ⟨fun hh => .inr (.inr hh), fun hh =>
        (hh.resolve_left hlen).resolve_left fun hn => hn hs⟩

/-- Half of a message of six bytes goes out at once. -/
theorem send_length_example : ∃ t : Transfer,
    ({ state_ := .kConnected, channel_ := { self := 1, fd_ := 7 } } : TcpConnection).send true
      { channel_ := { self := 1, fd_ := 7 } } 6 (.accepted 3) = some t ∧
    t.nwrote = 3 ∧ t.copied = 3 ∧ t.Within 6 := by
  have hrun : ({ state_ := .kConnected, channel_ := { self := 1, fd_ := 7 } } : TcpConnection).send
      true { channel_ := { self := 1, fd_ := 7 } } 6 (.accepted 3) =
        some ⟨some 6, 3, 3, [.sub 6 3, .add 0 3]⟩ := by
    decide +kernel
  have hwf : (Buff.new Buff.kInitialSize).Wf := .new (by decide)
  exact ⟨_, hrun, rfl, rfl, (send_length_iff hwf hwf hrun).2 (.inl (by decide))⟩

/-- The result of a failed `read` is passed on as the length of a message. -/
theorem send_length_negative : ¬ ∀ (c later : TcpConnection) (isInLoopThread : Bool) (len : Int32)
    (w : WriteResult) (t : Transfer), c.outputBuffer_.Wf → later.outputBuffer_.Wf →
    c.send isInLoopThread later len w = some t → t.Within len.toInt := by
  intro h
  have hrun : ({ state_ := .kConnected, channel_ := { self := 1, fd_ := 7 } } : TcpConnection).send
      true { channel_ := { self := 1, fd_ := 7 } } (-1) (.error .other) =
        some ⟨some (2 ^ 64 - 1), 0, 2 ^ 64 - 1, [.add 0 (2 ^ 64 - 1)]⟩ := by
    decide +kernel
  have hwf : (Buff.new Buff.kInitialSize).Wf := .new (by decide)
  have hle := (h _ _ _ _ _ _ hwf hwf hrun).passed (2 ^ 64 - 1) rfl
  exact absurd hle (by decide)

end TcpConnection
end MuduoStudy
