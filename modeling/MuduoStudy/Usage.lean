import MuduoStudy.ReadFd

namespace MuduoStudy
open Transition
set_option autoImplicit true

namespace Buff

/-- The `n` bytes from position `i` on lie in the vector. -/
def inside (b : Buff) (i n : Nat) : Bool := n = 0 || i + n ≤ b.buf_.length

/-- `append` stores its data in the vector. -/
def appendInside (b : Buff) (len : Nat) : Bool :=
  (b.ensureWritableBytes len).all fun c => c.inside c.writerIndex_ len

/-- The operation stores nothing outside the vector. -/
def Op.inside (b : Buff) : Op → Bool
  | .append data _ => b.appendInside data.bytes.length
  | .appendOwn _ len _ _ => b.appendInside len
  | .prepend data => b.inside (sizeSub b.readerIndex_ data.length) data.length
  | .prependOwn _ len => b.inside (sizeSub b.readerIndex_ len) len
  | .write data _ => b.inside b.writerIndex_ data.length
  | .retrieve _ | .retrieveUntil _ | .retrieveAll | .retrieveAsString _
  | .ensureWritableBytes .. | .unwrite _ | .findCRLF _ | .findEOL _ => true

/-- `readFd` stores nothing outside the vector. -/
def readFdInside (b : Buff) (bytes : List UInt8) : Bool :=
  b.inside b.writerIndex_ (bytes.take b.writableBytes).length &&
    (bytes.length ≤ b.writableBytes ||
      (b.fill (bytes.take b.writableBytes)).appendInside (bytes.drop b.writableBytes).length)

end Buff

/-- A buffer that a program uses. -/
structure Usage where
  buff : Buff
  /-- the largest value that `readableBytes()` has had -/
  peak : Nat

namespace Usage

def go (s : Usage) (b : Buff) : Usage where
  buff := b
  peak := max s.peak b.readableBytes

def create (initialSize : Nat) (alloc : Bool) : Option Usage :=
  (Buff.construct initialSize alloc).map fun b => { buff := b, peak := b.readableBytes }

inductive Action where
  -- an operation with an argument in the range that the buffer reports
  | run (op : Buff.Op)
  -- `retrieveAsString` with any `len`
  | retrieveAsString (len : Nat)
  | readFd (r : Readv) (alloc : Bool)
  deriving DecidableEq

/-- Nothing is said of what happens when something is stored outside the vector. -/
def step (s : Usage) : Action → Option Usage
  | .run op => if op.inside s.buff then (op.run s.buff).map fun r => s.go r.1 else none
  -- a string of more than `max_size()` characters throws
  | .retrieveAsString len =>
    some (if len ≤ Buff.maxSize then s.go (s.buff.retrieveAsString len).2 else s)
  | .readFd r alloc =>
    if r.fits s.buff && s.buff.readFdInside r.bytes then some (s.go (s.buff.afterReadFd r alloc))
    else none

end Usage

namespace Buff

/-- A vector that is too small for the room in front, which a wrapped size makes. -/
structure Unusable (b : Buff) : Prop where
  reader : b.readerIndex_ = kCheapPrepend
  writer : b.writerIndex_ = kCheapPrepend
  size : b.buf_.length < kCheapPrepend

theorem construct_cases {b : Buff} (h : construct n alloc = some b) :
    b.buf_.length = sizeAdd kCheapPrepend n ∧ (b.Wf ∨ b.Unusable) := by
  rw [construct, Option.ite_none_right_eq_some, Option.some.injEq] at h
  obtain ⟨⟨hmax, -⟩, rfl⟩ := h
  have hlen : (new n).buf_.length = sizeAdd kCheapPrepend n := List.length_replicate
  refine ⟨hlen, ?_⟩
  by_cases hsmall : sizeAdd kCheapPrepend n < kCheapPrepend
  · exact .inr ⟨rfl, rfl, hlen ▸ hsmall⟩
  · have hprepend : kCheapPrepend ≤ (new n).buf_.length := hlen ▸ Nat.not_lt.1 hsmall
    exact .inl ⟨hprepend, Nat.le_refl _, hprepend, hlen ▸ hmax⟩

theorem Unusable.writableBytes {b : Buff} (h : b.Unusable) : 2 ^ 63 ≤ b.writableBytes := by
  have hsize := h.size
  simp only [kCheapPrepend] at hsize
  simp only [Buff.writableBytes, h.writer, sizeSub, kCheapPrepend]
  omega

theorem Unusable.readableBytes {b : Buff} (h : b.Unusable) : b.readableBytes = 0 := by
  rw [Buff.readableBytes, h.reader, h.writer]
  rfl

theorem Unusable.retrieveAll {b : Buff} (h : b.Unusable) : b.retrieveAll = b := by
  obtain ⟨buf, reader, writer⟩ := b
  cases h.reader
  cases h.writer
  rfl

theorem Unusable.retrieve {b : Buff} (h : b.Unusable) (len : Nat) : b.retrieve len = b := by
  rw [Buff.retrieve, h.readableBytes, if_neg (Nat.not_lt_zero len), h.retrieveAll]

theorem Unusable.inside {b : Buff} (h : b.Unusable) (hi : b.inside i n = true)
    (hsmall : kCheapPrepend ≤ i + n) : n = 0 := by
  have hsize := h.size
  rw [Buff.inside, Bool.or_eq_true, decide_eq_true_eq, decide_eq_true_eq] at hi
  omega

theorem Unusable.ensureWritableBytes {b : Buff} (h : b.Unusable) (hlen : len < 2 ^ 63) :
    b.grows len = false ∧ b.ensureWritableBytes len = some b := by
  have hw := h.writableBytes
  have hroom : ¬ b.writableBytes < len := by omega
  exact ⟨decide_eq_false fun hgrow => hroom hgrow.1, if_neg hroom⟩

theorem Unusable.appendInside {b : Buff} (h : b.Unusable) (hlen : len < 2 ^ 63)
    (hi : b.appendInside len = true) : len = 0 := by
  rw [Buff.appendInside, (h.ensureWritableBytes hlen).2, Option.all_some, h.writer] at hi
  exact h.inside hi (Nat.le_add_right _ _)

theorem Unusable.append {b : Buff} {data : Source} (h : b.Unusable) (hlen : data.length = 0)
    (hdata : data.bytes b.buf_ = []) : b.append data = some b := by
  have hzero : 0 < 2 ^ 63 := by decide
  have hsame :
      ({ b with buf_ := Region.write b.buf_ b.writerIndex_ [] } : Buff).hasWritten 0 = b := by
    obtain ⟨buf, reader, writer⟩ := b
    cases h.writer
    rw [Region.write_nil]
    rfl
  rw [Buff.append, hlen, (h.ensureWritableBytes hzero).2, Option.map_some, hdata, hsame]

theorem Unusable.prepend {b : Buff} (h : b.Unusable) (hdata : data.length ≤ b.readerIndex_)
    (hi : b.inside (sizeSub b.readerIndex_ data.length) data.length = true) :
    b.prepend data = b := by
  have hstart : sizeSub b.readerIndex_ data.length + data.length = kCheapPrepend := by
    rw [h.reader] at hdata
    rw [h.reader, sizeSub_of_le hdata (by decide), Nat.sub_add_cancel hdata]
  have hnil : data = [] :=
    List.eq_nil_of_length_eq_zero (h.inside hi (Nat.le_of_eq hstart.symm))
  obtain ⟨buf, reader, writer⟩ := b
  cases h.reader
  cases hnil
  simp only [Buff.prepend, Region.write_nil]
  rfl

/-- Whatever is done with such a buffer and stays in the vector leaves it as it is. -/
theorem Unusable.run {b b' : Buff} {op : Op} (h : b.Unusable) (hi : op.inside b = true)
    (hrun : op.run b = some (b', r)) : b' = b := by
  cases Op.Changes.of_run hrun with
  | same => rfl
  | @append _ data _ hb =>
    have hzero : data.bytes.length = 0 := h.appendInside data.bound hi
    have hsame : b.append data.bytes = some b :=
      h.append hzero (List.eq_nil_of_length_eq_zero hzero)
    exact Option.some.inj (hb.symm.trans hsame)
  | @appendOwn offset len _ _ _ hin hb =>
    have hsize := h.size
    have hlen : len < 2 ^ 63 := by
      simp only [kCheapPrepend] at hsize
      omega
    have hzero : len = 0 := h.appendInside hlen hi
    have hsame : b.append (.inside offset len) = some b :=
      h.append hzero (by rw [hzero]; rfl)
    exact Option.some.inj (hb.symm.trans hsame)
  | ensureWritableBytes hlen hb =>
    exact Option.some.inj (hb.symm.trans (h.ensureWritableBytes hlen).2)
  | prepend hdata => exact h.prepend hdata hi
  | prependOwn hlen hin =>
    have hdata := Region.length_slice hin
    exact h.prepend (hdata.symm ▸ hlen) (hdata.symm ▸ hi)
  | @write len data _ hlen =>
    have hnil : data = [] := by
      rw [Op.inside, h.writer] at hi
      exact List.eq_nil_of_length_eq_zero (h.inside hi (Nat.le_add_right _ _))
    obtain ⟨buf, reader, writer⟩ := b
    cases h.writer
    cases hnil
    cases Nat.le_zero.1 hlen
    simp only [Region.write_nil]
    rfl
  | retrieve | retrieveUntil | retrieveAsString => exact h.retrieve _
  | retrieveAll => exact h.retrieveAll
  | @unwrite len hlen =>
    have hsame : sizeSub b.writerIndex_ 0 = b.writerIndex_ := by
      rw [h.writer]
      exact sizeSub_of_le (Nat.zero_le _) (by decide)
    rw [h.readableBytes] at hlen
    rw [Buff.unwrite, Nat.le_zero.1 hlen, hsame]

theorem Unusable.readFd {b : Buff} (h : b.Unusable) (hfits : r.fits b = true)
    (hi : b.readFdInside r.bytes = true) (alloc : Bool) : b.afterReadFd r alloc = b := by
  cases r with
  | error errno => rfl
  | data bytes =>
    have hw := h.writableBytes
    have hnil : bytes = [] := by
      rw [readFdInside, Bool.and_eq_true, h.writer] at hi
      have hzero := h.inside hi.1 (Nat.le_add_right _ _)
      rw [Readv.bytes, List.length_take] at hzero
      exact List.eq_nil_of_length_eq_zero (by omega)
    have hsame : sizeAdd b.writerIndex_ 0 = b.writerIndex_ := by
      rw [h.writer]
      exact sizeAdd_of_lt (by decide)
    simp only [afterReadFd, Buff.readFd, hnil, List.take_nil, Region.write_nil, List.length_nil,
      Nat.zero_le, ↓reduceIte, hsame]

theorem Wf.appendInside {b : Buff} (h : b.Wf) (hlen : len < 2 ^ 63) :
    b.appendInside len = true := by
  rw [Buff.appendInside]
  cases hb : b.ensureWritableBytes len with
  | none => rfl
  | some c =>
    obtain ⟨_, _, hroom⟩ := h.ensureWritableBytes hlen hb
    rw [Option.all_some, Buff.inside, decide_eq_true hroom, Bool.or_true]

theorem Wf.inside {b : Buff} {op : Op} (h : b.Wf) (hrun : (op.run b).isSome = true) :
    op.inside b = true := by
  have hr := h.reader
  have hw := h.writer
  have hs := h.size_lt
  cases op with
  | append data alloc => exact h.appendInside data.bound
  | appendOwn offset len alloc room =>
    rw [Op.run] at hrun
    split at hrun
    · exact h.appendInside (by omega)
    · cases hrun
  | prepend data =>
    rw [Op.run, Option.isSome_ite, prependableBytes] at hrun
    rw [Op.inside, Buff.inside, h.readerIndex_sub hrun, Bool.or_eq_true, decide_eq_true_eq,
      decide_eq_true_eq]
    omega
  | prependOwn offset len =>
    rw [Op.run, Option.isSome_ite, prependableBytes] at hrun
    rw [Op.inside, Buff.inside, h.readerIndex_sub hrun.1, Bool.or_eq_true, decide_eq_true_eq,
      decide_eq_true_eq]
    omega
  | write data len =>
    rw [Op.run, Option.isSome_ite, h.writableBytes] at hrun
    rw [Op.inside, Buff.inside, Bool.or_eq_true, decide_eq_true_eq, decide_eq_true_eq]
    omega
  | _ => rfl

theorem Wf.readFdInside {b : Buff} {r : Readv} (h : b.Wf) (hfits : r.fits b = true) :
    b.readFdInside r.bytes = true := by
  have hw := h.writer
  have hwritable := h.writableBytes
  have hstore : b.inside b.writerIndex_ (r.bytes.take b.writableBytes).length = true := by
    rw [Buff.inside, List.length_take, Bool.or_eq_true, decide_eq_true_eq, decide_eq_true_eq]
    omega
  rw [Buff.readFdInside, hstore, Bool.true_and, Bool.or_eq_true, decide_eq_true_eq]
  cases r with
  | error errno => exact .inl (Nat.zero_le _)
  | data bytes =>
    by_cases hn : bytes.length ≤ b.writableBytes
    · exact .inl hn
    · obtain ⟨hfill, hbound⟩ := h.split (of_decide_eq_true hfits) (Nat.not_le.1 hn)
      exact .inr (hfill.1.appendInside hbound)

end Buff

namespace Usage

inductive Step (s : Usage) : Action → Usage → Prop where
  | run : op.inside s.buff = true → op.run s.buff = some (b, result) → Step s (.run op) (s.go b)
  | retrieved : Step s (.retrieveAsString len) (s.go (s.buff.retrieveAsString len).2)
  | threw : Step s (.retrieveAsString len) s
  | readFd : r.fits s.buff = true → s.buff.readFdInside r.bytes = true →
      Step s (.readFd r alloc) (s.go (s.buff.afterReadFd r alloc))

theorem Step.of_step {s s' : Usage} (h : s.step a = some s') : Step s a s' := by
  cases a with
  | run op =>
    rw [step, Option.ite_none_right_eq_some] at h
    obtain ⟨hi, h⟩ := h
    obtain ⟨_, hrun, rfl⟩ := Option.map_eq_some_iff.1 h
    exact .run hi hrun
  | retrieveAsString len =>
    cases h
    split
    · exact .retrieved
    · exact .threw
  | readFd r alloc =>
    rw [step, Option.ite_none_right_eq_some, Bool.and_eq_true, Option.some.injEq] at h
    obtain ⟨⟨hfits, hi⟩, rfl⟩ := h
    exact .readFd hfits hi

/-- The buffer is sound, or it has been unusable from the beginning. -/
def Sound (s : Usage) : Prop := s.buff.Wf ∨ s.buff.Unusable

theorem Sound.create (h : create n alloc = some s) : Sound s := by
  obtain ⟨b, hb, rfl⟩ := Option.map_eq_some_iff.1 h
  exact (Buff.construct_cases hb).2

theorem step_unusable {s s' : Usage} (hb : s.buff.Unusable) (h : s.step a = some s') :
    s'.buff = s.buff := by
  cases Step.of_step h with
  | run hi hrun => exact hb.run hi hrun
  | retrieved => exact hb.retrieve _
  | threw => rfl
  | @readFd r alloc hfits hi => exact hb.readFd hfits hi alloc

theorem Sound.step {s s' : Usage} (hs : Sound s) (h : s.step a = some s') : Sound s' := by
  rcases hs with hwf | hb
  · left
    cases Step.of_step h with
    | run _ hrun => exact (hwf.run hrun).1
    | @retrieved len => exact (hwf.retrieve len).1
    | threw => exact hwf
    | @readFd r alloc hfits => exact hwf.afterReadFd hfits alloc
  · right
    exact step_unusable hb h ▸ hb

theorem Sound.run {s₀ s : Usage} (hinit : Usage.create n alloc = some s₀)
    (h : Run Usage.step s₀ as s) : Sound s :=
  h.invariant (Sound.create hinit) fun _ _ _ => Sound.step

theorem step_of_wf {s : Usage} (h : s.buff.Wf) :
    (∀ op, (op.run s.buff).isSome = true → (s.step (.run op)).isSome = true) ∧
    ∀ r alloc, r.fits s.buff = true → (s.step (.readFd r alloc)).isSome = true := by
  constructor
  · intro op hrun
    rw [step, if_pos (h.inside hrun), Option.isSome_map]
    exact hrun
  · intro r alloc hfits
    rw [step, hfits, h.readFdInside hfits]
    rfl

end Usage
end MuduoStudy
