import MuduoStudy.Buffer

namespace MuduoStudy.Buff
set_option autoImplicit true

/-- `makeSpace` is reached and needs a bigger vector. -/
def grows (b : Buff) (len : Nat) : Bool :=
  b.writableBytes < len ∧
    sizeAdd b.writableBytes b.prependableBytes < sizeAdd len kCheapPrepend

def slides (b : Buff) (len : Nat) : Bool := b.writableBytes < len && !b.grows len

/-- `append`; the flag says whether there is memory for a bigger vector, if it is needed. -/
def appendIf (b : Buff) (alloc : Bool) (data : Source) : Option Buff :=
  if b.grows data.length && !alloc then none else b.append data

/-- `append` of `len` elements of `buf_` reads memory that has been given back, or tells
`std::copy` to write into what it still has to read. The flag says whether the vector grows within
its capacity. -/
def strays (b : Buff) (room : Bool) (offset len : Nat) : Bool :=
  b.grows len && !room ||
    (b.ensureWritableBytes len).any fun c =>
      offset ≤ c.writerIndex_ && c.writerIndex_ < offset + len

theorem append_of_appendIf {b b' : Buff} {data : Source} (h : b.appendIf alloc data = some b') :
    b.append data = some b' := by
  rw [appendIf] at h
  split at h
  · cases h
  · exact h

theorem Wf.grows_iff {b : Buff} (h : b.Wf) (hneed : len + kCheapPrepend < 2 ^ 64) :
    b.grows len = true ↔ b.buf_.length - b.writerIndex_ < len ∧
      b.buf_.length - b.writerIndex_ + b.readerIndex_ < len + kCheapPrepend := by
  rw [Buff.grows, decide_eq_true_eq, h.freeBytes, sizeAdd_of_lt hneed, h.writableBytes]

theorem Wf.grows {b : Buff} (h : b.Wf) (hlen : len < 2 ^ 63) : b.grows len = true ↔
    b.buf_.length - b.writerIndex_ < len ∧
      b.buf_.length - b.writerIndex_ + b.readerIndex_ < len + kCheapPrepend :=
  h.grows_iff (by simp only [kCheapPrepend]; omega)

theorem Wf.append_eq_none_iff {b : Buff} {data : Source} (h : b.Wf)
    (hlen : data.length < 2 ^ 63) : b.append data = none ↔
      b.grows data.length = true ∧ maxSize < b.writerIndex_ + data.length := by
  have hr := h.reader
  have hw := h.writer
  have hs := h.size_lt
  have hsize : sizeAdd data.length b.writerIndex_ = b.writerIndex_ + data.length := by
    rw [sizeAdd_of_lt (by omega), Nat.add_comm]
  rw [Buff.append, Option.map_eq_none_iff, Buff.ensureWritableBytes, Buff.grows, decide_eq_true_eq]
  by_cases hroom : b.writableBytes < data.length
  · rw [if_pos hroom, makeSpace]
    by_cases hgrow : sizeAdd b.writableBytes b.prependableBytes < sizeAdd data.length kCheapPrepend
    · rw [if_pos hgrow, hsize, Buff.resize]
      by_cases hmax : b.writerIndex_ + data.length ≤ maxSize
      · rw [if_pos hmax]
        exact ⟨fun hn => (Option.some_ne_none _ hn).elim, fun hn => (Nat.not_lt.2 hmax hn.2).elim⟩
      · rw [if_neg hmax]
        exact ⟨fun _ => ⟨⟨hroom, hgrow⟩, Nat.not_le.1 hmax⟩, fun _ => rfl⟩
    · rw [if_neg hgrow]
      exact ⟨fun hn => (Option.some_ne_none _ hn).elim, fun hn => (hgrow hn.1.2).elim⟩
  · rw [if_neg hroom]
    exact ⟨fun hn => (Option.some_ne_none _ hn).elim, fun hn => (hroom hn.1.1).elim⟩

theorem Wf.appendIf_eq_none_iff {b : Buff} {data : Source} (h : b.Wf)
    (hlen : data.length < 2 ^ 63) (alloc : Bool) : b.appendIf alloc data = none ↔
      b.grows data.length = true ∧ (alloc = false ∨ maxSize < b.writerIndex_ + data.length) := by
  have happend := h.append_eq_none_iff hlen
  rw [appendIf]
  cases hg : b.grows data.length with
  | false =>
    rw [hg] at happend
    rw [Bool.false_and, if_neg Bool.false_ne_true, happend]
    exact ⟨fun hn => (Bool.false_ne_true hn.1).elim, fun hn => (Bool.false_ne_true hn.1).elim⟩
  | true =>
    rw [hg] at happend
    cases alloc with
    | false => exact ⟨fun _ => ⟨rfl, .inl rfl⟩, fun _ => rfl⟩
    | true =>
      have hne : ¬ true = false := Bool.false_ne_true.symm
      exact happend.trans ⟨fun hn => ⟨rfl, .inr hn.2⟩, fun hn => ⟨rfl, hn.2.resolve_left hne⟩⟩

inductive Ensured (b : Buff) (len : Nat) : Buff → Prop where
  | stays : ¬ b.writableBytes < len → Ensured b len b
  | slides : b.slides len = true → kCheapPrepend < b.readerIndex_ → Ensured b len b.slide
  | grows : b.grows len = true → Ensured b len { b with
      buf_ := b.buf_ ++ List.replicate (len + b.writerIndex_ - b.buf_.length) 0 }

theorem Wf.ensured_cases {b c : Buff} (h : b.Wf) (hlen : len < 2 ^ 63)
    (hc : b.ensureWritableBytes len = some c) : Ensured b len c := by
  have hw := h.writer
  have hs := h.size_lt
  have hgrows := h.grows hlen
  have hwritable := h.writableBytes
  have hneed : sizeAdd len kCheapPrepend = len + kCheapPrepend :=
    sizeAdd_of_lt (by simp only [kCheapPrepend]; omega)
  have hsum : sizeAdd len b.writerIndex_ = len + b.writerIndex_ := sizeAdd_of_lt (by omega)
  by_cases hroom : b.writableBytes < len
  · rw [Buff.ensureWritableBytes, if_pos hroom, makeSpace, h.freeBytes, hneed, hsum] at hc
    by_cases hfree : b.buf_.length - b.writerIndex_ + b.readerIndex_ < len + kCheapPrepend
    · rw [if_pos hfree, Buff.resize, Option.ite_none_right_eq_some, Option.some.injEq,
        List.take_of_length_le (by omega)] at hc
      obtain ⟨-, rfl⟩ := hc
      exact .grows (hgrows.2 ⟨by omega, hfree⟩)
    · rw [if_neg hfree, Option.some.injEq] at hc
      subst c
      have hno : b.grows len = false := Bool.eq_false_iff.2 fun hg => hfree (hgrows.1 hg).2
      refine .slides ?_ (by omega)
      rw [Buff.slides, hno, decide_eq_true hroom]
      rfl
  · rw [Buff.ensureWritableBytes, if_neg hroom, Option.some.injEq] at hc
    exact hc ▸ .stays hroom

theorem Ensured.length_le {b c : Buff} (h : Ensured b len c) : b.buf_.length ≤ c.buf_.length := by
  cases h with
  | stays => exact Nat.le_refl _
  | slides => exact Nat.le_of_eq (Region.length_move _ _ _ _).symm
  | grows =>
    rw [List.length_append]
    exact Nat.le_add_right _ _

def storeAt (b : Buff) (len : Nat) : Nat :=
  if b.slides len then kCheapPrepend + b.readableBytes else b.writerIndex_

theorem Wf.storeAt {b c : Buff} (h : b.Wf) (hc : Ensured b len c) :
    c.writerIndex_ = b.storeAt len := by
  rw [Buff.storeAt]
  cases hc with
  | stays hroom =>
    rw [Buff.slides, decide_eq_false hroom]
    rfl
  | slides hslides hreader =>
    rw [if_pos hslides, (h.slide (Nat.le_of_lt hreader)).2.2.2, h.readableBytes]
    rfl
  | grows hgrows =>
    rw [Buff.slides, hgrows, Bool.not_true, Bool.and_false]
    rfl

/-- No byte from position `offset` on changes when `makeSpace` moves the readable ones over it. -/
def Unmoved (b : Buff) (offset len : Nat) : Prop :=
  ∀ k < len, kCheapPrepend ≤ offset + k → offset + k < kCheapPrepend + b.readableBytes →
    b.buf_[b.readerIndex_ + (offset + k - kCheapPrepend)]? = b.buf_[offset + k]?

instance (b : Buff) (offset len : Nat) : Decidable (b.Unmoved offset len) :=
  inferInstanceAs (Decidable (∀ k < len, _ → _ → _))

theorem Wf.unmoved_iff {b : Buff} (h : b.Wf) (hreader : kCheapPrepend < b.readerIndex_) :
    Region.slice b.slide.buf_ offset len = Region.slice b.buf_ offset len ↔
      b.Unmoved offset len := by
  have hr := h.reader
  have hw := h.writer
  have hlive := h.length_readable
  have hbytes := h.readableBytes
  have hmove : b.slide.buf_ = Region.write b.buf_ kCheapPrepend b.readable :=
    Region.move_eq_write (Nat.le_of_lt hreader) (by omega)
  rw [hmove, Region.slice_eq_iff]
  refine forall_congr' fun k => forall_congr' fun _ => ?_
  rw [Region.getElem?_write (by omega), ← hbytes]
  by_cases hin : kCheapPrepend ≤ offset + k ∧ offset + k < kCheapPrepend + b.readableBytes
  · have hget : b.readable[offset + k - kCheapPrepend]? =
        b.buf_[b.readerIndex_ + (offset + k - kCheapPrepend)]? := by
      rw [readable, Region.getElem?_slice, if_pos (by omega)]
    rw [if_pos hin, hget]
    exact ⟨fun heq _ _ => heq, fun heq => heq hin.1 hin.2⟩
  · rw [if_neg hin]
    exact ⟨fun _ hle hlt => (hin ⟨hle, hlt⟩).elim, fun _ => rfl⟩

/-- The bytes of `buf_` that `append` copies are those that were there when it was called, unless
`makeSpace` has moved others over them. -/
theorem Wf.own_bytes_iff {b c : Buff} (h : b.Wf) (hin : offset + len ≤ b.buf_.length)
    (hc : Ensured b len c) :
    Region.slice c.buf_ offset len = Region.slice b.buf_ offset len ↔
      (b.slides len = true → b.Unmoved offset len) := by
  cases hc with
  | stays hroom =>
    have hno : b.slides len = false := by rw [Buff.slides, decide_eq_false hroom, Bool.false_and]
    exact iff_of_true rfl fun hs => (Bool.false_ne_true (hno.symm.trans hs)).elim
  | slides hslides hreader =>
    rw [h.unmoved_iff hreader]
    exact ⟨fun hu _ => hu, fun hu => hu hslides⟩
  | grows hgrows =>
    have hno : b.slides len = false := by
      rw [Buff.slides, hgrows, Bool.not_true, Bool.and_false]
    exact iff_of_true (Region.slice_append_left hin _)
      fun hs => (Bool.false_ne_true (hno.symm.trans hs)).elim

/-- `append` reads only memory that is there and that it does not write at the same time. -/
theorem Wf.strays_iff {b : Buff} (h : b.Wf) (hlen : len < 2 ^ 63)
    (hc : b.ensureWritableBytes len = some c) : b.strays room offset len = false ↔
      (b.grows len = true → room = true) ∧
        ¬ (offset ≤ b.storeAt len ∧ b.storeAt len < offset + len) := by
  rw [strays, hc, Option.any_some, h.storeAt (h.ensured_cases hlen hc), Bool.or_eq_false_iff,
    Bool.and_eq_false_iff, Bool.and_eq_false_iff, decide_eq_false_iff_not, decide_eq_false_iff_not,
    ← not_and_or, Bool.not_eq_false']
  cases b.grows len <;> cases room <;> simp

end MuduoStudy.Buff
