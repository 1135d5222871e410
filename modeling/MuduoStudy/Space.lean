import MuduoStudy.ByteQueue

namespace MuduoStudy
set_option autoImplicit true

/-- An addition or a subtraction of two `size_t` values. -/
inductive SizeOp where
  | add (a b : Nat)
  | sub (a b : Nat)
  deriving DecidableEq

def SizeOp.Exact : SizeOp → Prop
  | .add a b => a + b < 2 ^ 64
  | .sub a b => b ≤ a

instance : (op : SizeOp) → Decidable op.Exact
  | .add a b => inferInstanceAs (Decidable (a + b < 2 ^ 64))
  | .sub a b => inferInstanceAs (Decidable (b ≤ a))

namespace Buff

/-- The additions and subtractions of `makeSpace(len)`, in order. -/
def makeSpaceOps (b : Buff) (len : Nat) : List SizeOp :=
  [.sub b.buf_.length b.writerIndex_, .add b.writableBytes b.prependableBytes,
    .add len kCheapPrepend] ++
  if sizeAdd b.writableBytes b.prependableBytes < sizeAdd len kCheapPrepend then
    [.add len b.writerIndex_]
  else [.sub b.writerIndex_ b.readerIndex_, .add kCheapPrepend b.readableBytes]

def ensureWritableBytesOps (b : Buff) (len : Nat) : List SizeOp :=
  .sub b.buf_.length b.writerIndex_ :: if b.writableBytes < len then b.makeSpaceOps len else []

/-- `ensureWritableBytes`; the flag says whether there is memory for a bigger vector, if
`resize` asks for one. -/
def ensureWritableBytesIf (b : Buff) (alloc : Bool) (len : Nat) : Option Buff :=
  if b.grows len && b.buf_.length < sizeAdd len b.writerIndex_ && !alloc then none
  else b.ensureWritableBytes len

/-- `ensureWritableBytes(len)` throws and leaves the buffer alone, or it makes room for `len` bytes
and keeps the readable ones, and no sum or difference on the way wraps around. -/
structure Ensures (b : Buff) (len : Nat) : Prop where
  space : ∀ alloc, b.attempt (b.ensureWritableBytesIf alloc len) = (b, .threw) ∨
    ∃ b', b.attempt (b.ensureWritableBytesIf alloc len) = (b', .done) ∧
      len ≤ b'.writableBytes ∧ b'.readable = b.readable
  exact : ∀ op ∈ b.ensureWritableBytesOps len, op.Exact

theorem Wf.exact_iff {b : Buff} (h : b.Wf) (len : Nat) :
    (∀ op ∈ b.ensureWritableBytesOps len, op.Exact) ↔
      len + kCheapPrepend < 2 ^ 64 ∧ len + b.writerIndex_ < 2 ^ 64 := by
  have hr := h.reader
  have hw := h.writer
  have hs := h.size_lt
  have hwritable := h.writableBytes
  by_cases hroom : b.writableBytes < len
  · have hfree : b.writableBytes + b.prependableBytes < 2 ^ 64 := by
      simp only [prependableBytes]
      omega
    rw [ensureWritableBytesOps, if_pos hroom, makeSpaceOps, h.freeBytes]
    split
    · simp only [List.forall_mem_cons, List.forall_mem_append, List.not_mem_nil, false_implies,
        implies_true, and_true, true_and, SizeOp.Exact, hw, hfree]
    · rename_i hgrow
      have hmoved : kCheapPrepend + b.readableBytes < 2 ^ 64 := by
        have hbound := h.bound
        rw [h.readableBytes]
        simp only [kCheapPrepend]
        omega
      have hsum (hneed : len + kCheapPrepend < 2 ^ 64) : len + b.writerIndex_ < 2 ^ 64 := by
        rw [sizeAdd_of_lt hneed] at hgrow
        simp only [kCheapPrepend] at hgrow
        omega
      simp only [List.forall_mem_cons, List.forall_mem_append, List.not_mem_nil, false_implies,
        implies_true, and_true, true_and, SizeOp.Exact, hw, hr, hfree, hmoved]
      exact ⟨fun hneed => ⟨hneed, hsum hneed⟩, And.left⟩
  · have hneed : len + kCheapPrepend < 2 ^ 64 := by
      simp only [kCheapPrepend]
      omega
    rw [ensureWritableBytesOps, if_neg hroom]
    exact iff_of_true (List.forall_mem_singleton.2 hw) ⟨hneed, by omega⟩

/-- `ensureWritableBytes` keeps its promise exactly where `len + kCheapPrepend` and
`len + writerIndex_` do not wrap around. -/
theorem ensureWritableBytes_iff {b : Buff} (h : b.Wf) (len : Nat) :
    Ensures b len ↔ len + kCheapPrepend < 2 ^ 64 ∧ len + b.writerIndex_ < 2 ^ 64 := by
  constructor
  · intro hensures
    exact (h.exact_iff len).1 hensures.exact
  · rintro ⟨hneed, hsum⟩
    refine ⟨?_, (h.exact_iff len).2 ⟨hneed, hsum⟩⟩
    intro alloc
    cases hb : b.ensureWritableBytesIf alloc len with
    | none => exact .inl rfl
    | some b' =>
      have hcall : b.ensureWritableBytes len = some b' := by
        rw [ensureWritableBytesIf] at hb
        split at hb
        · cases hb
        · exact hb
      obtain ⟨hwf, hread, hroom⟩ := h.ensured hneed hsum hcall
      have hspace : len ≤ b'.writableBytes := by
        rw [hwf.writableBytes]
        omega
      exact .inr ⟨b', rfl, hspace, hread⟩

theorem ensureWritableBytes_example : Ensures (new 10) 100 :=
  (ensureWritableBytes_iff (Wf.new (by decide)) 100).2 (by decide)

/-- With `SIZE_MAX` the test compares with 7, and the call returns without any room. -/
theorem ensureWritableBytes_wraps : ¬ ∀ (b : Buff) (len : Nat), b.Wf → len < 2 ^ 64 →
    Ensures b len := by
  intro h
  have hensures := h (new 0) (2 ^ 64 - 1) (Wf.new (by decide)) (by decide)
  have hcall : (new 0).attempt ((new 0).ensureWritableBytesIf true (2 ^ 64 - 1)) =
      (new 0, .done) := by
    decide +kernel
  have hnone : ¬ 2 ^ 64 - 1 ≤ (new 0).writableBytes := by decide +kernel
  rcases hensures.space true with hthrew | ⟨b', hdone, hspace, _⟩
  · rw [hcall] at hthrew
    cases hthrew
  · rw [hcall] at hdone
    cases hdone
    exact hnone hspace

theorem Wf.ensureWritableBytes_eq_none_iff {b : Buff} (h : b.Wf) (hlarge : 2 ^ 63 ≤ len)
    (hlen : len < 2 ^ 64) : b.ensureWritableBytes len = none ↔
      len + kCheapPrepend < 2 ^ 64 ∧ len + b.writerIndex_ < 2 ^ 64 := by
  have hp := h.prepend
  have hr := h.reader
  have hw := h.writer
  have hs := h.size_lt
  have hwritable := h.writableBytes
  have hneed : sizeAdd len kCheapPrepend = (len + 8) % 2 ^ 64 := rfl
  have hsum : sizeAdd len b.writerIndex_ = (len + b.writerIndex_) % 2 ^ 64 := rfl
  simp only [kCheapPrepend] at hp
  rw [Buff.ensureWritableBytes, if_pos (by omega), makeSpace, h.freeBytes]
  by_cases hgrow :
      b.buf_.length - b.writerIndex_ + b.readerIndex_ < sizeAdd len kCheapPrepend
  · rw [if_pos hgrow, Buff.resize, ite_eq_right_iff, maxSize]
    simp only [reduceCtorEq, imp_false, kCheapPrepend]
    omega
  · rw [if_neg hgrow]
    simp only [reduceCtorEq, false_iff, kCheapPrepend]
    omega

/-- Where a sum wraps around, the call returns, and the bytes do not fit behind `beginWrite()`. -/
theorem Wf.returns_without_room {b : Buff} (h : b.Wf) (hlen : len < 2 ^ 64)
    (hwrap : ¬ (len + kCheapPrepend < 2 ^ 64 ∧ len + b.writerIndex_ < 2 ^ 64)) :
    ∃ b', b.ensureWritableBytes len = some b' ∧ b'.buf_.length < b'.writerIndex_ + len := by
  have hw := h.writer
  have hs := h.size_lt
  have hlarge : 2 ^ 63 ≤ len := by
    simp only [kCheapPrepend] at hwrap
    omega
  have hsize (b' : Buff) (hb : b.ensureWritableBytes len = some b') :
      b'.buf_.length < 2 ^ 63 := by
    rw [Buff.ensureWritableBytes] at hb
    split at hb
    · rw [makeSpace] at hb
      split at hb
      · rw [Buff.resize, Option.ite_none_right_eq_some, Option.some.injEq] at hb
        obtain ⟨hmax, rfl⟩ := hb
        simp only [maxSize] at hmax
        simp only [List.length_append, List.length_take, List.length_replicate]
        omega
      · cases hb
        rw [Buff.slide, Region.length_move]
        exact hs
    · cases hb
      exact hs
  cases hb : b.ensureWritableBytes len with
  | none => exact (hwrap ((h.ensureWritableBytes_eq_none_iff hlarge hlen).1 hb)).elim
  | some b' =>
    have hsmall := hsize b' hb
    exact ⟨b', rfl, by omega⟩

/-- Where `ensureWritableBytes` calls `makeSpace` and no sum wraps around, the live bytes move
towards the front and none is overwritten before it has been moved, or else the vector grows. -/
theorem makeSpace_sound {b : Buff} (h : b.Wf) (hneed : len + kCheapPrepend < 2 ^ 64)
    (hsum : len + b.writerIndex_ < 2 ^ 64) (hcall : b.writableBytes < len) :
    (b.grows len = false → b.makeSpace len = some b.slide ∧
      kCheapPrepend < b.readerIndex_ ∧ b.slide.readable = b.readable ∧
      b.slide.buf_ = Region.move b.buf_ b.readerIndex_ kCheapPrepend b.readable.length ∧
      ∀ k ≤ b.readable.length,
        Region.slice (Region.move b.buf_ b.readerIndex_ kCheapPrepend k) (b.readerIndex_ + k)
          (b.readable.length - k) = b.readable.drop k) ∧
    (b.grows len = true → b.makeSpace len = b.resize (len + b.writerIndex_) ∧
      b.buf_.length < len + b.writerIndex_ ∧
      ((b.makeSpace len).isSome = true ↔ len + b.writerIndex_ ≤ maxSize) ∧
      ∀ b', b.makeSpace len = some b' → b.buf_.length < b'.buf_.length) := by
  have hr := h.reader
  have hw := h.writer
  have hread := h.length_readable
  have hroom : b.buf_.length - b.writerIndex_ < len := h.writableBytes ▸ hcall
  have hgrows := h.grows_iff hneed
  rw [makeSpace, h.freeBytes, sizeAdd_of_lt hneed, sizeAdd_of_lt hsum]
  constructor
  · intro hslide
    rw [hslide] at hgrows
    have hfree : ¬ b.buf_.length - b.writerIndex_ + b.readerIndex_ < len + kCheapPrepend :=
      fun hlt => Bool.false_ne_true (hgrows.2 ⟨hroom, hlt⟩)
    have hreader : kCheapPrepend < b.readerIndex_ := by omega
    refine ⟨if_neg hfree, hreader, (h.slide (Nat.le_of_lt hreader)).2.1,
      by rw [slide, hread], ?_⟩
    intro k hk
    rw [Region.slice_move_behind (Nat.le_of_lt hreader) (by omega), readable, Region.drop_slice,
      Region.length_slice (by omega)]
  · intro hgrow
    have hfree := (hgrows.1 hgrow).2
    have hbigger : b.buf_.length < len + b.writerIndex_ := by omega
    rw [if_pos hfree]
    have hreturns : (b.resize (len + b.writerIndex_)).isSome = true ↔
        len + b.writerIndex_ ≤ maxSize := by
      rw [Buff.resize, Option.isSome_ite]
    refine ⟨rfl, hbigger, hreturns, ?_⟩
    intro b' hb
    obtain ⟨_, _, hsize, _⟩ := h.resize (Nat.le_of_lt hbigger) hb
    omega

/-- Twenty live bytes at the end of a vector of 64 slide to the front, or the vector grows. -/
theorem makeSpace_sound_example :
    ((⟨List.replicate 64 1, 40, 60⟩ : Buff).makeSpace 30 =
        some (⟨List.replicate 64 1, 40, 60⟩ : Buff).slide) ∧
      ∀ b', (⟨List.replicate 64 1, 40, 60⟩ : Buff).makeSpace 50 = some b' →
        64 < b'.buf_.length := by
  have hwf : (⟨List.replicate 64 1, 40, 60⟩ : Buff).Wf := by
    refine ⟨?_, ?_, ?_, ?_⟩ <;> decide
  exact ⟨((makeSpace_sound hwf (by decide) (by decide) (by decide)).1 (by decide)).1,
    ((makeSpace_sound hwf (by decide) (by decide) (by decide)).2 (by decide)).2.2.2⟩

end Buff
end MuduoStudy
