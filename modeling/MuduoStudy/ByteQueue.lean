import MuduoStudy.Append
import MuduoStudy.Search
import MuduoStudy.Transition

namespace MuduoStudy
open Transition
set_option autoImplicit true

namespace Buff

def kCRLF : List UInt8 := [13, 10]

/-- The constructor, with `std::vector`'s check of the size; the flag says whether there is memory
for the vector. -/
def construct (initialSize : Nat) (alloc : Bool) : Option Buff :=
  if sizeAdd kCheapPrepend initialSize ≤ maxSize ∧ alloc then some (new initialSize) else none

/-- `findCRLF(start)`; the other `findCRLF` starts at `peek()`. Pointers are positions in `buf_`. -/
def findCRLF (b : Buff) (start : Nat) : Option Nat :=
  let crlf := Region.search b.buf_ kCRLF start (b.writerIndex_ - start)
  if crlf = b.writerIndex_ then none else some crlf

def findEOL (b : Buff) (start : Nat) : Option Nat :=
  Region.memchr b.buf_ 10 start (b.writerIndex_ - start)

def retrieveUntil (b : Buff) (stop : Nat) : Buff := b.retrieve (sizeSub stop b.readerIndex_)

def retrieveAsString (b : Buff) (len : Nat) : List UInt8 × Buff := (b.peek len, b.retrieve len)

def unwrite (b : Buff) (len : Nat) : Buff :=
  { b with writerIndex_ := sizeSub b.writerIndex_ len }

def prepend (b : Buff) (data : List UInt8) : Buff :=
  let readerIndex := sizeSub b.readerIndex_ data.length
  { b with buf_ := Region.write b.buf_ readerIndex data, readerIndex_ := readerIndex }

/-- The public operations of one buffer. The flag of those that may need a bigger vector says
whether there is memory for it. -/
inductive Op where
  | append (data : Block) (alloc : Bool)
  -- `append` of elements of `buf_`; `room` says whether the capacity suffices where it grows
  | appendOwn (offset len : Nat) (alloc room : Bool)
  | prepend (data : List UInt8)
  -- `prepend` of elements of `buf_`
  | prependOwn (offset len : Nat)
  | retrieve (len : Nat)
  -- with the distance from `peek()`, as the `find` operations
  | retrieveUntil (n : Nat)
  | retrieveAll
  | retrieveAsString (len : Nat)
  | ensureWritableBytes (len : Nat) (alloc : Bool)
  -- the caller stores the data at `beginWrite()` and calls `hasWritten(len)`
  | write (data : List UInt8) (len : Nat)
  | unwrite (len : Nat)
  | findCRLF (n : Nat)
  | findEOL (n : Nat)
  deriving DecidableEq

/-- What an operation yields. A position is given by its distance from `peek()`. -/
inductive Result where
  | done
  | threw
  -- the behaviour is undefined
  | undefined
  | string (s : List UInt8)
  | position (n : Option Nat)
  deriving DecidableEq

/-- An operation that throws leaves the buffer as it is. -/
def attempt (b : Buff) : Option Buff → Buff × Result
  | some b' => (b', .done)
  | none => (b, .threw)

/-- An operation whose arguments are in the ranges that the buffer reports. -/
def Op.run (b : Buff) : Op → Option (Buff × Result)
  | .append data alloc =>
    some (b.attempt (b.appendIf alloc data.bytes))
  | .appendOwn offset len alloc room =>
    if offset + len ≤ b.buf_.length then
      match b.appendIf alloc (.inside offset len) with
      | some b' => some (b', if b.strays room offset len then .undefined else .done)
      | none => some (b, .threw)
    else none
  | .prepend data =>
    if data.length ≤ b.prependableBytes then some (b.prepend data, .done) else none
  | .prependOwn offset len =>
    if len ≤ b.prependableBytes ∧ offset + len ≤ b.buf_.length then
      -- `std::copy` must not begin to write inside of what it reads
      let start := sizeSub b.readerIndex_ len
      some (b.prepend (Region.slice b.buf_ offset len),
        if offset ≤ start ∧ start < offset + len then .undefined else .done)
    else none
  | .retrieve len => some (b.retrieve len, .done)
  | .retrieveUntil n =>
    if n ≤ b.readableBytes then some (b.retrieveUntil (b.readerIndex_ + n), .done) else none
  | .retrieveAll => some (b.retrieveAll, .done)
  | .retrieveAsString len =>
    if len ≤ b.readableBytes then
      some ((b.retrieveAsString len).2, .string (b.retrieveAsString len).1)
    else none
  | .ensureWritableBytes len alloc =>
    if len < 2 ^ 63 then
      some (b.attempt (if b.grows len && !alloc then none else b.ensureWritableBytes len))
    else none
  | .write data len =>
    if data.length ≤ b.writableBytes ∧ len ≤ data.length then
      some ({ b with buf_ := Region.write b.buf_ b.writerIndex_ data }.hasWritten len, .done)
    else none
  | .unwrite len => if len ≤ b.readableBytes then some (b.unwrite len, .done) else none
  | .findCRLF n =>
    if n ≤ b.readableBytes then
      some (b, .position ((b.findCRLF (b.readerIndex_ + n)).map (· - b.readerIndex_)))
    else none
  | .findEOL n =>
    if n ≤ b.readableBytes then
      some (b, .position ((b.findEOL (b.readerIndex_ + n)).map (· - b.readerIndex_)))
    else none

/-- The operation on a byte queue, while `buf_` has the elements `buf`. -/
def Op.spec (buf q : List UInt8) : Op → List UInt8 × Result
  | .append data _ => (q ++ data.bytes, .done)
  | .appendOwn offset len _ _ => (q ++ Region.slice buf offset len, .done)
  | .prepend data => (data ++ q, .done)
  | .prependOwn offset len => (Region.slice buf offset len ++ q, .done)
  | .retrieve len | .retrieveUntil len => (q.drop len, .done)
  | .retrieveAll => ([], .done)
  | .retrieveAsString len => (q.drop len, .string (q.take len))
  | .ensureWritableBytes _ _ => (q, .done)
  | .write data len => (q ++ data.take len, .done)
  | .unwrite len => (q.take (q.length - len), .done)
  | .findCRLF n => (q, .position ((Region.firstOffset kCRLF (q.drop n)).map (n + ·)))
  | .findEOL n => (q, .position ((Region.firstOffset [10] (q.drop n)).map (n + ·)))

/-- `append` of elements of `buf_` throws, or it copies what was there when it was called: the
vector does not leave its memory, `std::copy` does not begin to write inside of what it reads, and
`makeSpace` moves no other bytes over the elements. `prepend` needs the second of these. -/
def Op.Apart (b : Buff) : Op → Prop
  | .appendOwn offset len alloc room =>
    (b.grows len = true ∧ (alloc = false ∨ maxSize < b.writerIndex_ + len)) ∨
      ((b.grows len = true → room = true) ∧
        ¬ (offset ≤ b.storeAt len ∧ b.storeAt len < offset + len)) ∧
      (b.slides len = true → b.Unmoved offset len)
  | .prependOwn offset len =>
    ¬ (offset ≤ b.readerIndex_ - len ∧ b.readerIndex_ - len < offset + len)
  | .append .. | .prepend _ | .retrieve _ | .retrieveUntil _ | .retrieveAll | .retrieveAsString _
  | .ensureWritableBytes .. | .write .. | .unwrite _ | .findCRLF _ | .findEOL _ => True

instance (b : Buff) : (op : Op) → Decidable (op.Apart b)
  | .appendOwn .. => inferInstanceAs (Decidable (_ ∧ _ ∨ (_ ∧ _) ∧ (_ → _)))
  | .prependOwn .. => inferInstanceAs (Decidable (¬ (_ ∧ _)))
  | .append .. | .prepend _ | .retrieve _ | .retrieveUntil _ | .retrieveAll | .retrieveAsString _
  | .ensureWritableBytes .. | .write .. | .unwrite _ | .findCRLF _ | .findEOL _ =>
    inferInstanceAs (Decidable True)

inductive Op.Changes (b : Buff) : Op → Buff → Prop where
  -- also by an operation that throws
  | same : Changes b op b
  | append : b.append data.bytes = some b' → Changes b (.append data alloc) b'
  | appendOwn : offset + len ≤ b.buf_.length → b.append (.inside offset len) = some b' →
      Changes b (.appendOwn offset len alloc room) b'
  | ensureWritableBytes : len < 2 ^ 63 → b.ensureWritableBytes len = some b' →
      Changes b (.ensureWritableBytes len alloc) b'
  | prepend : data.length ≤ b.readerIndex_ → Changes b (.prepend data) (b.prepend data)
  | prependOwn : len ≤ b.readerIndex_ → offset + len ≤ b.buf_.length →
      Changes b (.prependOwn offset len) (b.prepend (Region.slice b.buf_ offset len))
  | write : data.length ≤ b.writableBytes → len ≤ data.length → Changes b (.write data len)
      ({ b with buf_ := Region.write b.buf_ b.writerIndex_ data }.hasWritten len)
  | retrieve : Changes b (.retrieve len) (b.retrieve len)
  | retrieveUntil : Changes b (.retrieveUntil n) (b.retrieveUntil (b.readerIndex_ + n))
  | retrieveAll : Changes b .retrieveAll b.retrieveAll
  | retrieveAsString : Changes b (.retrieveAsString len) (b.retrieve len)
  | unwrite : len ≤ b.readableBytes → Changes b (.unwrite len) (b.unwrite len)

theorem Op.threw_keeps {b b' : Buff} {op : Op} (h : op.run b = some (b', .threw)) : b' = b := by
  have hattempt {o : Option Buff} (ho : b.attempt o = (b', .threw)) : b' = b := by
    cases o with
    | none => exact (congrArg Prod.fst ho).symm
    | some => cases congrArg Prod.snd ho
  cases op with
  | append => exact hattempt (Option.some.inj h)
  | appendOwn offset len alloc room =>
    rw [Op.run, Option.ite_none_right_eq_some] at h
    obtain ⟨-, h⟩ := h
    split at h
    · split at h <;> cases congrArg Prod.snd (Option.some.inj h)
    · exact (congrArg Prod.fst (Option.some.inj h)).symm
  | ensureWritableBytes =>
    rw [Op.run, Option.ite_none_right_eq_some] at h
    exact hattempt (Option.some.inj h.2)
  | prependOwn offset len =>
    simp only [Op.run, Option.ite_none_right_eq_some, Option.some.injEq, Prod.mk.injEq] at h
    obtain ⟨-, -, hr⟩ := h
    split at hr <;> cases hr
  | retrieve | retrieveAll => cases h
  | _ =>
    simp only [Op.run, Option.ite_none_right_eq_some, Option.some.injEq, Prod.mk.injEq] at h
    obtain ⟨-, -, hr⟩ := h
    cases hr

theorem Op.Changes.of_run {b b' : Buff} {op : Op} (h : op.run b = some (b', r)) :
    op.Changes b b' := by
  cases op with
  | append data alloc =>
    rw [Op.run, Option.some.injEq] at h
    cases hb : b.appendIf alloc data.bytes with
    | none =>
      rw [hb] at h
      cases h
      exact .same
    | some c =>
      rw [hb] at h
      cases h
      exact .append (append_of_appendIf hb)
  | appendOwn offset len alloc room =>
    rw [Op.run, Option.ite_none_right_eq_some] at h
    obtain ⟨hin, h⟩ := h
    cases hb : b.appendIf alloc (.inside offset len) with
    | none =>
      rw [hb] at h
      cases h
      exact .same
    | some c =>
      rw [hb] at h
      cases h
      exact .appendOwn hin (append_of_appendIf hb)
  | ensureWritableBytes len alloc =>
    simp only [Op.run, Option.ite_none_right_eq_some, Option.some.injEq] at h
    obtain ⟨hlen, h⟩ := h
    split at h
    · cases h
      exact .same
    · cases hb : b.ensureWritableBytes len with
      | none =>
        rw [hb] at h
        cases h
        exact .same
      | some c =>
        rw [hb] at h
        cases h
        exact .ensureWritableBytes hlen hb
  | retrieve len =>
    cases h
    exact .retrieve
  | retrieveAll =>
    cases h
    exact .retrieveAll
  | prepend data =>
    simp only [Op.run, Option.ite_none_right_eq_some, Option.some.injEq, Prod.mk.injEq] at h
    obtain ⟨hdata, rfl, _⟩ := h
    exact .prepend hdata
  | prependOwn offset len =>
    simp only [Op.run, Option.ite_none_right_eq_some, Option.some.injEq, Prod.mk.injEq] at h
    obtain ⟨⟨hlen, hin⟩, rfl, _⟩ := h
    exact .prependOwn hlen hin
  | write data len =>
    simp only [Op.run, Option.ite_none_right_eq_some, Option.some.injEq, Prod.mk.injEq] at h
    obtain ⟨⟨hdata, hlen⟩, rfl, _⟩ := h
    exact .write hdata hlen
  | retrieveUntil n =>
    simp only [Op.run, Option.ite_none_right_eq_some, Option.some.injEq, Prod.mk.injEq] at h
    obtain ⟨_, rfl, _⟩ := h
    exact .retrieveUntil
  | retrieveAsString len =>
    simp only [Op.run, Option.ite_none_right_eq_some, Option.some.injEq, Prod.mk.injEq] at h
    obtain ⟨_, rfl, _⟩ := h
    exact .retrieveAsString
  | unwrite len =>
    simp only [Op.run, Option.ite_none_right_eq_some, Option.some.injEq, Prod.mk.injEq] at h
    obtain ⟨hlen, rfl, _⟩ := h
    exact .unwrite hlen
  | findCRLF n | findEOL n =>
    simp only [Op.run, Option.ite_none_right_eq_some, Option.some.injEq, Prod.mk.injEq] at h
    obtain ⟨_, rfl, _⟩ := h
    exact .same

theorem Wf.readerIndex_sub {b : Buff} (h : b.Wf) (hlen : len ≤ b.readerIndex_) :
    sizeSub b.readerIndex_ len = b.readerIndex_ - len := by
  have hr := h.reader
  have hw := h.writer
  have hs := h.size_lt
  exact sizeSub_of_le hlen (by omega)

theorem Wf.prepended {b : Buff} (h : b.Wf) (hdata : data.length ≤ b.readerIndex_) :
    (b.prepend data).Wf ∧ (b.prepend data).readable = data ++ b.readable ∧
      (b.prepend data).buf_.length = b.buf_.length := by
  have hr := h.reader
  have hw := h.writer
  have hreader := h.readerIndex_sub hdata
  have hsize : (Region.write b.buf_ (b.readerIndex_ - data.length) data).length =
      b.buf_.length := Region.length_write (by omega)
  have hread : Region.slice (Region.write b.buf_ (b.readerIndex_ - data.length) data)
      (b.readerIndex_ - data.length) (b.writerIndex_ - (b.readerIndex_ - data.length)) =
        data ++ b.readable := by
    have hcount : b.writerIndex_ - (b.readerIndex_ - data.length) =
        data.length + (b.writerIndex_ - b.readerIndex_) := by omega
    have hstart : b.readerIndex_ - data.length + data.length = b.readerIndex_ := by omega
    rw [hcount, Region.slice_write_front (by omega), hstart]
    rfl
  simp only [Buff.prepend, hreader]
  exact ⟨⟨hsize ▸ h.prepend, by simp only; omega, hsize ▸ h.writer, hsize ▸ h.capacity⟩, hread,
    hsize⟩

theorem Wf.unwrite {b : Buff} (h : b.Wf) (hlen : len ≤ b.readable.length) :
    (b.unwrite len).Wf ∧
      (b.unwrite len).readable = b.readable.take (b.readable.length - len) := by
  have hread := h.length_readable
  have hr := h.reader
  have hw := h.writer
  have hs := h.size_lt
  have hwriter : sizeSub b.writerIndex_ len = b.writerIndex_ - len :=
    sizeSub_of_le (by omega) (by omega)
  have htake : Region.slice b.buf_ b.readerIndex_ (b.writerIndex_ - len - b.readerIndex_) =
      b.readable.take (b.readable.length - len) := by
    rw [hread, readable, Region.slice, Region.slice, List.take_take]
    congr 1
    omega
  simp only [Buff.unwrite, hwriter]
  exact ⟨⟨h.prepend, by simp only; omega, by simp only; omega, h.capacity⟩, htake⟩

theorem Wf.write {b : Buff} (h : b.Wf) (hdata : data.length ≤ b.buf_.length - b.writerIndex_)
    (hlen : len ≤ data.length) :
    ({ b with buf_ := Region.write b.buf_ b.writerIndex_ data }.hasWritten len).Wf ∧
    ({ b with buf_ := Region.write b.buf_ b.writerIndex_ data }.hasWritten len).readable =
      b.readable ++ data.take len := by
  have hr := h.reader
  have hw := h.writer
  have hs := h.size_lt
  have hwriter : sizeAdd b.writerIndex_ len = b.writerIndex_ + len :=
    sizeAdd_of_lt (by omega)
  have hsize : (Region.write b.buf_ b.writerIndex_ data).length = b.buf_.length :=
    Region.length_write (by omega)
  have hread : Region.slice (Region.write b.buf_ b.writerIndex_ data) b.readerIndex_
      (b.writerIndex_ + len - b.readerIndex_) = b.readable ++ data.take len := by
    have hcount : b.writerIndex_ + len - b.readerIndex_ =
        b.writerIndex_ - b.readerIndex_ + len := by omega
    have hstart : b.readerIndex_ + (b.writerIndex_ - b.readerIndex_) = b.writerIndex_ := by omega
    have htail : Region.slice (Region.write b.buf_ b.writerIndex_ data) b.writerIndex_ len =
        data.take len := by
      have hall : Region.slice (Region.write b.buf_ b.writerIndex_ data) b.writerIndex_
          data.length = data := Region.slice_write_same hw
      rw [← Region.take_slice hlen, hall]
    rw [hcount, Region.slice_add, hstart, htail, Region.slice_write_before hw (by omega)]
    rfl
  simp only [hasWritten, hwriter]
  exact ⟨⟨hsize ▸ h.prepend, by simp only; omega, by simp only [hsize]; omega,
    hsize ▸ h.capacity⟩, hread⟩

theorem Wf.readable_drop {b : Buff} (n : Nat) : b.readable.drop n =
    Region.slice b.buf_ (b.readerIndex_ + n) (b.writerIndex_ - (b.readerIndex_ + n)) := by
  rw [readable, Region.drop_slice, Nat.sub_add_eq]

theorem Wf.findCRLF {b : Buff} (h : b.Wf) (hn : n ≤ b.readable.length) :
    (b.findCRLF (b.readerIndex_ + n)).map (· - b.readerIndex_) =
      (Region.firstOffset kCRLF (b.readable.drop n)).map (n + ·) := by
  have hread := h.length_readable
  have hr := h.reader
  have hw := h.writer
  have hsearch : Region.search b.buf_ kCRLF (b.readerIndex_ + n)
      (b.writerIndex_ - (b.readerIndex_ + n)) = _ :=
    Region.search_eq (List.cons_ne_nil _ _) (by omega)
  rw [← Wf.readable_drop] at hsearch
  rw [Buff.findCRLF, hsearch]
  cases hf : Region.firstOffset kCRLF (b.readable.drop n) with
  | none =>
    have hend : b.readerIndex_ + n + (b.writerIndex_ - (b.readerIndex_ + n)) = b.writerIndex_ := by
      omega
    simp only [Option.getD_none, hend, ↓reduceIte, Option.map_none]
  | some i =>
    have hle := Region.firstOffset_le hf
    rw [List.length_drop, kCRLF, List.length_cons, List.length_singleton] at hle
    have hne : b.readerIndex_ + n + i ≠ b.writerIndex_ := by omega
    have hposition : b.readerIndex_ + n + i - b.readerIndex_ = n + i := by omega
    simp only [Option.getD_some, hne, ↓reduceIte, Option.map_some, hposition]

theorem Wf.findEOL {b : Buff} (h : b.Wf) (hn : n ≤ b.readable.length) :
    (b.findEOL (b.readerIndex_ + n)).map (· - b.readerIndex_) =
      (Region.firstOffset [10] (b.readable.drop n)).map (n + ·) := by
  have hread := h.length_readable
  have hr := h.reader
  have hw := h.writer
  have hposition : (fun i => b.readerIndex_ + n + i - b.readerIndex_) = (n + ·) := by
    funext i
    omega
  rw [Buff.findEOL, Region.memchr_eq 10 (by omega), ← Wf.readable_drop, Option.map_map]
  exact congrArg (fun f => Option.map f _) hposition

theorem construct_wf_iff {b : Buff} (hn : n < 2 ^ 64) (h : construct n alloc = some b) :
    b.readable = [] ∧ (b.Wf ↔ n + 8 < 2 ^ 64) := by
  rw [construct, Option.ite_none_right_eq_some, Option.some.injEq] at h
  obtain ⟨⟨hmax, -⟩, rfl⟩ := h
  have hlen : (new n).buf_.length = sizeAdd kCheapPrepend n := List.length_replicate
  refine ⟨readable_new n, ?_, ?_⟩
  · intro hwf
    have hprepend := hwf.prepend
    rw [hlen] at hprepend
    simp only [sizeAdd, kCheapPrepend] at hprepend
    omega
  · intro hfit
    have hprepend : kCheapPrepend ≤ (new n).buf_.length := by
      rw [hlen, sizeAdd_of_lt (by simp only [kCheapPrepend]; omega)]
      exact Nat.le_add_right _ _
    exact ⟨hprepend, Nat.le_refl _, hprepend, hlen ▸ hmax⟩

/-- The operation does to the readable bytes what it does to a byte queue, or it throws and leaves
the buffer alone. -/
structure Refines (b : Buff) (op : Op) (b' : Buff) (r : Result) : Prop where
  wf : b'.Wf
  result : r = .threw ∧ b' = b ∨ r ≠ .threw ∧ (b'.readable, r) = op.spec b.buf_ b.readable

theorem Refines.returned {b b' : Buff} {op : Op} (hwf : b'.Wf) (hr : r ≠ .threw)
    (h : (b'.readable, r) = op.spec b.buf_ b.readable) : Refines b op b' r :=
  ⟨hwf, .inr ⟨hr, h⟩⟩

theorem Refines.done {b b' : Buff} {op : Op} (hwf : b'.Wf)
    (h : (b'.readable, .done) = op.spec b.buf_ b.readable) : Refines b op b' .done := by
  apply Refines.returned hwf _ h
  intro hr
  cases hr

theorem Refines.defined {b b' : Buff} {op : Op} (h : Refines b op b' r) : r ≠ .undefined := by
  rintro rfl
  rcases h.result with ⟨hr, -⟩ | ⟨-, hspec⟩
  · cases hr
  · have hresult := congrArg Prod.snd hspec
    cases op <;> cases hresult

theorem Refines.attempt {b : Buff} {op : Op} {o : Option Buff} (h : b.Wf)
    (ho : ∀ b', o = some b' → b'.Wf ∧ (b'.readable, .done) = op.spec b.buf_ b.readable) :
    Refines b op (b.attempt o).1 (b.attempt o).2 := by
  cases o with
  | none => exact ⟨h, .inl ⟨rfl, rfl⟩⟩
  | some b' =>
    obtain ⟨hwf, hspec⟩ := ho b' rfl
    exact ⟨hwf, .inr ⟨nofun, hspec⟩⟩

theorem Wf.own_append {b b' : Buff} (h : b.Wf) (hin : offset + len ≤ b.buf_.length)
    (hb : b.append (.inside offset len) = some b') :
    b'.Wf ∧ ∃ c, b.ensureWritableBytes len = some c ∧ Ensured b len c ∧
      b'.readable = b.readable ++ Region.slice c.buf_ offset len ∧
      b'.buf_.length = c.buf_.length := by
  have hs := h.size_lt
  have hlen : (Source.inside offset len).length < 2 ^ 63 := by
    simp only [Source.length]
    omega
  obtain ⟨c, hc, -⟩ := Option.map_eq_some_iff.1 hb
  have hensured := h.ensured_cases hlen hc
  have hle := hensured.length_le
  have hdata : ((Source.inside offset len).bytes c.buf_).length =
      (Source.inside offset len).length :=
    Region.length_slice (by omega)
  obtain ⟨hwf, hread, hsize⟩ := h.copied hlen hc hdata hb
  exact ⟨hwf, c, hc, hensured, hread, hsize⟩

theorem Wf.run_own {b b' : Buff} (h : b.Wf)
    (hrun : (Op.appendOwn offset len alloc room).run b = some (b', r)) : b'.Wf ∧
      (Refines b (.appendOwn offset len alloc room) b' r ↔
        (Op.appendOwn offset len alloc room).Apart b) := by
  rw [Op.run, Option.ite_none_right_eq_some] at hrun
  obtain ⟨hin, hrun⟩ := hrun
  have hs := h.size_lt
  have hlen : len < 2 ^ 63 := by omega
  have hthrows := h.appendIf_eq_none_iff (show (Source.inside offset len).length < 2 ^ 63 from hlen)
    alloc
  cases hb : b.appendIf alloc (.inside offset len) with
  | none =>
    rw [hb] at hrun
    cases hrun
    exact ⟨h, iff_of_true ⟨h, .inl ⟨rfl, rfl⟩⟩ (.inl (hthrows.1 hb))⟩
  | some c' =>
    rw [hb] at hrun
    cases hrun
    obtain ⟨hwf, c, hc, hensured, hread, -⟩ := h.own_append hin (append_of_appendIf hb)
    have hreturns : ¬ (b.grows len = true ∧ (alloc = false ∨ maxSize < b.writerIndex_ + len)) := by
      intro hn
      cases hb.symm.trans (hthrows.2 hn)
    have hdone : (b'.readable, Result.done) =
        (Op.appendOwn offset len alloc room).spec b.buf_ b.readable ↔
          (b.slides len = true → b.Unmoved offset len) := by
      rw [← h.own_bytes_iff hin hensured, Op.spec, hread, Prod.mk.injEq, List.append_cancel_left_eq]
      exact and_iff_left rfl
    have hstrays : b.strays room offset len = false ↔ _ := h.strays_iff hlen hc
    refine ⟨hwf, ?_⟩
    rw [Op.Apart, or_iff_right hreturns, ← hstrays]
    cases hstray : b.strays room offset len with
    | true =>
      exact iff_of_false (fun href => href.defined rfl) fun hn => Bool.false_ne_true hn.1.symm
    | false =>
      rw [← hdone]
      constructor
      · rintro ⟨-, ⟨hr, -⟩ | ⟨-, hspec⟩⟩
        · cases hr
        · exact ⟨rfl, hspec⟩
      · rintro ⟨-, hspec⟩
        exact .done hwf hspec

theorem Wf.run_prependOwn {b b' : Buff} (h : b.Wf)
    (hrun : (Op.prependOwn offset len).run b = some (b', r)) : b'.Wf ∧
      (Refines b (.prependOwn offset len) b' r ↔ (Op.prependOwn offset len).Apart b) := by
  rw [Op.run, Option.ite_none_right_eq_some, Option.some.injEq, Prod.mk.injEq] at hrun
  obtain ⟨⟨hlen, hin⟩, rfl, rfl⟩ := hrun
  have hdata : (Region.slice b.buf_ offset len).length = len := Region.length_slice hin
  obtain ⟨hwf, hread, -⟩ := h.prepended (hdata.symm ▸ hlen)
  refine ⟨hwf, ?_⟩
  rw [Op.Apart, h.readerIndex_sub hlen]
  by_cases hover : offset ≤ b.readerIndex_ - len ∧ b.readerIndex_ - len < offset + len
  · rw [if_pos hover]
    exact iff_of_false (fun href => href.defined rfl) fun hn => hn hover
  · rw [if_neg hover]
    exact iff_of_true (.done hwf (by rw [hread]; rfl)) hover

theorem Wf.run_apart {b b' : Buff} {op : Op} (h : b.Wf) (hrun : op.run b = some (b', r))
    (hap : op.Apart b) : Refines b op b' r := by
  have hbytes := h.readableBytes
  have hstring (s : List UInt8) : Result.string s ≠ .threw := by
    intro hn
    cases hn
  have hposition (n : Option Nat) : Result.position n ≠ .threw := by
    intro hn
    cases hn
  cases op with
  | append data alloc =>
    rw [Op.run, Option.some.injEq] at hrun
    have href : Refines b (.append data alloc) (b.attempt (b.appendIf alloc data.bytes)).1
        (b.attempt (b.appendIf alloc data.bytes)).2 := by
      apply Refines.attempt h
      intro b' hb
      obtain ⟨hwf, hread⟩ := h.append data.bound (append_of_appendIf hb)
      exact ⟨hwf, by rw [hread]; rfl⟩
    rwa [hrun] at href
  | appendOwn => exact (h.run_own hrun).2.2 hap
  | prependOwn => exact (h.run_prependOwn hrun).2.2 hap
  | ensureWritableBytes len alloc =>
    simp only [Op.run, Option.ite_none_right_eq_some, Option.some.injEq] at hrun
    obtain ⟨hlen, hrun⟩ := hrun
    have href : Refines b (.ensureWritableBytes len alloc)
        (b.attempt (if b.grows len && !alloc then none else b.ensureWritableBytes len)).1
        (b.attempt (if b.grows len && !alloc then none else b.ensureWritableBytes len)).2 := by
      apply Refines.attempt h
      intro b' hb
      split at hb
      · cases hb
      · obtain ⟨hwf, hread, _⟩ := h.ensureWritableBytes hlen hb
        exact ⟨hwf, by rw [hread]; rfl⟩
    rwa [hrun] at href
  | prepend data =>
    simp only [Op.run, Option.ite_none_right_eq_some, Option.some.injEq, Prod.mk.injEq] at hrun
    obtain ⟨hdata, rfl, rfl⟩ := hrun
    obtain ⟨hwf, hread, -⟩ := h.prepended hdata
    exact .done hwf (by rw [hread]; rfl)
  | retrieve len =>
    simp only [Op.run, Option.some.injEq, Prod.mk.injEq] at hrun
    obtain ⟨rfl, rfl⟩ := hrun
    obtain ⟨hwf, hread⟩ := h.retrieve len
    exact .done hwf (by rw [hread]; rfl)
  | retrieveUntil n =>
    simp only [Op.run, Option.ite_none_right_eq_some, Option.some.injEq, Prod.mk.injEq] at hrun
    obtain ⟨hn, rfl, rfl⟩ := hrun
    have hr := h.reader
    have hw := h.writer
    have hs := h.size_lt
    have hlen := h.length_readable
    have hsub : sizeSub (b.readerIndex_ + n) b.readerIndex_ = n := by
      rw [sizeSub_of_le (by omega) (by omega), Nat.add_sub_cancel_left]
    obtain ⟨hwf, hread⟩ := h.retrieve n
    rw [retrieveUntil, hsub]
    exact .done hwf (by rw [hread]; rfl)
  | retrieveAll =>
    simp only [Op.run, Option.some.injEq, Prod.mk.injEq] at hrun
    obtain ⟨rfl, rfl⟩ := hrun
    exact .done h.retrieveAll (by rw [readable_retrieveAll]; rfl)
  | retrieveAsString len =>
    simp only [Op.run, Option.ite_none_right_eq_some, Option.some.injEq, Prod.mk.injEq] at hrun
    obtain ⟨hlen, rfl, rfl⟩ := hrun
    have hpeek : b.peek len = b.readable.take len := by
      rw [hbytes, h.length_readable] at hlen
      exact (Region.take_slice hlen).symm
    obtain ⟨hwf, hread⟩ := h.retrieve len
    exact .returned hwf (hstring _) (by rw [retrieveAsString, hread, hpeek]; rfl)
  | write data len =>
    simp only [Op.run, Option.ite_none_right_eq_some, Option.some.injEq, Prod.mk.injEq] at hrun
    obtain ⟨⟨hdata, hlen⟩, rfl, rfl⟩ := hrun
    rw [h.writableBytes] at hdata
    obtain ⟨hwf, hread⟩ := h.write hdata hlen
    exact .done hwf (by rw [hread]; rfl)
  | unwrite len =>
    simp only [Op.run, Option.ite_none_right_eq_some, Option.some.injEq, Prod.mk.injEq] at hrun
    obtain ⟨hlen, rfl, rfl⟩ := hrun
    obtain ⟨hwf, hread⟩ := h.unwrite (hbytes ▸ hlen)
    exact .done hwf (by rw [hread]; rfl)
  | findCRLF n =>
    simp only [Op.run, Option.ite_none_right_eq_some, Option.some.injEq, Prod.mk.injEq] at hrun
    obtain ⟨hn, rfl, rfl⟩ := hrun
    exact .returned h (hposition _) (by rw [h.findCRLF (hbytes ▸ hn)]; rfl)
  | findEOL n =>
    simp only [Op.run, Option.ite_none_right_eq_some, Option.some.injEq, Prod.mk.injEq] at hrun
    obtain ⟨hn, rfl, rfl⟩ := hrun
    exact .returned h (hposition _) (by rw [h.findEOL (hbytes ▸ hn)]; rfl)

/-- Every operation in its range keeps the indices sound, and does what it does to a byte queue
exactly when it copies the bytes that it was given. -/
theorem Wf.run {b b' : Buff} {op : Op} (h : b.Wf) (hrun : op.run b = some (b', r)) :
    b'.Wf ∧ (Refines b op b' r ↔ op.Apart b) := by
  cases op with
  | appendOwn => exact h.run_own hrun
  | prependOwn => exact h.run_prependOwn hrun
  | _ =>
    have href := h.run_apart hrun trivial
    exact ⟨href.wf, iff_of_true href trivial⟩

end Buff

/-- The buffers of a program, each with the byte queue that it stands for, and what the operations
have yielded, each with what the byte queue yields. -/
structure Buffers where
  buffers : List (Buff × List UInt8) := []
  results : List (Buff.Result × Buff.Result) := []

namespace Buffers

inductive Action where
  | create (initialSize : Nat) (alloc : Bool)
  | run (i : Nat) (op : Buff.Op)
  | swap (i j : Nat)
  deriving DecidableEq

def step (s : Buffers) : Action → Option Buffers
  | .create initialSize alloc =>
    if initialSize < 2 ^ 64 then
      match Buff.construct initialSize alloc with
      | some b => some { s with buffers := s.buffers ++ [(b, [])] }
      | none => some s
    else none
  | .run i op =>
    s.buffers[i]?.bind fun (b, q) => (op.run b).map fun (b', r) =>
      { buffers := s.buffers.set i (b', if r = .threw then q else (op.spec b.buf_ q).1)
        results := s.results ++ [(r, if r = .threw then .threw else (op.spec b.buf_ q).2)] }
  | .swap i j =>
    s.buffers[i]?.bind fun b => s.buffers[j]?.map fun c =>
      { s with buffers := (s.buffers.set i c).set j b }

/-- The indices of every buffer are sound, its readable bytes are those of the byte queue, and
every operation has yielded what the byte queue yields. -/
structure Refines (s : Buffers) : Prop where
  buffers : ∀ x ∈ s.buffers, x.1.Wf ∧ x.1.readable = x.2
  results : ∀ r ∈ s.results, r.1 = r.2

/-- No buffer is made with an initial size that wraps around, unless there is no memory for it, and
none appends or prepends elements of its own that do not stay what and where they are. -/
def Fits (s : Buffers) : Action → Prop
  | .create initialSize alloc => initialSize + Buff.kCheapPrepend < 2 ^ 64 ∨ alloc = false
  | .run i op => ∀ x ∈ s.buffers[i]?.toList, op.Apart x.1
  | .swap _ _ => True

instance (s : Buffers) : (a : Action) → Decidable (s.Fits a)
  | .create initialSize alloc =>
    inferInstanceAs (Decidable (initialSize + Buff.kCheapPrepend < 2 ^ 64 ∨ alloc = false))
  | .run i op => inferInstanceAs (Decidable (∀ x ∈ s.buffers[i]?.toList, op.Apart x.1))
  | .swap _ _ => inferInstanceAs (Decidable True)

theorem Refines.set {s : Buffers} {x : Buff × List UInt8} (h : Refines s) (i : Nat)
    (hx : x.1.Wf ∧ x.1.readable = x.2) :
    ∀ y ∈ s.buffers.set i x, y.1.Wf ∧ y.1.readable = y.2 := by
  intro y hy
  rcases List.mem_or_eq_of_mem_set hy with hy | rfl
  · exact h.buffers y hy
  · exact hx

theorem Refines.create_iff {s s' : Buffers} (h : Refines s)
    (hs : s.step (.create n alloc) = some s') : Refines s' ↔ s.Fits (.create n alloc) := by
  rw [step, Option.ite_none_right_eq_some] at hs
  obtain ⟨hn, hs⟩ := hs
  cases hc : Buff.construct n alloc with
  | none =>
    simp only [hc, Option.some.injEq] at hs
    subst s'
    refine ⟨fun _ => ?_, fun _ => h⟩
    rw [Buff.construct] at hc
    split at hc
    · cases hc
    · rename_i hfails
      rw [not_and_or, Bool.not_eq_true] at hfails
      refine hfails.imp_left fun hmax => ?_
      simp only [sizeAdd, Buff.maxSize, Buff.kCheapPrepend] at hmax ⊢
      omega
  | some b =>
    simp only [hc, Option.some.injEq] at hs
    subst s'
    obtain ⟨hread, hiff⟩ := Buff.construct_wf_iff hn hc
    have halloc : ¬ alloc = false := by
      rintro rfl
      rw [Buff.construct, if_neg fun hn => Bool.false_ne_true hn.2] at hc
      cases hc
    rw [Fits, or_iff_left halloc]
    refine ⟨fun h' => hiff.1 (h'.buffers (b, []) (by simp)).1, fun hfit => ⟨?_, h.results⟩⟩
    intro x hx
    rcases List.mem_append.1 hx with hx | hx
    · exact h.buffers x hx
    · cases List.mem_singleton.1 hx
      exact ⟨hiff.2 hfit, hread⟩

theorem Refines.run_iff {s s' : Buffers} (h : Refines s) (hs : s.step (.run i op) = some s') :
    Refines s' ↔ s.Fits (.run i op) := by
  obtain ⟨⟨b, q⟩, hb, hs⟩ := Option.bind_eq_some_iff.1 hs
  obtain ⟨⟨b', r⟩, hrun, rfl⟩ := Option.map_eq_some_iff.1 hs
  have hwf : b.Wf := (h.buffers (b, q) (List.mem_of_getElem? hb)).1
  have hread : b.readable = q := (h.buffers (b, q) (List.mem_of_getElem? hb)).2
  obtain ⟨hwf', hiff⟩ := hwf.run hrun
  have hfits : s.Fits (.run i op) ↔ op.Apart b := by
    rw [Fits, hb]
    exact List.forall_mem_singleton
  have hlt : i < s.buffers.length := (List.getElem?_eq_some_iff.1 hb).1
  rw [hfits, ← hiff]
  constructor
  · intro hs'
    have hnew := hs'.buffers _ (List.mem_set hlt _)
    have hlast := hs'.results _ (List.mem_append_right _ (List.mem_singleton.2 rfl))
    refine ⟨hwf', ?_⟩
    by_cases hr : r = .threw
    · rw [if_pos hr] at hnew
      exact .inl ⟨hr, Buff.Op.threw_keeps (hr ▸ hrun)⟩
    · rw [if_neg hr] at hnew hlast
      exact .inr ⟨hr, by rw [hread]; exact Prod.ext hnew.2 hlast⟩
  · intro href
    have hresult : b'.readable = (if r = .threw then q else (op.spec b.buf_ q).1) ∧
        r = if r = .threw then .threw else (op.spec b.buf_ q).2 := by
      rcases href.result with ⟨hr, rfl⟩ | ⟨hr, hspec⟩
      · rw [if_pos hr, if_pos hr]
        exact ⟨hread, hr⟩
      · rw [if_neg hr, if_neg hr, ← hread, ← hspec]
        exact ⟨rfl, rfl⟩
    refine ⟨h.set i ⟨hwf', hresult.1⟩, ?_⟩
    intro p hp
    rcases List.mem_append.1 hp with hp | hp
    · exact h.results p hp
    · cases List.mem_singleton.1 hp
      exact hresult.2

theorem Refines.swap {s s' : Buffers} (h : Refines s) (hs : s.step (.swap i j) = some s') :
    Refines s' := by
  obtain ⟨b, hb, hs⟩ := Option.bind_eq_some_iff.1 hs
  obtain ⟨c, hc, rfl⟩ := Option.map_eq_some_iff.1 hs
  have hset : Refines { s with buffers := s.buffers.set i c } :=
    ⟨h.set i (h.buffers c (List.mem_of_getElem? hc)), h.results⟩
  exact ⟨hset.set j (h.buffers b (List.mem_of_getElem? hb)), h.results⟩

/-- Every buffer behaves like a byte queue at every point of a run, exactly when no buffer is
constructed with an initial size that wraps around and none appends or prepends elements of its own
that are lost or overwritten on the way. -/
theorem byte_queue_iff {s : Buffers} (h : Run Buffers.step {} as s) :
    AllStates Buffers.step Refines {} as ↔ AllSteps Buffers.step Fits {} as := by
  refine h.allStates_iff (I := fun _ => True) trivial ⟨fun _ => nofun, fun _ => nofun⟩
    (fun _ _ _ _ _ => trivial) ?_
  intro s a s' _ hr hs
  cases a with
  | create => exact hr.create_iff hs
  | run => exact hr.run_iff hs
  | swap => exact ⟨fun _ => trivial, fun _ => hr.swap hs⟩

/-- A line is found in a buffer that has grown, been compacted and been swapped. Then one of the
bytes is appended and prepended once more. -/
def readingLine : List Action :=
  [.create 4 true, .create 0 true, .run 0 (.append ⟨[1, 2, 3, 4, 5, 6], by decide⟩ true),
    .run 0 (.retrieve 5), .run 0 (.prepend [13]),
    .run 0 (.append ⟨[13, 10, 7], by decide⟩ true), .swap 0 1, .run 1 (.findCRLF 0),
    .run 1 (.findEOL 1), .run 1 (.retrieveUntil 2), .run 1 (.unwrite 1),
    .run 1 (.appendOwn 10 1 true false), .run 1 (.prependOwn 10 1), .run 1 (.retrieveAsString 2)]

theorem readingLine_refines : AllStates Buffers.step Refines {} readingLine := by
  have hrun : (exec Buffers.step {} readingLine).any (fun s => s.results.length == 11) = true := by
    decide +kernel
  obtain ⟨s, hs, _⟩ := Run.of_exec_any hrun
  exact (byte_queue_iff hs).2 (by decide +kernel)

/-- Three of its own bytes are appended to a buffer that has to slide. -/
def selfAppend : List Action :=
  [.create 10 true, .run 0 (.append ⟨[1, 2, 3, 4, 5, 6, 7, 8], by decide⟩ true),
    .run 0 (.retrieve 2), .run 0 (.appendOwn 10 3 true false)]

/-- The constructor with `SIZE_MAX` makes a vector of seven bytes, and `append(peek(), 3)` behind
six readable bytes adds the fifth to the seventh byte of the buffer, not the third to the fifth. -/
theorem byte_queue_fails :
    (∃ s, Run Buffers.step {} [.create (2 ^ 64 - 1) true] s ∧ ¬ Refines s) ∧
      ∃ s, Run Buffers.step {} selfAppend s ∧ ¬ Refines s := by
  constructor
  · have hrun : (exec Buffers.step {} [.create (2 ^ 64 - 1) true]).any
        (fun s => s.buffers == [(⟨List.replicate 7 0, 8, 8⟩, [])]) = true := by
      decide +kernel
    obtain ⟨s, hs, hp⟩ := Run.of_exec_any hrun
    refine ⟨s, hs, fun hr => ?_⟩
    have hwf := (hr.buffers (⟨List.replicate 7 0, 8, 8⟩, [])
      (eq_of_beq hp ▸ List.mem_singleton.2 rfl)).1.prepend
    exact absurd hwf (by decide)
  · have hrun : (exec Buffers.step {} selfAppend).any (fun s => s.buffers ==
        [(⟨[0, 0, 0, 0, 0, 0, 0, 0, 3, 4, 5, 6, 7, 8, 5, 6, 7, 0], 8, 17⟩,
          [3, 4, 5, 6, 7, 8, 3, 4, 5])]) = true := by
      decide +kernel
    obtain ⟨s, hs, hp⟩ := Run.of_exec_any hrun
    refine ⟨s, hs, fun hr => ?_⟩
    have hread := (hr.buffers _ (eq_of_beq hp ▸ List.mem_singleton.2 rfl)).2
    exact absurd hread (by decide)

end Buffers
end MuduoStudy
