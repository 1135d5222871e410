import MuduoStudy.Region

namespace MuduoStudy
set_option autoImplicit true

/-- The sum of two `size_t` values. -/
def sizeAdd (a b : Nat) : Nat := (a + b) % 2 ^ 64

def sizeSub (a b : Nat) : Nat := (a + (2 ^ 64 - b)) % 2 ^ 64

theorem sizeAdd_of_lt (h : a + b < 2 ^ 64) : sizeAdd a b = a + b := Nat.mod_eq_of_lt h

theorem sizeSub_of_le (h : b ≤ a) (ha : a < 2 ^ 64) : sizeSub a b = a - b := by
  have hsum : a + (2 ^ 64 - b) = (a - b) + 2 ^ 64 := by omega
  rw [sizeSub, hsum, Nat.add_mod_right]
  exact Nat.mod_eq_of_lt (by omega)

/-- A block of real memory: `SIZE_MAX / 2` bytes at most. -/
structure Block where
  bytes : List UInt8
  bound : bytes.length < 2 ^ 63
  deriving DecidableEq

structure Buff where
  buf_ : List UInt8
  readerIndex_ : Nat
  writerIndex_ : Nat
  deriving DecidableEq

namespace Buff

/-- What the `data` and `len` of `append` stand for: bytes outside of `buf_`, or `len` elements of
`buf_` itself. -/
inductive Source where
  | outside (bytes : List UInt8)
  | inside (offset len : Nat)
  deriving DecidableEq

instance : Coe (List UInt8) Source := ⟨.outside⟩

def Source.length : Source → Nat
  | .outside bytes => bytes.length
  | .inside _ len => len

/-- The bytes that `data` points to while `buf_` has these elements. -/
def Source.bytes (buf : List UInt8) : Source → List UInt8
  | .outside bytes => bytes
  | .inside offset len => Region.slice buf offset len

def kCheapPrepend : Nat := 8
def kInitialSize : Nat := 1024

/-- `std::vector<char>::max_size()` -/
def maxSize : Nat := 2 ^ 63 - 1

def new (initialSize : Nat) : Buff :=
  ⟨List.replicate (sizeAdd kCheapPrepend initialSize) 0, kCheapPrepend, kCheapPrepend⟩

def readableBytes (b : Buff) : Nat := sizeSub b.writerIndex_ b.readerIndex_

def writableBytes (b : Buff) : Nat := sizeSub b.buf_.length b.writerIndex_

def prependableBytes (b : Buff) : Nat := b.readerIndex_

/-- The `len` bytes from `peek()` on. -/
def peek (b : Buff) (len : Nat) : List UInt8 := Region.slice b.buf_ b.readerIndex_ len

def retrieveAll (b : Buff) : Buff :=
  { b with readerIndex_ := kCheapPrepend, writerIndex_ := kCheapPrepend }

def retrieve (b : Buff) (len : Nat) : Buff :=
  if len < b.readableBytes then { b with readerIndex_ := sizeAdd b.readerIndex_ len }
  else b.retrieveAll

/-- `buf_.resize(size)` throws `std::length_error` beyond `maxSize`. -/
def resize (b : Buff) (size : Nat) : Option Buff :=
  if size ≤ maxSize then
    some { b with buf_ := b.buf_.take size ++ List.replicate (size - b.buf_.length) 0 }
  else none

/-- The branch of `makeSpace` that needs no bigger vector. -/
def slide (b : Buff) : Buff where
  buf_ := Region.move b.buf_ b.readerIndex_ kCheapPrepend (b.writerIndex_ - b.readerIndex_)
  readerIndex_ := kCheapPrepend
  writerIndex_ := sizeAdd kCheapPrepend b.readableBytes

def makeSpace (b : Buff) (len : Nat) : Option Buff :=
  if sizeAdd b.writableBytes b.prependableBytes < sizeAdd len kCheapPrepend then
    b.resize (sizeAdd len b.writerIndex_)
  else some b.slide

def ensureWritableBytes (b : Buff) (len : Nat) : Option Buff :=
  if b.writableBytes < len then b.makeSpace len else some b

def hasWritten (b : Buff) (len : Nat) : Buff :=
  { b with writerIndex_ := sizeAdd b.writerIndex_ len }

/-- `append` looks at `data` only when `ensureWritableBytes` has returned. -/
def append (b : Buff) (data : Source) : Option Buff :=
  (b.ensureWritableBytes data.length).map fun b =>
    { b with buf_ := Region.write b.buf_ b.writerIndex_ (data.bytes b.buf_) }.hasWritten data.length

/-- The bytes between `peek()` and `beginWrite()`. -/
def readable (b : Buff) : List UInt8 :=
  Region.slice b.buf_ b.readerIndex_ (b.writerIndex_ - b.readerIndex_)

structure Wf (b : Buff) : Prop where
  prepend : kCheapPrepend ≤ b.buf_.length
  reader : b.readerIndex_ ≤ b.writerIndex_
  writer : b.writerIndex_ ≤ b.buf_.length
  capacity : b.buf_.length ≤ maxSize

theorem Wf.new (h : initialSize < 2 ^ 62) : Wf (new initialSize) := by
  have hlen : (Buff.new initialSize).buf_.length = 8 + initialSize := by
    simp only [Buff.new, List.length_replicate]
    exact sizeAdd_of_lt (by simp only [kCheapPrepend]; omega)
  have hprepend : kCheapPrepend ≤ (Buff.new initialSize).buf_.length := by
    rw [hlen]
    exact Nat.le_add_right _ _
  have hmax : (Buff.new initialSize).buf_.length ≤ maxSize := by
    simp only [hlen, maxSize]
    omega
  exact ⟨hprepend, Nat.le_refl _, hprepend, hmax⟩

theorem readable_new (initialSize : Nat) : (new initialSize).readable = [] := by
  simp [readable, new, Region.slice]

theorem Wf.size_lt {b : Buff} (h : Wf b) : b.buf_.length < 2 ^ 63 :=
  Nat.lt_of_le_of_lt h.capacity (by decide)

theorem Wf.length_readable {b : Buff} (h : Wf b) :
    b.readable.length = b.writerIndex_ - b.readerIndex_ := by
  have hr := h.reader
  have hw := h.writer
  exact Region.length_slice (by omega)

theorem Wf.readableBytes {b : Buff} (h : Wf b) : b.readableBytes = b.readable.length := by
  have hw := h.writer
  have hs := h.size_lt
  rw [h.length_readable]
  exact sizeSub_of_le h.reader (by omega)

theorem Wf.writableBytes {b : Buff} (h : Wf b) :
    b.writableBytes = b.buf_.length - b.writerIndex_ := by
  have hs := h.size_lt
  exact sizeSub_of_le h.writer (by omega)

theorem Wf.bound {b : Buff} (h : Wf b) : b.readable.length < 2 ^ 63 := by
  have hw := h.writer
  have hs := h.size_lt
  rw [h.length_readable]
  omega

theorem Wf.peek {b : Buff} (h : Wf b) : b.peek b.readableBytes = b.readable := by
  rw [h.readableBytes, h.length_readable]
  rfl

theorem readable_retrieveAll (b : Buff) : b.retrieveAll.readable = [] := by
  simp [readable, retrieveAll, Region.slice]

theorem Wf.retrieveAll {b : Buff} (h : Wf b) : Wf b.retrieveAll :=
  ⟨h.prepend, Nat.le_refl _, h.prepend, h.capacity⟩

theorem Wf.retrieve {b : Buff} (h : Wf b) (len : Nat) :
    Wf (b.retrieve len) ∧ (b.retrieve len).readable = b.readable.drop len := by
  have hbytes := h.readableBytes
  have hlen := h.length_readable
  have hw := h.writer
  have hs := h.size_lt
  by_cases hlt : len < b.readableBytes
  · have hadd : sizeAdd b.readerIndex_ len = b.readerIndex_ + len := sizeAdd_of_lt (by omega)
    have hret : b.retrieve len = { b with readerIndex_ := b.readerIndex_ + len } := by
      rw [Buff.retrieve, if_pos hlt, hadd]
    have hread : (b.retrieve len).readable = b.readable.drop len := by
      rw [hret, readable, readable, Region.drop_slice, Nat.sub_add_eq]
    rw [hret] at hread ⊢
    have hreader : b.readerIndex_ + len ≤ b.writerIndex_ := by omega
    exact ⟨⟨h.prepend, hreader, h.writer, h.capacity⟩, hread⟩
  · have hret : b.retrieve len = b.retrieveAll := if_neg hlt
    have hdrop : b.readable.drop len = [] := List.drop_of_length_le (by omega)
    rw [hret, hdrop]
    exact ⟨h.retrieveAll, readable_retrieveAll b⟩

theorem Wf.resize {b b' : Buff} (h : Wf b) (hsize : b.buf_.length ≤ size)
    (hb : b.resize size = some b') :
    Wf b' ∧ b'.readable = b.readable ∧ b'.buf_.length = size ∧
      b'.writerIndex_ = b.writerIndex_ := by
  simp only [Buff.resize, Option.ite_none_right_eq_some, Option.some.injEq,
    List.take_of_length_le hsize] at hb
  obtain ⟨hmax, rfl⟩ := hb
  have hp := h.prepend
  have hr := h.reader
  have hw := h.writer
  have hlen : (b.buf_ ++ List.replicate (size - b.buf_.length) 0).length = size := by
    simp only [List.length_append, List.length_replicate]
    omega
  have hread : Region.slice (b.buf_ ++ List.replicate (size - b.buf_.length) 0) b.readerIndex_
      (b.writerIndex_ - b.readerIndex_) = b.readable := Region.slice_append_left (by omega) _
  exact ⟨⟨by simp only [hlen]; omega, hr, by simp only [hlen]; omega, by simpa only [hlen]⟩, hread,
    hlen, rfl⟩

theorem Wf.slide {b : Buff} (h : Wf b) (hk : kCheapPrepend ≤ b.readerIndex_) :
    Wf b.slide ∧ b.slide.readable = b.readable ∧ b.slide.buf_.length = b.buf_.length ∧
      b.slide.writerIndex_ = 8 + b.readable.length := by
  have hp := h.prepend
  have hr := h.reader
  have hw := h.writer
  have hs := h.size_lt
  have hlen := h.length_readable
  simp only [kCheapPrepend] at hk hp
  have hwriter : sizeAdd kCheapPrepend b.readableBytes = kCheapPrepend + b.readable.length := by
    rw [h.readableBytes]
    exact sizeAdd_of_lt (by simp only [kCheapPrepend]; omega)
  have hmove : Region.move b.buf_ b.readerIndex_ kCheapPrepend (b.writerIndex_ - b.readerIndex_) =
      Region.write b.buf_ kCheapPrepend b.readable :=
    Region.move_eq_write hk (by omega)
  have hsize : (Region.write b.buf_ kCheapPrepend b.readable).length = b.buf_.length :=
    Region.length_write (by simp only [kCheapPrepend]; omega)
  have hread : Region.slice (Region.write b.buf_ kCheapPrepend b.readable) kCheapPrepend
      (kCheapPrepend + b.readable.length - kCheapPrepend) = b.readable := by
    rw [Nat.add_sub_cancel_left]
    exact Region.slice_write_same h.prepend
  have hfit : kCheapPrepend + b.readable.length ≤ b.buf_.length := by
    simp only [kCheapPrepend]
    omega
  rw [Buff.slide, hwriter, hmove]
  exact ⟨⟨hsize ▸ h.prepend, Nat.le_add_right _ _, hsize ▸ hfit, hsize ▸ h.capacity⟩, hread, hsize,
    rfl⟩

theorem Wf.freeBytes {b : Buff} (h : Wf b) : sizeAdd b.writableBytes b.prependableBytes =
    b.buf_.length - b.writerIndex_ + b.readerIndex_ := by
  have hr := h.reader
  have hw := h.writer
  have hs := h.size_lt
  rw [h.writableBytes]
  exact sizeAdd_of_lt (by simp only [prependableBytes]; omega)

/-- Where no sum wraps around, `ensureWritableBytes` makes room and keeps the readable bytes. -/
theorem Wf.ensured {b b' : Buff} (h : Wf b) (hneed : len + kCheapPrepend < 2 ^ 64)
    (hsum : len + b.writerIndex_ < 2 ^ 64) (hb : b.ensureWritableBytes len = some b') :
    Wf b' ∧ b'.readable = b.readable ∧ b'.writerIndex_ + len ≤ b'.buf_.length := by
  have hw := h.writer
  have hread := h.length_readable
  have hwritable := h.writableBytes
  by_cases hroom : b.writableBytes < len
  · rw [Buff.ensureWritableBytes, if_pos hroom, makeSpace, h.freeBytes, sizeAdd_of_lt hneed,
      sizeAdd_of_lt hsum] at hb
    by_cases hgrow : b.buf_.length - b.writerIndex_ + b.readerIndex_ < len + kCheapPrepend
    · rw [if_pos hgrow] at hb
      obtain ⟨hwf, hsame, hsize, hwriter⟩ := h.resize (by omega) hb
      exact ⟨hwf, hsame, by omega⟩
    · rw [if_neg hgrow, Option.some.injEq] at hb
      simp only [kCheapPrepend] at hgrow
      obtain ⟨hwf, hsame, hsize, hwriter⟩ := h.slide (by simp only [kCheapPrepend]; omega)
      have hr := h.reader
      subst b'
      exact ⟨hwf, hsame, by omega⟩
  · rw [Buff.ensureWritableBytes, if_neg hroom, Option.some.injEq] at hb
    subst b'
    exact ⟨h, rfl, by omega⟩

theorem Wf.ensureWritableBytes {b b' : Buff} (h : Wf b) (hlen : len < 2 ^ 63)
    (hb : b.ensureWritableBytes len = some b') :
    Wf b' ∧ b'.readable = b.readable ∧ b'.writerIndex_ + len ≤ b'.buf_.length := by
  have hw := h.writer
  have hs := h.size_lt
  exact h.ensured (by simp only [kCheapPrepend]; omega) (by omega) hb

theorem Wf.copied {b b' c : Buff} {data : Source} (h : Wf b) (hlen : data.length < 2 ^ 63)
    (hc : b.ensureWritableBytes data.length = some c)
    (hdata : (data.bytes c.buf_).length = data.length) (hb : b.append data = some b') :
    Wf b' ∧ b'.readable = b.readable ++ data.bytes c.buf_ ∧ b'.buf_.length = c.buf_.length := by
  rw [Buff.append, hc, Option.map_some, Option.some.injEq] at hb
  subst b'
  obtain ⟨hwf, hsame, hroom⟩ := h.ensureWritableBytes hlen hc
  have hr := hwf.reader
  have hs := hwf.size_lt
  generalize data.bytes c.buf_ = bytes at hdata ⊢
  rw [← hdata] at hroom ⊢
  have hwriter : sizeAdd c.writerIndex_ bytes.length = c.writerIndex_ + bytes.length :=
    sizeAdd_of_lt (by omega)
  have hsize : (Region.write c.buf_ c.writerIndex_ bytes).length = c.buf_.length :=
    Region.length_write hroom
  have hread : Region.slice (Region.write c.buf_ c.writerIndex_ bytes) c.readerIndex_
      (c.writerIndex_ + bytes.length - c.readerIndex_) = c.readable ++ bytes := by
    have hsplit : c.writerIndex_ = c.readerIndex_ + (c.writerIndex_ - c.readerIndex_) := by omega
    have hcount : c.writerIndex_ + bytes.length - c.readerIndex_ =
        c.writerIndex_ - c.readerIndex_ + bytes.length := by omega
    rw [hcount, readable]
    generalize c.writerIndex_ - c.readerIndex_ = n at hsplit
    rw [hsplit]
    exact Region.slice_write_extend (by omega)
  simp only [hasWritten, hwriter]
  rw [← hsame]
  exact ⟨⟨hsize ▸ hwf.prepend, by simp only; omega, by simp only [hsize]; exact hroom,
    hsize ▸ hwf.capacity⟩, hread, hsize⟩

/-- Bytes outside of `buf_` are still there when they are copied. -/
theorem Wf.append {b b' : Buff} {data : List UInt8} (h : Wf b) (hlen : data.length < 2 ^ 63)
    (hb : b.append data = some b') : Wf b' ∧ b'.readable = b.readable ++ data := by
  obtain ⟨c, hc, -⟩ := Option.map_eq_some_iff.1 hb
  have hbound : (Source.outside data).length < 2 ^ 63 := hlen
  obtain ⟨hwf, hread, -⟩ := h.copied hbound hc rfl hb
  exact ⟨hwf, hread⟩

end Buff
end MuduoStudy
