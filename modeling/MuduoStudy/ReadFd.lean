import MuduoStudy.Space

namespace MuduoStudy
open Transition
set_option autoImplicit true

/-- The answer of `::readv`: the bytes with which it has filled the vectors, or `errno`. -/
inductive Readv where
  | data (bytes : List UInt8)
  | error (errno : Int)
  deriving DecidableEq

namespace Buff

def extrabufSize : Nat := 65536

/-- The lengths of the vectors that `readFd` passes to `::readv`. -/
def iovecs (b : Buff) : List Nat :=
  if b.writableBytes < extrabufSize then [b.writableBytes, extrabufSize] else [b.writableBytes]

/-- `readFd` behind its `::readv`. It yields its result and the value stored in `*saveErrno`, if
it stores one. -/
def readFd (b : Buff) (r : Readv) (alloc : Bool) : Option (Buff × Int × Option Int) :=
  match r with
  | .error errno => some (b, -1, some errno)
  | .data bytes =>
    let writable := b.writableBytes
    -- `::readv` fills the rest of `buf_` first, then `extrabuf`
    let b := { b with buf_ := Region.write b.buf_ b.writerIndex_ (bytes.take writable) }
    if bytes.length ≤ writable then
      some ({ b with writerIndex_ := sizeAdd b.writerIndex_ bytes.length }, bytes.length, none)
    else
      (({ b with writerIndex_ := b.buf_.length } : Buff).appendIf alloc (bytes.drop writable)).map
        fun b => (b, (bytes.length : Int), none)

/-- The buffer at the `append` of `readFd`: `::readv` has filled the rest of `buf_`. -/
def fill (b : Buff) (data : List UInt8) : Buff :=
  let buf := Region.write b.buf_ b.writerIndex_ data
  { b with buf_ := buf, writerIndex_ := buf.length }

end Buff

/-- `::readv` answers with an error or with bytes that fit into the vectors. -/
def Readv.fits (b : Buff) : Readv → Bool
  | .data bytes => bytes.length ≤ b.iovecs.sum
  | .error _ => true

def Readv.bytes : Readv → List UInt8
  | .data bytes => bytes
  | .error _ => []

namespace Buff

/-- The buffer behind a call of `readFd`. One that throws has filled the rest of `buf_`. -/
def afterReadFd (b : Buff) (r : Readv) (alloc : Bool) : Buff :=
  match b.readFd r alloc with
  | some read => read.1
  | none => b.fill (r.bytes.take b.writableBytes)

theorem extra_of_fits {b : Buff} {bytes : List UInt8} (h : bytes.length ≤ b.iovecs.sum)
    (hn : b.writableBytes < bytes.length) :
    b.iovecs = [b.writableBytes, extrabufSize] ∧
      bytes.length - b.writableBytes ≤ extrabufSize := by
  rw [iovecs] at h ⊢
  split at h
  · rename_i htwo
    rw [if_pos htwo]
    simp only [List.sum_cons, List.sum_nil] at h
    exact ⟨rfl, by omega⟩
  · simp only [List.sum_cons, List.sum_nil] at h
    omega

/-- The bytes in `extrabuf` do not fit into the vector, which cannot grow. -/
def Full (b : Buff) (n : Nat) (alloc : Bool) : Prop :=
  b.writableBytes < n ∧ b.readerIndex_ < n - b.writableBytes + kCheapPrepend ∧
    (alloc = false ∨ maxSize < b.buf_.length + (n - b.writableBytes))

inductive Reads (b : Buff) (bytes : List UInt8) (alloc : Bool) : Prop where
  | returns (b' : Buff) : ¬ b.Full bytes.length alloc →
      b.readFd (.data bytes) alloc = some (b', (bytes.length : Int), none) → b'.Wf →
      b'.readable = b.readable ++ bytes → Reads b bytes alloc
  | throws (b' : Buff) : b.Full bytes.length alloc → b.readFd (.data bytes) alloc = none →
      b.afterReadFd (.data bytes) alloc = b' → b'.Wf →
      b'.readable = b.readable ++ bytes.take b.writableBytes → Reads b bytes alloc

theorem Wf.fill {b : Buff} {data : List UInt8} (h : b.Wf)
    (hdata : data.length = b.buf_.length - b.writerIndex_) :
    (b.fill data).Wf ∧ (b.fill data).readable = b.readable ++ data ∧
      (b.fill data).buf_.length = b.buf_.length := by
  have hw := h.writer
  have hs := h.size_lt
  have hsize : (Region.write b.buf_ b.writerIndex_ data).length = b.buf_.length :=
    Region.length_write (by omega)
  have hwriter : sizeAdd b.writerIndex_ data.length =
      (Region.write b.buf_ b.writerIndex_ data).length := by
    rw [sizeAdd_of_lt (by omega), hsize]
    omega
  obtain ⟨hwf, hread⟩ := h.write (Nat.le_of_eq hdata) (Nat.le_refl data.length)
  rw [hasWritten, hwriter] at hwf hread
  rw [List.take_length] at hread
  exact ⟨hwf, hread, hsize⟩

theorem Wf.split {b : Buff} {bytes : List UInt8} (h : b.Wf) (hfits : bytes.length ≤ b.iovecs.sum)
    (hn : b.writableBytes < bytes.length) :
    ((b.fill (bytes.take b.writableBytes)).Wf ∧
      (b.fill (bytes.take b.writableBytes)).readable =
        b.readable ++ bytes.take b.writableBytes ∧
      (b.fill (bytes.take b.writableBytes)).buf_.length = b.buf_.length) ∧
    (bytes.drop b.writableBytes).length < 2 ^ 63 := by
  obtain ⟨_, hsmall⟩ := extra_of_fits hfits hn
  have hhead : (bytes.take b.writableBytes).length = b.buf_.length - b.writerIndex_ := by
    rw [List.length_take_of_le (Nat.le_of_lt hn), h.writableBytes]
  refine ⟨h.fill hhead, ?_⟩
  rw [List.length_drop]
  simp only [extrabufSize] at hsmall
  omega

theorem readFd_of_lt {b : Buff} {bytes : List UInt8} (hn : b.writableBytes < bytes.length)
    (alloc : Bool) : b.readFd (.data bytes) alloc =
      ((b.fill (bytes.take b.writableBytes)).appendIf alloc (bytes.drop b.writableBytes)).map
        fun b' => (b', (bytes.length : Int), none) :=
  if_neg (Nat.not_le.2 hn)

theorem Wf.reads {b : Buff} {bytes : List UInt8} (h : b.Wf) (hfits : bytes.length ≤ b.iovecs.sum)
    (alloc : Bool) : Reads b bytes alloc := by
  have hr := h.reader
  have hw := h.writer
  have hs := h.size_lt
  have hwritable := h.writableBytes
  by_cases hn : bytes.length ≤ b.writableBytes
  · have hall : bytes.take b.writableBytes = bytes := List.take_of_length_le hn
    obtain ⟨hwf, hread⟩ := h.write (hwritable ▸ hn) (Nat.le_refl bytes.length)
    rw [List.take_length] at hread
    have hcall : b.readFd (.data bytes) alloc = some ({ b with
        buf_ := Region.write b.buf_ b.writerIndex_ bytes }.hasWritten bytes.length,
          (bytes.length : Int), none) := by
      simp only [readFd, hall]
      exact if_pos hn
    exact .returns _ (fun hf => Nat.not_lt.2 hn hf.1) hcall hwf hread
  · have hlt := Nat.not_le.1 hn
    have hextra : (bytes.drop b.writableBytes).length = bytes.length - b.writableBytes :=
      List.length_drop
    obtain ⟨⟨hwf, hread, hsize⟩, hbound⟩ := h.split hfits hlt
    have hcall := readFd_of_lt hlt alloc
    have hafter (hnone : b.readFd (.data bytes) alloc = none) :
        b.afterReadFd (.data bytes) alloc = b.fill (bytes.take b.writableBytes) := by
      rw [afterReadFd, hnone]
      rfl
    have hwriter : (b.fill (bytes.take b.writableBytes)).writerIndex_ = b.buf_.length := hsize
    have hreader : (b.fill (bytes.take b.writableBytes)).readerIndex_ = b.readerIndex_ := rfl
    generalize hc : b.fill (bytes.take b.writableBytes) = c at *
    have hgrows : c.grows (bytes.drop b.writableBytes).length = true ↔
        b.readerIndex_ < bytes.length - b.writableBytes + kCheapPrepend := by
      rw [hwf.grows hbound, hextra, hreader, hwriter, hsize]
      omega
    have hnone : c.appendIf alloc (bytes.drop b.writableBytes) = none ↔
        b.Full bytes.length alloc := by
      have hlength : (Source.outside (bytes.drop b.writableBytes)).length < 2 ^ 63 := hbound
      rw [hwf.appendIf_eq_none_iff hlength, Source.length, hgrows, hextra, hwriter, Full]
      exact ⟨fun hf => ⟨Nat.not_le.1 hn, hf⟩, And.right⟩
    cases ha : c.appendIf alloc (bytes.drop b.writableBytes) with
    | none =>
      rw [ha] at hcall
      exact .throws c (hnone.1 ha) hcall (hafter hcall) hwf hread
    | some b' =>
      rw [ha] at hcall
      obtain ⟨hwf', hread'⟩ := hwf.append hbound (append_of_appendIf ha)
      have hfull : ¬ b.Full bytes.length alloc := by
        intro hf
        cases ha.symm.trans (hnone.2 hf)
      refine .returns b' hfull hcall hwf' ?_
      rw [hread', hread, List.append_assoc, List.take_append_drop]

theorem Wf.afterReadFd {b : Buff} (h : b.Wf) (hfits : r.fits b = true) (alloc : Bool) :
    (b.afterReadFd r alloc).Wf := by
  cases r with
  | error errno => exact h
  | data bytes =>
    cases h.reads (of_decide_eq_true hfits) alloc with
    | returns b' _ hcall hwf =>
      rw [Buff.afterReadFd, hcall]
      exact hwf
    | throws b' _ _ hafter hwf => exact hafter ▸ hwf

end Buff

/-- A buffer that is read into and retrieved from, with the bytes that have been retrieved. -/
structure Inbound where
  buff : Buff
  /-- the bytes that each `::readv` has delivered, those that its `readFd` has taken into the buffer
  and those that were lost in `extrabuf` -/
  reads : List (List UInt8 × List UInt8) := []
  retrieved : List UInt8 := []

namespace Inbound

inductive Action where
  | readFd (r : Readv) (alloc : Bool)
  | retrieve (len : Nat)
  deriving DecidableEq

/-- What a call takes into the buffer and what it loses. `extrabuf` is gone when it throws. -/
def taken (b : Buff) (r : Readv) (alloc : Bool) : List UInt8 × List UInt8 :=
  match b.readFd r alloc with
  | some _ => (r.bytes, [])
  | none => (r.bytes.take b.writableBytes, r.bytes.drop b.writableBytes)

def step (s : Inbound) : Action → Option Inbound
  | .readFd r alloc =>
    if r.fits s.buff then
      some { s with
        buff := s.buff.afterReadFd r alloc, reads := s.reads ++ [taken s.buff r alloc] }
    else none
  | .retrieve len => some { s with
      buff := s.buff.retrieve len, retrieved := s.retrieved ++ s.buff.readable.take len }

def delivered (s : Inbound) : List UInt8 := s.reads.flatMap fun r => r.1 ++ r.2

/-- The delivered bytes that no `readFd` has lost. -/
def received (s : Inbound) : List UInt8 := s.reads.flatMap Prod.fst

theorem received_eq {s : Inbound} (h : ∀ r ∈ s.reads, r.2 = []) : s.received = s.delivered := by
  rw [received, delivered, List.flatMap, List.flatMap]
  congr 1
  refine List.map_congr_left fun r hr => ?_
  rw [h r hr, List.append_nil]

structure Whole (before : List UInt8) (s : Inbound) : Prop where
  wf : s.buff.Wf
  stream : s.retrieved ++ s.buff.readable = before ++ s.received

theorem received_append (reads : List (List UInt8 × List UInt8)) (r : List UInt8 × List UInt8) :
    (reads ++ [r]).flatMap Prod.fst = reads.flatMap Prod.fst ++ r.1 := by
  rw [List.flatMap_append, List.flatMap_singleton]

theorem readable_afterReadFd {b : Buff} (h : b.Wf) (hfits : r.fits b = true) (alloc : Bool) :
    (b.afterReadFd r alloc).readable = b.readable ++ (taken b r alloc).1 := by
  cases r with
  | error errno => exact (List.append_nil _).symm
  | data bytes =>
    cases h.reads (of_decide_eq_true hfits) alloc with
    | returns b' _ hcall _ hread => rw [Buff.afterReadFd, taken, hcall, hread]; rfl
    | throws b' _ hnone hafter _ hread => rw [taken, hnone, hafter, hread]; rfl

theorem Whole.step {s s' : Inbound} (h : Whole before s) (hs : s.step a = some s') :
    Whole before s' := by
  have hstream := h.stream
  cases a with
  | readFd r alloc =>
    rw [Inbound.step, Option.ite_none_right_eq_some] at hs
    obtain ⟨hfits, hs⟩ := hs
    cases hs
    refine ⟨h.wf.afterReadFd hfits alloc, ?_⟩
    rw [received, received_append, readable_afterReadFd h.wf hfits, ← List.append_assoc, hstream,
      List.append_assoc]
    rfl
  | retrieve len =>
    cases hs
    obtain ⟨hwf, hread⟩ := h.wf.retrieve len
    refine ⟨hwf, ?_⟩
    simp only
    rw [hread, List.append_assoc, List.take_append_drop, hstream]
    rfl

/-- The bytes retrieved and the readable ones are those that were readable before and those that
`::readv` has delivered since, less what was in `extrabuf` when a call threw. Every call returns
what `::readv` has returned unless the vector cannot grow as it must. -/
theorem scatter_read {b : Buff} {s : Inbound} (hwf : b.Wf)
    (h : Run Inbound.step { buff := b } as s) :
    s.buff.Wf ∧ s.retrieved ++ s.buff.readable = b.readable ++ s.received ∧
    ((∀ r ∈ s.reads, r.2 = []) → s.received = s.delivered) ∧
    (∀ errno alloc, s.buff.readFd (.error errno) alloc = some (s.buff, -1, some errno)) ∧
    ∀ bytes alloc, (Readv.data bytes).fits s.buff = true →
      (s.buff.writableBytes < bytes.length →
        s.buff.iovecs = [s.buff.writableBytes, Buff.extrabufSize] ∧
          bytes.length - s.buff.writableBytes ≤ Buff.extrabufSize) ∧
      (s.buff.Full bytes.length alloc ∧ s.buff.readFd (.data bytes) alloc = none ∧
          taken s.buff (.data bytes) alloc =
            (bytes.take s.buff.writableBytes, bytes.drop s.buff.writableBytes) ∨
        ¬ s.buff.Full bytes.length alloc ∧ taken s.buff (.data bytes) alloc = (bytes, []) ∧
          ∃ b', b'.Wf ∧
            s.buff.readFd (.data bytes) alloc = some (b', (bytes.length : Int), none)) := by
  have hinit : Whole b.readable { buff := b } := ⟨hwf, (List.append_nil _).symm⟩
  have hs := h.invariant hinit fun _ _ _ => Whole.step
  refine ⟨hs.wf, hs.stream, received_eq, fun _ _ => rfl, ?_⟩
  intro bytes alloc hfits
  have hlen : bytes.length ≤ s.buff.iovecs.sum := of_decide_eq_true hfits
  refine ⟨Buff.extra_of_fits hlen, ?_⟩
  cases hs.wf.reads hlen alloc with
  | returns b' hfull hcall hwf' => exact .inr ⟨hfull, by rw [taken, hcall]; rfl, b', hwf', hcall⟩
  | throws b' hfull hcall => exact .inl ⟨hfull, hcall, by rw [taken, hcall]; rfl⟩

/-- Twelve bytes fill a tail of ten and two bytes of `extrabuf`. -/
theorem scatter_read_example : ∃ s, Run Inbound.step { buff := Buff.new 10 }
    [.readFd (.data [1, 2, 3, 4, 5, 6, 7, 8, 9, 10, 11, 12]) true, .retrieve 9,
      .readFd (.error 11) true, .readFd (.data [13, 14]) true] s ∧
    s.retrieved = [1, 2, 3, 4, 5, 6, 7, 8, 9] ∧ s.retrieved ++ s.buff.readable = s.delivered := by
  have hrun : (exec Inbound.step { buff := Buff.new 10 }
      [.readFd (.data [1, 2, 3, 4, 5, 6, 7, 8, 9, 10, 11, 12]) true, .retrieve 9,
        .readFd (.error 11) true, .readFd (.data [13, 14]) true]).any
      (fun s => s.retrieved = [1, 2, 3, 4, 5, 6, 7, 8, 9] ∧ ∀ r ∈ s.reads, r.2 = []) = true := by
    decide +kernel
  obtain ⟨s, hs, hp⟩ := Run.of_exec_any hrun
  obtain ⟨hretrieved, hkept⟩ := of_decide_eq_true hp
  obtain ⟨-, hstream, hall, -⟩ := scatter_read (Buff.Wf.new (by decide)) hs
  rw [Buff.readable_new, List.nil_append, hall hkept] at hstream
  exact ⟨s, hs, hretrieved, hstream⟩

/-- Without memory for a bigger vector a call does not return, and the byte that did not fit is
lost. -/
theorem readFd_loses : ∃ s, Run Inbound.step { buff := Buff.new 2 }
    [.readFd (.data [1, 2, 3]) false] s ∧
    (Buff.new 2).readFd (.data [1, 2, 3]) false = none ∧
    s.retrieved ++ s.buff.readable ≠ (Buff.new 2).readable ++ s.delivered := by
  have hrun : (exec Inbound.step { buff := Buff.new 2 } [.readFd (.data [1, 2, 3]) false]).any
      (fun s => s.retrieved ++ s.buff.readable = [1, 2] ∧ s.delivered = [1, 2, 3]) = true := by
    decide +kernel
  obtain ⟨s, hs, hp⟩ := Run.of_exec_any hrun
  obtain ⟨hread, hdelivered⟩ := of_decide_eq_true hp
  refine ⟨s, hs, by decide +kernel, ?_⟩
  rw [hread, hdelivered]
  decide +kernel

end Inbound
end MuduoStudy
