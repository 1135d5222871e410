import Mathlib.Algebra.Order.Ring.Nat
import Mathlib.Data.List.Basic
import Mathlib.Logic.Function.Basic

set_option autoImplicit true

namespace Region

/-- The `n` elements from position `i` on. -/
def slice (mem : List α) (i n : Nat) : List α := (mem.drop i).take n

/-- Stores the data from position `i` on. -/
def write (mem : List α) (i : Nat) (data : List α) : List α :=
  mem.take i ++ data ++ mem.drop (i + data.length)

/-- Copies `n` elements one after another, the lowest position first. -/
def move (mem : List α) (src dst : Nat) : Nat → List α
  | 0 => mem
  | n + 1 =>
    match mem[src]? with
    | some x => move (mem.set dst x) (src + 1) (dst + 1) n
    | none => mem

theorem length_slice {mem : List α} (h : i + n ≤ mem.length) : (slice mem i n).length = n := by
  simp only [slice, List.length_take, List.length_drop]
  omega

theorem length_write {mem data : List α} (h : i + data.length ≤ mem.length) :
    (write mem i data).length = mem.length := by
  simp only [write, List.length_append, List.length_take, List.length_drop]
  omega

theorem length_move (mem : List α) (src dst n : Nat) :
    (move mem src dst n).length = mem.length := by
  induction n generalizing mem src dst with
  | zero => rfl
  | succ n ih =>
    rw [move]
    split
    · rw [ih, List.length_set]
    · rfl

theorem slice_add (mem : List α) (i m n : Nat) :
    slice mem i (m + n) = slice mem i m ++ slice mem (i + m) n := by
  rw [slice, List.take_add, List.drop_drop]
  rfl

theorem slice_succ {mem : List α} (h : i < mem.length) (n : Nat) :
    slice mem i (n + 1) = mem[i] :: slice mem (i + 1) n := by
  rw [slice, List.drop_eq_getElem_cons h, List.take_succ_cons]
  rfl

theorem drop_slice (mem : List α) (i n k : Nat) :
    (slice mem i n).drop k = slice mem (i + k) (n - k) := by
  rw [slice, List.drop_take, List.drop_drop]
  rfl

theorem take_slice {mem : List α} (h : k ≤ n) : (slice mem i n).take k = slice mem i k := by
  rw [slice, List.take_take, Nat.min_eq_left h]
  rfl

theorem getElem?_slice (mem : List α) (i n k : Nat) :
    (slice mem i n)[k]? = if k < n then mem[i + k]? else none := by
  rw [slice, List.getElem?_take, List.getElem?_drop]

theorem slice_eq_iff (mem mem' : List α) (i n : Nat) :
    slice mem i n = slice mem' i n ↔ ∀ k < n, mem[i + k]? = mem'[i + k]? := by
  constructor
  · intro h k hk
    have hget := congrArg (fun l => l[k]?) h
    simp only [getElem?_slice, if_pos hk] at hget
    exact hget
  · intro h
    refine List.ext_getElem? fun k => ?_
    rw [getElem?_slice, getElem?_slice]
    split
    · rename_i hk
      exact h k hk
    · rfl

theorem slice_append_left (h : i + n ≤ mem.length) (extra : List α) :
    slice (mem ++ extra) i n = slice mem i n := by
  rw [slice, List.drop_append_of_le_length (by omega), List.take_append_of_le_length]
  · rfl
  · simp only [List.length_drop]
    omega

theorem getElem?_write {mem data : List α} (h : i + data.length ≤ mem.length) (k : Nat) :
    (write mem i data)[k]? =
      if i ≤ k ∧ k < i + data.length then data[k - i]? else mem[k]? := by
  have hi : (mem.take i).length = i := List.length_take_of_le (by omega)
  have hfront : (mem.take i ++ data).length = i + data.length := by
    rw [List.length_append, hi]
  rw [write]
  by_cases hbefore : k < i
  · rw [if_neg (by omega), List.append_assoc, List.getElem?_append_left (by omega),
      List.getElem?_take_of_lt hbefore]
  · by_cases hin : k < i + data.length
    · rw [if_pos (by omega), List.getElem?_append_left (by omega),
        List.getElem?_append_right (by omega), hi]
    · rw [if_neg (by omega), List.getElem?_append_right (by omega), hfront, List.getElem?_drop]
      congr 1
      omega

theorem slice_write_same {mem data : List α} (h : i ≤ mem.length) :
    slice (write mem i data) i data.length = data := by
  have hi : (mem.take i).length = i := List.length_take_of_le h
  rw [slice, write, List.append_assoc, List.drop_append_of_le_length (by omega),
    List.drop_of_length_le (by omega), List.nil_append, List.take_left]

theorem slice_write_before {mem data : List α} (h : i ≤ mem.length) (hn : j + n ≤ i) :
    slice (write mem i data) j n = slice mem j n := by
  have hi : (mem.take i).length = i := List.length_take_of_le h
  have hmem : mem = mem.take i ++ mem.drop i := (List.take_append_drop i mem).symm
  calc slice (write mem i data) j n
      = slice (mem.take i ++ (data ++ mem.drop (i + data.length))) j n := by
        rw [write, List.append_assoc]
    _ = slice (mem.take i) j n := slice_append_left (by omega) _
    _ = slice (mem.take i ++ mem.drop i) j n := (slice_append_left (by omega) _).symm
    _ = slice mem j n := by rw [← hmem]

theorem slice_write_extend {mem data : List α} (h : i + n + data.length ≤ mem.length) :
    slice (write mem (i + n) data) i (n + data.length) = slice mem i n ++ data := by
  rw [slice_add, slice_write_before (by omega) (Nat.le_refl _), slice_write_same (by omega)]

theorem slice_write_behind {mem data : List α} (h : i ≤ mem.length) (hj : i + data.length ≤ j)
    (n : Nat) : slice (write mem i data) j n = slice mem j n := by
  have hi : (mem.take i).length = i := List.length_take_of_le h
  have hfront : (mem.take i ++ data).length = i + data.length := by
    rw [List.length_append, hi]
  have hdrop : (write mem i data).drop (i + data.length) = mem.drop (i + data.length) := by
    rw [write, ← hfront, List.drop_left]
  obtain ⟨m, rfl⟩ := Nat.exists_eq_add_of_le hj
  rw [slice, ← List.drop_drop, hdrop, List.drop_drop]
  rfl

theorem slice_write_front {mem data : List α} (h : i ≤ mem.length) (n : Nat) :
    slice (write mem i data) i (data.length + n) = data ++ slice mem (i + data.length) n := by
  rw [slice_add, slice_write_same h, slice_write_behind h (Nat.le_refl _)]

theorem write_cons {mem : List α} (h : i < mem.length) (x : α) (data : List α) :
    write mem i (x :: data) = write (mem.set i x) (i + 1) data := by
  have htake : (mem.set i x).take (i + 1) = mem.take i ++ [x] := by
    have hi : (mem.take i).length = i := List.length_take_of_le (Nat.le_of_lt h)
    rw [List.take_set, List.take_succ_eq_append_getElem h,
      List.set_append_right _ _ (Nat.le_of_eq hi), hi, Nat.sub_self]
    rfl
  have hdrop : (mem.set i x).drop (i + 1 + data.length) = mem.drop (i + 1 + data.length) :=
    List.drop_set_of_lt (by omega)
  have hlen : i + (x :: data).length = i + 1 + data.length := by
    rw [List.length_cons]
    omega
  rw [write, write, htake, hdrop, hlen, List.append_assoc, List.append_assoc, List.append_assoc]
  rfl

theorem write_nil (mem : List α) (i : Nat) : write mem i [] = mem := by
  rw [write, List.append_nil]
  exact List.take_append_drop i mem

theorem move_eq_write {mem : List α} (hdst : dst ≤ src) (h : src + n ≤ mem.length) :
    move mem src dst n = write mem dst (slice mem src n) := by
  induction n generalizing mem src dst with
  | zero => rw [slice, List.take_zero, write_nil, move]
  | succ n ih =>
    have hsrc : src < mem.length := by omega
    have hset : slice (mem.set dst mem[src]) (src + 1) n = slice mem (src + 1) n := by
      rw [slice, slice, List.drop_set_of_lt (by omega)]
    have hmove : move mem src dst (n + 1) = move (mem.set dst mem[src]) (src + 1) (dst + 1) n := by
      simp only [move, List.getElem?_eq_getElem hsrc]
    have hrest : src + 1 + n ≤ (mem.set dst mem[src]).length := by
      rw [List.length_set]
      omega
    rw [hmove, slice_succ hsrc, write_cons (by omega), ih (by omega) hrest, hset]

/-- Copying towards the front overwrites nothing that it has not read yet. -/
theorem slice_move_behind {mem : List α} (hdst : dst ≤ src) (h : src + k ≤ mem.length) (n : Nat) :
    slice (move mem src dst k) (src + k) n = slice mem (src + k) n := by
  have hlen : (slice mem src k).length = k := length_slice h
  rw [move_eq_write hdst h]
  exact slice_write_behind (by omega) (by omega) n

end Region

namespace Memory

structure Pointer where
  block : Nat
  offset : Nat
  deriving DecidableEq

/-- The blocks of memory that are in use. -/
abbrev Heap (α : Type u) := Nat → Option (List α)

/-- The elements of a block, if it is in use and long enough. No elements are always there. -/
def fetch (block : Option (List α)) (offset len : Nat) : Option (List α) :=
  if len = 0 then some []
  else block.bind fun b =>
    if offset + len ≤ b.length then some (Region.slice b offset len) else none

def read (h : Heap α) (p : Pointer) (len : Nat) : Option (List α) := fetch (h p.block) p.offset len

theorem read_update (h : Heap α) (b : Nat) (block : Option (List α)) (p : Pointer) (len : Nat) :
    read (Function.update h b block) p len =
      if p.block = b then fetch block p.offset len else read h p len := by
  by_cases hb : p.block = b
  · rw [read, hb, Function.update_self, if_pos rfl]
  · rw [read, Function.update_of_ne hb, if_neg hb]
    rfl

theorem fetch_of_none (h : fetch (none : Option (List α)) offset len = some data)
    (block : Option (List α)) : fetch block offset len = some data := by
  rw [fetch] at h ⊢
  by_cases hlen : len = 0
  · rw [if_pos hlen] at h ⊢
    exact h
  · rw [if_neg hlen] at h
    cases h

end Memory
