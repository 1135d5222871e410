import MuduoStudy.Region

set_option autoImplicit true

namespace Region

/-- The first offset at which the pattern lies wholly in the sequence. -/
def firstOffset [DecidableEq α] (pat xs : List α) : Option Nat :=
  xs.tails.findIdx? fun t => pat <+: t

/-- `std::search` among the `n` elements from `first` on. It yields the position behind them if the
pattern does not occur. -/
def search [DecidableEq α] (mem pat : List α) (first : Nat) : Nat → Nat
  | 0 => first
  | n + 1 =>
    if n + 1 < pat.length then first + (n + 1)
    else if slice mem first pat.length = pat then first
    else search mem pat (first + 1) n

/-- `memchr` among the `n` elements from `first` on. -/
def memchr [DecidableEq α] (mem : List α) (c : α) (first : Nat) : Nat → Option Nat
  | 0 => none
  | n + 1 => if mem[first]? = some c then some first else memchr mem c (first + 1) n

theorem slice_eq_iff_prefix {mem pat : List α} (hp : pat.length ≤ n) :
    slice mem first pat.length = pat ↔ pat <+: slice mem first n := by
  rw [List.prefix_iff_eq_take, slice, slice, List.take_take, Nat.min_eq_left hp]
  exact eq_comm

section
variable [DecidableEq α] {pat xs mem : List α} {first n i : Nat}

theorem firstOffset_nil (h : pat ≠ []) : firstOffset pat [] = none := by
  simp [firstOffset, List.findIdx?_cons, h]

theorem firstOffset_cons (pat : List α) (x : α) (xs : List α) : firstOffset pat (x :: xs) =
    if pat <+: x :: xs then some 0 else (firstOffset pat xs).map (· + 1) := by
  rw [firstOffset, List.tails, List.findIdx?_cons]
  simp only [decide_eq_true_eq]
  rfl

theorem firstOffset_le (h : firstOffset pat xs = some i) : i + pat.length ≤ xs.length := by
  induction xs generalizing i with
  | nil =>
    by_cases hp : pat = []
    · subst pat
      cases h
      exact Nat.le_refl _
    · cases (firstOffset_nil hp).symm.trans h
  | cons x xs ih =>
    rw [firstOffset_cons] at h
    split at h
    · rename_i hpre
      cases h
      rw [Nat.zero_add]
      exact hpre.length_le
    · obtain ⟨j, hj, rfl⟩ := Option.map_eq_some_iff.1 h
      have hle := ih hj
      rw [List.length_cons]
      omega

theorem firstOffset_of_short (h : xs.length < pat.length) : firstOffset pat xs = none := by
  cases hf : firstOffset pat xs with
  | none => rfl
  | some i =>
    have hle := firstOffset_le hf
    omega

theorem search_eq (hpat : pat ≠ []) (h : first + n ≤ mem.length) :
    search mem pat first n = first + (firstOffset pat (slice mem first n)).getD n := by
  induction n generalizing first with
  | zero =>
    have hnil : slice mem first 0 = [] := List.take_zero
    rw [hnil, firstOffset_nil hpat]
    rfl
  | succ n ih =>
    have hlen : (slice mem first (n + 1)).length = n + 1 := length_slice h
    rw [search]
    split
    · rw [firstOffset_of_short (by omega)]
      rfl
    · rename_i hfit
      have hstarts : slice mem first pat.length = pat ↔ pat <+: slice mem first (n + 1) :=
        slice_eq_iff_prefix (by omega)
      have hin : first < mem.length := by omega
      have hcons := slice_succ hin n
      rw [hcons] at hstarts ⊢
      rw [firstOffset_cons]
      split
      · rename_i heq
        rw [if_pos (hstarts.1 heq)]
        rfl
      · rename_i hne
        rw [if_neg fun hp => hne (hstarts.2 hp), ih (by omega)]
        cases firstOffset pat (slice mem (first + 1) n) with
        | none =>
          simp only [Option.map_none, Option.getD_none]
          omega
        | some i =>
          simp only [Option.map_some, Option.getD_some]
          omega

theorem memchr_eq (c : α) (h : first + n ≤ mem.length) :
    memchr mem c first n = (firstOffset [c] (slice mem first n)).map (first + ·) := by
  induction n generalizing first with
  | zero =>
    have hnil : slice mem first 0 = [] := List.take_zero
    rw [hnil, firstOffset_nil (List.cons_ne_nil c [])]
    rfl
  | succ n ih =>
    have hfirst : first < mem.length := by omega
    have hhead : [c] <+: mem[first] :: slice mem (first + 1) n ↔ mem[first]? = some c := by
      rw [List.getElem?_eq_getElem hfirst, Option.some.injEq, List.cons_prefix_cons]
      exact ⟨fun hp => hp.1.symm, fun he => ⟨he.symm, List.nil_prefix⟩⟩
    rw [memchr, slice_succ hfirst, firstOffset_cons]
    split
    · rename_i heq
      rw [if_pos (hhead.2 heq)]
      rfl
    · rename_i hne
      rw [if_neg fun hp => hne (hhead.1 hp), ih (by omega), Option.map_map]
      congr 1
      funext i
      simp only [Function.comp_apply]
      omega

end
end Region
