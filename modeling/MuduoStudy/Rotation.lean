import Mathlib.Data.List.Basic

namespace Rotation

variable {κ : Type*} {p : κ → Bool} {q : List κ} {n : Nat}

/-- Takes up to `n` members that satisfy the predicate from the front of the queue and drops the
others that stand before the last of them. What stands behind is left. -/
def serve (p : κ → Bool) : List κ → Nat → List κ × List κ
  | q, 0 => ([], q)
  | [], _ + 1 => ([], [])
  | x :: q, n + 1 =>
    if p x then (x :: (serve p q n).1, (serve p q n).2) else serve p q (n + 1)

/-- Who has been served goes to the back. -/
def turn (p : κ → Bool) (q : List κ) (n : Nat) : List κ := (serve p q n).2 ++ (serve p q n).1

theorem serve_eq_take (p : κ → Bool) (q : List κ) (n : Nat) :
    (serve p q n).1 = (q.filter p).take n := by
  induction q generalizing n with
  | nil => cases n <;> rfl
  | cons x q ih =>
    cases n with
    | zero => rfl
    | succ n =>
      rw [serve]
      by_cases hx : p x = true
      · rw [if_pos hx, List.filter_cons_of_pos hx, List.take_succ_cons, ih]
      · rw [if_neg hx, List.filter_cons_of_neg hx, ih]

theorem exists_serve (p : κ → Bool) (q : List κ) (n : Nat) :
    ∃ front, q = front ++ (serve p q n).2 ∧ front.filter p = (serve p q n).1 := by
  induction q generalizing n with
  | nil => cases n <;> exact ⟨[], rfl, rfl⟩
  | cons x q ih =>
    cases n with
    | zero => exact ⟨[], rfl, rfl⟩
    | succ n =>
      rw [serve]
      by_cases hx : p x = true
      · rw [if_pos hx]
        obtain ⟨front, hq, hf⟩ := ih n
        refine ⟨x :: front, congrArg (x :: ·) hq, ?_⟩
        rw [List.filter_cons_of_pos hx, hf]
      · rw [if_neg hx]
        obtain ⟨front, hq, hf⟩ := ih (n + 1)
        refine ⟨x :: front, congrArg (x :: ·) hq, ?_⟩
        rw [List.filter_cons_of_neg hx, hf]

theorem length_serve (p : κ → Bool) (q : List κ) (n : Nat) :
    (serve p q n).1.length = min n (q.filter p).length := by
  rw [serve_eq_take, List.length_take]

theorem of_mem_serve (h : x ∈ (serve p q n).1) : x ∈ q ∧ p x = true := by
  rw [serve_eq_take] at h
  exact List.mem_filter.1 (List.mem_of_mem_take h)

theorem rest_of_lt (h : (serve p q n).1.length < n) : (serve p q n).2 = [] := by
  induction q generalizing n with
  | nil => cases n <;> rfl
  | cons x q ih =>
    cases n with
    | zero => cases h
    | succ n =>
      rw [serve] at h ⊢
      by_cases hx : p x = true
      · rw [if_pos hx] at h ⊢
        exact ih (Nat.lt_of_succ_lt_succ h)
      · rw [if_neg hx] at h ⊢
        exact ih h

theorem mem_of_mem_turn (h : x ∈ turn p q n) : x ∈ q := by
  obtain ⟨front, hq, -⟩ := exists_serve p q n
  rcases List.mem_append.1 h with hx | hx
  · rw [hq]
    exact List.mem_append_right _ hx
  · exact (of_mem_serve hx).1

theorem mem_turn (h : x ∈ q) (hp : p x = true) : x ∈ turn p q n := by
  obtain ⟨front, hq, hf⟩ := exists_serve p q n
  rw [hq] at h
  rcases List.mem_append.1 h with hx | hx
  · apply List.mem_append_right
    rw [← hf]
    exact List.mem_filter.2 ⟨hx, hp⟩
  · exact List.mem_append_left _ hx

theorem nodup_turn (h : q.Nodup) : (turn p q n).Nodup := by
  obtain ⟨front, hq, hf⟩ := exists_serve p q n
  rw [hq] at h
  rw [turn, List.perm_append_comm.nodup_iff, ← hf]
  exact h.sublist (List.filter_sublist.append_right _)

variable [DecidableEq κ] {x : κ}

/-- Who waits and is not served gets at least `n` places forward. -/
theorem idxOf_turn (h : x ∈ q) (hp : p x = true) (hn : x ∉ (serve p q n).1) :
    (turn p q n).idxOf x + n ≤ q.idxOf x := by
  obtain ⟨front, hq, hf⟩ := exists_serve p q n
  have hfront : x ∉ front := by
    intro hx
    apply hn
    rw [← hf]
    exact List.mem_filter.2 ⟨hx, hp⟩
  have hrest : x ∈ (serve p q n).2 := by
    rw [hq] at h
    exact (List.mem_append.1 h).resolve_left hfront
  have hfull : n ≤ (serve p q n).1.length := by
    apply Nat.le_of_not_lt
    intro hlt
    rw [rest_of_lt hlt] at hrest
    cases hrest
  have hlong : (serve p q n).1.length ≤ front.length := by
    rw [← hf]
    exact List.length_filter_le p front
  have hindex : q.idxOf x = front.length + (serve p q n).2.idxOf x :=
    (congrArg (List.idxOf x) hq).trans (List.idxOf_append_of_notMem hfront)
  rw [turn, List.idxOf_append_of_mem hrest, hindex]
  omega

theorem idxOf_erase_le (h : x ≠ y) (q : List κ) : (q.erase y).idxOf x ≤ q.idxOf x := by
  induction q with
  | nil => exact Nat.le_refl _
  | cons z q ih =>
    by_cases hz : z = y
    · subst z
      rw [List.erase_cons_head, List.idxOf_cons_ne q h.symm]
      exact Nat.le_succ _
    · rw [List.erase_cons_tail (by simpa using hz)]
      by_cases hx : z = x
      · rw [List.idxOf_cons_eq _ hx]
        exact Nat.zero_le _
      · rw [List.idxOf_cons_ne _ hx, List.idxOf_cons_ne _ hx]
        exact Nat.succ_le_succ ih

end Rotation
