import Mathlib.Data.List.Basic

namespace Descriptors

variable {κ : Type*} {t t' : List (Option κ)} {k : κ} {fd fd' : Nat}

/-- The open file behind a descriptor of a process. The length of the table is the limit on the
number of descriptors. -/
def file (t : List (Option κ)) (fd : Nat) : Option κ := t.getD fd none

/-- A new descriptor is the lowest one that is free. -/
def openFile (t : List (Option κ)) (k : κ) : Option (Nat × List (Option κ)) :=
  (t.findIdx? Option.isNone).map fun fd => (fd, t.set fd (some k))

def closeFile (t : List (Option κ)) (fd : Nat) : List (Option κ) := t.set fd none

def Full (t : List (Option κ)) : Prop := none ∉ t

instance (t : List (Option κ)) : Decidable (Full t) :=
  decidable_of_iff (∀ x ∈ t, x.isSome = true) (by
    constructor
    · intro h hn
      cases h none hn
    · intro h x hx
      cases x with
      | none => exact (h hx).elim
      | some => rfl)

theorem file_set (t : List (Option κ)) (x : Option κ) (fd fd' : Nat) :
    file (t.set fd x) fd' = if fd = fd' ∧ fd < t.length then x else file t fd' := by
  simp only [file, List.getD_eq_getElem?_getD, List.getElem?_set]
  by_cases h : fd = fd'
  · subst h
    by_cases hlt : fd < t.length
    · simp [hlt]
    · simp [hlt]
  · simp [h]

theorem file_closeFile_self (t : List (Option κ)) (fd : Nat) : file (closeFile t fd) fd = none := by
  rw [closeFile, file_set]
  split
  · rfl
  · rename_i h
    have hle : t.length ≤ fd := Nat.le_of_not_lt fun hlt => h ⟨rfl, hlt⟩
    simp only [file, List.getD_eq_getElem?_getD, List.getElem?_eq_none hle, Option.getD_none]

theorem file_closeFile_of_ne (h : fd' ≠ fd) : file (closeFile t fd) fd' = file t fd' := by
  rw [closeFile, file_set, if_neg fun hn => h hn.1.symm]

theorem file_closeFile_iff :
    file (closeFile t fd) fd' = some k ↔ fd' ≠ fd ∧ file t fd' = some k := by
  constructor
  · intro h
    have hne : fd' ≠ fd := by
      rintro rfl
      cases (file_closeFile_self t fd').symm.trans h
    exact ⟨hne, file_closeFile_of_ne hne ▸ h⟩
  · rintro ⟨hne, h⟩
    exact (file_closeFile_of_ne hne).trans h

theorem file_closeFile_other {f : κ} (hf : file t fd = some f) (hne : k ≠ f) :
    file (closeFile t fd) fd' = some k ↔ file t fd' = some k := by
  rw [file_closeFile_iff]
  refine ⟨fun h => h.2, fun h => ⟨?_, h⟩⟩
  rintro rfl
  exact hne (Option.some.inj (h.symm.trans hf))

theorem openFile_eq_some (h : openFile t k = some (fd, t')) :
    file t fd = none ∧ file t' fd = some k ∧ ∀ fd', fd' ≠ fd → file t' fd' = file t fd' := by
  obtain ⟨i, hi, heq⟩ := Option.map_eq_some_iff.1 h
  cases heq
  obtain ⟨hlt, hnone, -⟩ := List.findIdx?_eq_some_iff_getElem.1 hi
  have hget : t[fd] = none := Option.isNone_iff_eq_none.1 hnone
  refine ⟨?_, ?_, ?_⟩
  · simp only [file, List.getD_eq_getElem?_getD, List.getElem?_eq_getElem hlt, hget,
      Option.getD_some]
  · rw [file_set, if_pos ⟨rfl, hlt⟩]
  · intro fd' hne
    rw [file_set, if_neg fun hn => hne hn.1.symm]

theorem file_openFile_iff {f : κ} (h : openFile t k = some (fd, t')) :
    file t' fd' = some f ↔ fd' = fd ∧ f = k ∨ file t fd' = some f := by
  obtain ⟨hfree, hself, hother⟩ := openFile_eq_some h
  by_cases hne : fd' = fd
  · subst hne
    rw [hself, hfree]
    constructor
    · intro hf
      exact .inl ⟨rfl, (Option.some.inj hf).symm⟩
    · rintro (⟨-, rfl⟩ | hf)
      · rfl
      · cases hf
  · rw [hother fd' hne]
    constructor
    · exact .inr
    · exact fun hf => hf.resolve_left fun hn => hne hn.1

end Descriptors
