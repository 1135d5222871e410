import Mathlib.Logic.Function.Basic

namespace Transition

variable {σ α β : Type*}

/-- The actions, taken one after another, lead from the first state to the second. -/
inductive Run (step : σ → α → Option σ) : σ → List α → σ → Prop where
  | nil (s : σ) : Run step s [] s
  | cons {s t u a as} : step s a = some t → Run step t as u → Run step s (a :: as) u

/-- Executing a list of actions fails at the first one that is not enabled. -/
def exec (step : σ → α → Option σ) : σ → List α → Option σ
  | s, [] => some s
  | s, a :: as => (step s a).bind fun t => exec step t as

variable {step : σ → α → Option σ} {s t u : σ} {a : α} {as : List α}
  {P I D : σ → Prop} {C E : σ → α → Prop}

theorem Run.of_exec (h : exec step s as = some t) : Run step s as t := by
  induction as generalizing s with
  | nil =>
    cases h
    exact .nil _
  | cons a as ih =>
    obtain ⟨u, hu, ht⟩ := Option.bind_eq_some_iff.1 h
    exact .cons hu (ih ht)

theorem Run.append {bs : List α} (h : Run step s as t) (h' : Run step t bs u) :
    Run step s (as ++ bs) u := by
  induction h with
  | nil => exact h'
  | cons hs _ ih => exact .cons hs (ih h')

theorem Run.of_exec_any {p : σ → Bool} (h : (exec step s as).any p = true) :
    ∃ t, Run step s as t ∧ p t = true := by
  obtain ⟨t, ht, hp⟩ := (Option.any_eq_true _ _).1 h
  exact ⟨t, .of_exec ht, hp⟩

theorem Run.invariant (h : Run step s as t) (h0 : P s)
    (hstep : ∀ s a t, P s → step s a = some t → P t) : P t := by
  induction h with
  | nil => exact h0
  | cons hs hr ih => exact ih (hstep _ _ _ h0 hs)

/-- Every step of the execution meets a condition on its action and on the state before it. -/
def AllSteps (step : σ → α → Option σ) (C : σ → α → Prop) : σ → List α → Prop
  | _, [] => True
  | s, a :: as => C s a ∧ ∀ t, step s a = some t → AllSteps step C t as

theorem AllSteps.of_mem (h : ∀ a ∈ as, ∀ s, C s a) : AllSteps step C s as := by
  induction as generalizing s with
  | nil => trivial
  | cons a as ih =>
    refine ⟨h a List.mem_cons_self s, ?_⟩
    intro t _
    exact ih fun b hb => h b (List.mem_cons_of_mem a hb)

theorem AllSteps.and (h : AllSteps step C s as) (h' : AllSteps step E s as) :
    AllSteps step (fun s a => C s a ∧ E s a) s as := by
  induction as generalizing s with
  | nil => trivial
  | cons a as ih => exact ⟨⟨h.1, h'.1⟩, fun t ht => ih (h.2 t ht) (h'.2 t ht)⟩

instance AllSteps.decidable (step : σ → α → Option σ) (C : σ → α → Prop)
    [∀ s a, Decidable (C s a)] : (s : σ) → (as : List α) → Decidable (AllSteps step C s as)
  | _, [] => isTrue trivial
  | s, a :: as =>
    match h : step s a with
    | none =>
      decidable_of_iff (C s a) ⟨fun hc => ⟨hc, fun _ ht => nomatch h.symm.trans ht⟩, And.left⟩
    | some t =>
      have := AllSteps.decidable step C t as
      decidable_of_iff (C s a ∧ AllSteps step C t as)
        ⟨fun hc => ⟨hc.1, fun _ ht => Option.some.inj (h.symm.trans ht) ▸ hc.2⟩,
          fun hc => ⟨hc.1, hc.2 t h⟩⟩

/-- Every state of the execution, the first included, satisfies the predicate. -/
def AllStates (step : σ → α → Option σ) (P : σ → Prop) : σ → List α → Prop
  | s, [] => P s
  | s, a :: as => P s ∧ ∀ t, step s a = some t → AllStates step P t as

instance AllStates.decidable (step : σ → α → Option σ) (P : σ → Prop) [DecidablePred P] :
    (s : σ) → (as : List α) → Decidable (AllStates step P s as)
  | s, [] => inferInstanceAs (Decidable (P s))
  | s, a :: as =>
    match h : step s a with
    | none =>
      decidable_of_iff (P s) ⟨fun hp => ⟨hp, fun _ ht => nomatch h.symm.trans ht⟩, And.left⟩
    | some t =>
      have := AllStates.decidable step P t as
      decidable_of_iff (P s ∧ AllStates step P t as)
        ⟨fun hp => ⟨hp.1, fun _ ht => Option.some.inj (h.symm.trans ht) ▸ hp.2⟩,
          fun hp => ⟨hp.1, hp.2 t h⟩⟩

theorem AllStates.head (h : AllStates step P s as) : P s := by
  cases as with
  | nil => exact h
  | cons a as => exact h.1

theorem AllStates.allSteps (h : AllStates step P s as) :
    AllSteps step (fun s a => P s ∧ ∀ t, step s a = some t → P t) s as := by
  induction as generalizing s with
  | nil => trivial
  | cons a as ih =>
    refine ⟨⟨h.1, fun t ht => (h.2 t ht).head⟩, ?_⟩
    intro t ht
    exact ih (h.2 t ht)

/-- A state predicate kept by the steps that meet a condition holds at the end of every run
whose steps all meet it. -/
theorem Run.invariant_when (h : Run step s as t) (hC : AllSteps step C s as) (h0 : P s)
    (hstep : ∀ s a t, P s → C s a → step s a = some t → P t) : P t := by
  induction h with
  | nil => exact h0
  | cons hs hr ih => exact ih (hC.2 _ hs) (hstep _ _ _ h0 hC.1 hs)

theorem Run.allStates_when (h : Run step s as t) (hC : AllSteps step C s as) (h0 : I s)
    (hstep : ∀ s a t, I s → C s a → step s a = some t → I t) (hP : ∀ s, I s → P s) :
    AllStates step P s as := by
  induction h with
  | nil => exact hP _ h0
  | cons hs hr ih =>
    refine ⟨hP _ h0, ?_⟩
    intro t' ht'
    cases hs.symm.trans ht'
    exact ih (hC.2 _ hs) (hstep _ _ _ h0 hC.1 hs)

theorem Run.allSteps_when (h : Run step s as t) (hC : AllSteps step C s as) (h0 : I s)
    (hstep : ∀ s a t, I s → C s a → step s a = some t → I t) (hE : ∀ s a, I s → C s a → E s a) :
    AllSteps step E s as := by
  induction h with
  | nil => trivial
  | cons hs hr ih =>
    refine ⟨hE _ _ h0 hC.1, ?_⟩
    intro t' ht'
    cases hs.symm.trans ht'
    exact ih (hC.2 _ hs) (hstep _ _ _ h0 hC.1 hs)

/-- Where an invariant holds and a step is good exactly when it meets the condition, all steps of a
run are good exactly when they all meet it. The steps that meet it keep the invariant. -/
theorem Run.allSteps_iff (h : Run step s as u) (h0 : I s)
    (hkeep : ∀ s a t, I s → C s a → step s a = some t → I t)
    (hiff : ∀ s a t, I s → step s a = some t → (E s a ↔ C s a)) :
    AllSteps step E s as ↔ AllSteps step C s as := by
  induction h with
  | nil => exact Iff.rfl
  | @cons s t u a as hs hr ih =>
    have hnext (hE : AllSteps step E t as) (t' : σ) (ht' : step s a = some t') :
        AllSteps step E t' as := by
      cases hs.symm.trans ht'
      exact hE
    have hnext' (hC : AllSteps step C t as) (t' : σ) (ht' : step s a = some t') :
        AllSteps step C t' as := by
      cases hs.symm.trans ht'
      exact hC
    constructor
    · rintro ⟨he, hall⟩
      have hc := (hiff _ _ _ h0 hs).1 he
      exact ⟨hc, hnext' ((ih (hkeep _ _ _ h0 hc hs)).1 (hall t hs))⟩
    · rintro ⟨hc, hall⟩
      exact ⟨(hiff _ _ _ h0 hs).2 hc, hnext ((ih (hkeep _ _ _ h0 hc hs)).2 (hall t hs))⟩

theorem Run.of_allStates (h : Run step s as t) (hP : AllStates step P s as) : P t := by
  induction h with
  | nil => exact hP
  | cons hs hr ih => exact ih (hP.2 _ hs)

/-- Where a good state has a good successor exactly when the step meets the condition, a run
visits only good states exactly when all of its steps meet it. -/
theorem Run.allStates_iff (h : Run step s as u) (hI : I s) (hP : P s)
    (hkeep : ∀ s a t, I s → step s a = some t → I t)
    (hstep : ∀ s a t, I s → P s → step s a = some t → (P t ↔ C s a)) :
    AllStates step P s as ↔ AllSteps step C s as := by
  induction h with
  | nil => exact ⟨fun _ => trivial, fun _ => hP⟩
  | @cons s t u a as hs hr ih =>
    have hI' := hkeep _ _ _ hI hs
    have hiff := hstep _ _ _ hI hP hs
    have first (h : AllStates step P t as) : P t := by
      cases as with
      | nil => exact h
      | cons b bs => exact h.1
    refine ⟨fun hall => ?_, fun hall => ⟨hP, fun t' ht' => ?_⟩⟩
    · have ht := hall.2 t hs
      refine ⟨hiff.1 (first ht), ?_⟩
      intro t' ht'
      cases hs.symm.trans ht'
      exact (ih hI' (first ht)).1 ht
    · cases hs.symm.trans ht'
      exact (ih hI' (hiff.2 hall.1)).2 (hall.2 t hs)

theorem Run.exists_step (h : Run step s as t) (hC : ¬ AllSteps step C s as) :
    ∃ before a after u v, as = before ++ a :: after ∧ Run step s before u ∧ step u a = some v ∧
      ¬ C u a := by
  induction h with
  | nil => exact (hC trivial).elim
  | @cons s t u a as hs hr ih =>
    by_cases hc : C s a
    · obtain ⟨before, b, after, u, v, has, hu, hv, hb⟩ := ih fun hall => hC ⟨hc, fun t' ht' => by
        cases hs.symm.trans ht'
        exact hall⟩
      exact ⟨a :: before, b, after, u, v, congrArg (a :: ·) has, .cons hs hu, hv, hb⟩
    · exact ⟨[], a, as, s, t, rfl, .nil s, hs, hc⟩

/-- Where a measure never rises and each of the chosen steps lowers it by some amount, a run holds
no more of these than the measure allows. -/
theorem Run.count_le (μ : σ → Nat) (p : α → Bool) (n : Nat) (h : Run step s as t)
    (hC : AllSteps step C s as) (h0 : I s)
    (hstep : ∀ s a t, I s → C s a → step s a = some t →
      I t ∧ μ t + (if p a then n else 0) ≤ μ s) :
    as.countP p * n + μ t ≤ μ s := by
  induction h with
  | nil => exact Nat.le_of_eq (by rw [List.countP_nil, Nat.zero_mul, Nat.zero_add])
  | @cons s t u a as hs hr ih =>
    obtain ⟨hI, hle⟩ := hstep _ _ _ h0 hC.1 hs
    have hrest := ih (hC.2 _ hs) hI
    rw [List.countP_cons]
    by_cases hp : p a = true
    · rw [if_pos hp] at hle ⊢
      rw [Nat.add_mul, Nat.one_mul]
      omega
    · rw [if_neg hp] at hle ⊢
      rw [Nat.add_zero]
      omega

theorem Run.length_le (μ : σ → Nat) (h : Run step s as t) (hC : AllSteps step C s as) (h0 : I s)
    (hstep : ∀ s a t, I s → C s a → step s a = some t → I t ∧ μ t < μ s) :
    as.length + μ t ≤ μ s := by
  have hcount := h.count_le μ (fun _ => true) 1 hC h0 fun s a t hI hc hs => hstep s a t hI hc hs
  rwa [List.countP_true, Nat.mul_one] at hcount

def tally (step : σ → α → Option σ) (p : σ → α → Bool) : σ → List α → Nat
  | _, [] => 0
  | s, a :: as =>
    (if p s a then 1 else 0) +
      match step s a with
      | none => 0
      | some t => tally step p t as

/-- Where each step of one kind pays one unit of a potential and each other step adds a bounded
number of them, the steps of the first kind are bounded by the others. -/
theorem Run.tally_le (μ : σ → Nat) (p : σ → α → Bool) (c : Nat) (h : Run step s as t)
    (hC : AllSteps step C s as) (h0 : I s) (hstep : ∀ s a t, I s → C s a → step s a = some t →
      I t ∧ μ t + (if p s a then 1 else 0) ≤ μ s + (if p s a then 0 else c)) :
    tally step p s as + μ t ≤ μ s + c * tally step (fun s a => !p s a) s as := by
  induction h with
  | nil => exact Nat.le_of_eq (Nat.add_comm _ _)
  | @cons s t u a as hs hr ih =>
    obtain ⟨hI, hle⟩ := hstep _ _ _ h0 hC.1 hs
    have hrest := ih (hC.2 _ hs) hI
    simp only [tally, hs]
    by_cases hp : p s a = true
    · simp only [hp, ↓reduceIte, Nat.add_zero] at hle
      simp only [hp, Bool.not_true, Bool.false_eq_true, ↓reduceIte, Nat.zero_add]
      omega
    · simp only [hp, Bool.false_eq_true, ↓reduceIte, Nat.add_zero] at hle
      simp only [hp, Bool.not_false, Bool.false_eq_true, ↓reduceIte, Nat.mul_add, Nat.mul_one]
      omega

/-- Where every state short of the goal has a step that keeps the invariant and lowers a measure,
some run of such steps reaches the goal. -/
theorem exists_run (μ : σ → Nat) (h0 : I s)
    (hstep : ∀ s, I s → ¬ D s → ∃ a t, C s a ∧ step s a = some t ∧ I t ∧ μ t < μ s) :
    ∃ as t, Run step s as t ∧ AllSteps step C s as ∧ I t ∧ D t := by
  induction hn : μ s using Nat.strongRecOn generalizing s with
  | _ n ih =>
    by_cases hd : D s
    · exact ⟨[], s, .nil s, trivial, h0, hd⟩
    · obtain ⟨a, t, hC, hs, hI, hlt⟩ := hstep s h0 hd
      obtain ⟨as, u, hr, hall, hu⟩ := ih (μ t) (hn ▸ hlt) hI rfl
      refine ⟨a :: as, u, .cons hs hr, ⟨hC, ?_⟩, hu⟩
      intro t' ht'
      cases hs.symm.trans ht'
      exact hall

/-- The system together with a history, newest first, of what its steps emit. -/
def recorded (step : σ → α → Option σ) (emit : σ → α → List β) (x : σ × List β) (a : α) :
    Option (σ × List β) :=
  (step x.1 a).map fun t => (t, emit x.1 a ++ x.2)

/-- Where a state and the history up to it stay related, a property of the states and one of the
histories that agree on related ones agree on whole runs. -/
theorem Run.allStates_recorded {emit : σ → α → List β} {log : List β} {J : σ → List β → Prop}
    {Q : σ × List β → Prop} (h : Run step s as u) (h0 : J s log)
    (hkeep : ∀ s log a t, J s log → step s a = some t → J t (emit s a ++ log))
    (hiff : ∀ s log, J s log → (P s ↔ Q (s, log))) :
    AllStates step P s as ↔ AllStates (recorded step emit) Q (s, log) as := by
  induction h generalizing log with
  | nil => exact hiff _ _ h0
  | @cons s t u a as hs hr ih =>
    have hrest := ih (hkeep _ _ _ _ h0 hs)
    have hrec : recorded step emit (s, log) a = some (t, emit s a ++ log) := by
      rw [recorded, hs]
      rfl
    constructor
    · rintro ⟨hp, hall⟩
      refine ⟨(hiff _ _ h0).1 hp, ?_⟩
      intro x hx
      cases hrec.symm.trans hx
      exact hrest.1 (hall t hs)
    · rintro ⟨hq, hall⟩
      refine ⟨(hiff _ _ h0).2 hq, ?_⟩
      intro t' ht'
      cases hs.symm.trans ht'
      exact hrest.2 (hall _ hrec)

/-- A step that breaks the condition leads to a doomed state, and doom is never left: a run
with such a step ends doomed. -/
theorem Run.doomed (h : Run step s as t) (hC : ¬ AllSteps step C s as)
    (hI : I s) (hkeep : ∀ s a t, I s → step s a = some t → I t)
    (hbreak : ∀ s a t, I s → ¬ C s a → step s a = some t → D t)
    (hdoom : ∀ s a t, I s → D s → step s a = some t → D t) : D t := by
  have stays {s t : σ} {as : List α} (hr : Run step s as t) (hI : I s) (hD : D s) : D t := by
    induction hr with
    | nil => exact hD
    | cons hs hr ih => exact ih (hkeep _ _ _ hI hs) (hdoom _ _ _ hI hD hs)
  induction h with
  | nil => exact (hC trivial).elim
  | @cons s t u a as hs hr ih =>
    have hI' := hkeep _ _ _ hI hs
    by_cases hc : C s a
    · refine ih (fun hall => hC ⟨hc, fun t' ht' => ?_⟩) hI'
      cases hs.symm.trans ht'
      exact hall
    · exact stays hr hI' (hbreak _ _ _ hI hc hs)

end Transition
