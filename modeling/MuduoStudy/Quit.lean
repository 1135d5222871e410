import MuduoStudy.FunctorQueue

namespace MuduoStudy.EventLoop
open Transition
set_option autoImplicit true

/-- The `quit_` test of `loop` comes before the next swap of `doPendingFunctors`. -/
def Pc.late : Pc → Bool
  | .whileQuit | .unlock | .forFunctors | .functor | .callingFalse | .loopingFalse => true
  | _ => false

/-- How many of the queued functors the loop's thread has taken out of `pendingFunctors_`. -/
def taken (s : EventLoop F) : Nat := s.executed.length + s.functors.length

/-- Every functor promised to be executed before `loop` returns has been executed. -/
def Drained (s : EventLoop F) : Prop := ∀ k ∈ s.promised, k < s.executed.length

def Call.setsQuit : Call F → Bool
  | .quitTrue => true
  | _ => false

/-- While the test of `quit_` comes before the next swap, a `quit` neither begins with `quit_`
already set, nor sets it, if a functor it has to wait for is still in `pendingFunctors_`. -/
def QuitSafe (s : EventLoop F) : Action F → Prop
  | .quit _ => s.pc.late = true → s.quit_ = true → ∀ k ∈ s.finished, k < s.taken
  | .advance t =>
    (s.call t).setsQuit = true → s.pc.late = true → ∀ k ∈ s.promised, k < s.taken
  | _ => True

instance (s : EventLoop F) (a : Action F) : Decidable (QuitSafe s a) :=
  match a with
  | .quit _ => inferInstanceAs (Decidable (_ → _ → _))
  | .advance _ => inferInstanceAs (Decidable (_ → _ → _))
  | .loop | .poll _ | .handleRead | .queueInloop .. => inferInstanceAs (Decidable True)

def Call.position : Call F → Option Nat
  | .ifWakeup k | .wakeup k | .unlock k => some k
  | _ => none

structure Positions (s : EventLoop F) : Prop where
  call : ∀ t k, (s.call t).position = some k → k < s.queued.length
  finished : ∀ k ∈ s.finished, k < s.queued.length
  promised : ∀ k ∈ s.promised, k ∈ s.finished

theorem Positions.calls {s s' : EventLoop F} (hp : Positions s)
    (hcall : s'.call = Function.update s.call t c)
    (hc : ∀ k, c.position = some k → k < s.queued.length)
    (hq : s.queued.length ≤ s'.queued.length) (u : Thread) (k : Nat)
    (hu : (s'.call u).position = some k) : k < s'.queued.length := by
  rw [hcall] at hu
  by_cases htu : u = t
  · subst u
    rw [Function.update_self] at hu
    exact Nat.lt_of_lt_of_le (hc k hu) hq
  · rw [Function.update_of_ne htu] at hu
    exact Nat.lt_of_lt_of_le (hp.call u k hu) hq

theorem Positions.step {s s' : EventLoop F} (hp : Positions s) (h : s.step a = some s') :
    Positions s' := by
  cases Step.of_step h with
  | publish | loopingTrue | quitFalse | leave | iterate | handled | callingTrue | lockSwap | swap
  | unlockSwap | endFunctors | callFunctor | functorReturns | callingFalse | loopingFalse | poll
  | handleRead => exact ⟨hp.call, hp.finished, hp.promised⟩
  | queueInloop | lock | quitTrue | quitInLoop | ifQuitWakeup | quitWakeup =>
    exact ⟨hp.calls rfl (by simp [Call.position]) (Nat.le_refl _), hp.finished, hp.promised⟩
  | quit hc hmay =>
    refine ⟨hp.calls rfl (by simp [Call.position]) (Nat.le_refl _), hp.finished, ?_⟩
    intro k hk
    by_cases hr : s.pc = .returned
    · exact hp.promised k (by simpa only [hr, ↓reduceIte] using hk)
    · simp only [hr, ↓reduceIte] at hk
      exact hk
  | @emplaceBack t cb hc =>
    have hlen : s.queued.length < (s.queued ++ [cb]).length := by simp
    refine ⟨?_, ?_, hp.promised⟩
    · intro u k hu
      by_cases htu : u = t
      · subst u
        simp only [setCall, Function.update_self, Call.position, Option.some.injEq] at hu
        exact hu ▸ hlen
      · simp only [setCall, Function.update_of_ne htu] at hu
        exact Nat.lt_trans (hp.call u k hu) hlen
    · intro k hk
      exact Nat.lt_trans (hp.finished k hk) hlen
  | @ifWakeup t k c hc hk =>
    refine ⟨hp.calls rfl (fun j hj => hp.call t j ?_) (Nat.le_refl _), hp.finished, hp.promised⟩
    rcases hk with rfl | rfl <;> simpa only [hc, Call.position] using hj
  | @wakeup t k hc =>
    refine ⟨hp.calls rfl (fun j hj => hp.call t j ?_) (Nat.le_refl _), hp.finished, hp.promised⟩
    simpa only [hc, Call.position] using hj
  | @unlock t k hc =>
    have hk : k < s.queued.length := hp.call t k (by rw [hc]; rfl)
    refine ⟨hp.calls rfl (by simp [Call.position]) (Nat.le_refl _), ?_, ?_⟩
    · intro j hj
      by_cases htl : t = .loop
      · exact hp.finished j (by simpa only [htl, ↓reduceIte] using hj)
      · simp only [htl, ↓reduceIte, List.mem_cons] at hj
        rcases hj with rfl | hj
        · exact hk
        · exact hp.finished j hj
    · intro j hj
      have hf := hp.promised j hj
      by_cases htl : t = .loop
      · simpa only [htl, ↓reduceIte] using hf
      · simpa only [htl, ↓reduceIte] using List.mem_cons_of_mem _ hf

theorem Positions.init : Positions ({} : EventLoop F) := by
  exact ⟨fun _ _ => nofun, fun _ => nofun, fun _ => nofun⟩

/-- What holds of every reachable state, used for both directions below. -/
structure Loops (s : EventLoop F) : Prop where
  exclusive : Exclusive s
  queued : Queued s
  positions : Positions s
  leaving : s.pc = .loopingFalse → s.quit_ = true

theorem Loops.init : Loops ({} : EventLoop F) :=
  ⟨.init, .init, .init, nofun⟩

theorem Loops.step {s s' : EventLoop F} (hi : Loops s) (h : s.step a = some s') : Loops s' := by
  refine ⟨hi.exclusive.step h, hi.queued.step hi.exclusive h, hi.positions.step h, ?_⟩
  cases Step.of_step h with
  | publish | loopingTrue | quitFalse | iterate | handled | callingTrue | lockSwap | swap
  | unlockSwap | endFunctors | callFunctor | functorReturns | callingFalse | loopingFalse | poll
  | handleRead =>
    intro hn
    cases hn
  | leave hpc hq =>
    intro _
    exact hq
  | quitTrue =>
    intro _
    rfl
  | queueInloop | quit | lock | emplaceBack | ifWakeup | wakeup | unlock | quitInLoop
  | ifQuitWakeup | quitWakeup => exact hi.leaving

theorem Loops.taken_swap {s : EventLoop F} (hi : Loops s) (hpc : s.pc = .unlock) :
    s.taken = s.queued.length := by
  have hf : s.executed ++ (s.functors ++ s.pendingFunctors_) = s.queued := hi.queued.fifo
  rw [hi.queued.fresh hpc, List.append_nil] at hf
  rw [← hf, List.length_append, taken]

/-- A `quit` that is still to end the loop ends it with nothing promised left behind. -/
structure Keeps (s : EventLoop F) : Prop where
  late : s.pc.late = true → s.quit_ = true → ∀ k ∈ s.promised, k < s.taken
  returned : s.pc = .returned → Drained s

theorem Keeps.step {s s' : EventLoop F} (hi : Loops s) (hk : Keeps s) (hq : QuitSafe s a)
    (h : s.step a = some s') : Keeps s' := by
  have hi' := hi.step h
  cases Step.of_step h with
  | publish | loopingTrue | iterate | handled | callingTrue | lockSwap | poll | handleRead =>
    exact ⟨nofun, nofun⟩
  | quitFalse => exact ⟨fun _ => nofun, nofun⟩
  | swap hpc =>
    refine ⟨?_, nofun⟩
    intro _ _ k hp
    rw [hi'.taken_swap rfl]
    exact hi'.positions.finished k (hi'.positions.promised k hp)
  | callFunctor hpc hf =>
    refine ⟨?_, nofun⟩
    intro _ hquit k hp
    have hlt := hk.late (by rw [hpc]; rfl) hquit k hp
    simp only [taken, hf, List.length_cons, List.length_append, List.length_nil] at hlt ⊢
    omega
  | leave hpc | unlockSwap hpc | endFunctors hpc | functorReturns hpc | callingFalse hpc =>
    exact ⟨fun _ => hk.late (by rw [hpc]; rfl), nofun⟩
  | loopingFalse hpc =>
    refine ⟨nofun, ?_⟩
    intro _ k hp
    have hlt := hk.late (by rw [hpc]; rfl) (hi.leaving hpc) k hp
    rwa [taken, hi.queued.batch (by rw [hpc]; rfl)] at hlt
  | quit hc hmay =>
    constructor
    · intro hl hquit k hp
      have hn : s.pc ≠ .returned := by
        intro hr
        rw [setCall, hr] at hl
        cases hl
      rw [if_neg hn] at hp
      exact hq hl hquit k hp
    · intro hr k hp
      have hr' : s.pc = .returned := hr
      rw [if_pos hr'] at hp
      exact hk.returned hr' k hp
  | quitTrue hc => exact ⟨fun hl _ => hq (by rw [hc]; rfl) hl, hk.returned⟩
  | queueInloop | lock | emplaceBack | ifWakeup | wakeup | unlock | quitInLoop | ifQuitWakeup
  | quitWakeup => exact ⟨hk.late, hk.returned⟩

/-- A promised functor is still in `pendingFunctors_` and no swap will come. -/
def Abandoned (s : EventLoop F) : Prop :=
  (s.quit_ = true ∧ s.pc.late = true ∧ ∃ k ∈ s.promised, s.taken ≤ k) ∨
    (s.pc = .returned ∧ ∃ k ∈ s.promised, s.executed.length ≤ k)

theorem Abandoned.step {s s' : EventLoop F} (hi : Loops s) (hd : Abandoned s)
    (h : s.step a = some s') : Abandoned s' := by
  rcases hd with ⟨hq, hl, k, hp, hk⟩ | ⟨hr, k, hp, hk⟩
  · cases Step.of_step h with
    | publish hpc | loopingTrue hpc | quitFalse hpc | handled hpc | callingTrue hpc | lockSwap hpc
    | swap hpc | poll hpc | handleRead hpc => simp [hpc, Pc.late] at hl
    | iterate hpc hn => cases hq.symm.trans hn
    | leave | unlockSwap | endFunctors | functorReturns | callingFalse =>
      exact .inl ⟨hq, rfl, k, hp, hk⟩
    | callFunctor hpc hf =>
      refine .inl ⟨hq, rfl, k, hp, ?_⟩
      simp only [taken, hf, List.length_cons, List.length_append, List.length_nil] at hk ⊢
      omega
    | loopingFalse => exact .inr ⟨rfl, k, hp, Nat.le_trans (Nat.le_add_right _ _) hk⟩
    | quit hc hmay =>
      refine .inl ⟨hq, hl, k, ?_, hk⟩
      split
      · exact hp
      · exact hi.positions.promised k hp
    | quitTrue => exact .inl ⟨rfl, hl, k, hp, hk⟩
    | queueInloop | lock | emplaceBack | ifWakeup | wakeup | unlock | quitInLoop | ifQuitWakeup
    | quitWakeup => exact .inl ⟨hq, hl, k, hp, hk⟩
  · cases Step.of_step h with
    | publish hpc | loopingTrue hpc | quitFalse hpc | leave hpc | iterate hpc | handled hpc
    | callingTrue hpc | lockSwap hpc | swap hpc | unlockSwap hpc | endFunctors hpc
    | callFunctor hpc | functorReturns hpc | callingFalse hpc | loopingFalse hpc | poll hpc
    | handleRead hpc => cases hr.symm.trans hpc
    | quit hc hmay => exact .inr ⟨hr, k, by rwa [if_pos hr], hk⟩
    | queueInloop | lock | emplaceBack | ifWakeup | wakeup | unlock | quitTrue | quitInLoop
    | ifQuitWakeup | quitWakeup => exact .inr ⟨hr, k, hp, hk⟩

theorem Abandoned.of_unsafe {s s' : EventLoop F} (hq : ¬ QuitSafe s a)
    (h : s.step a = some s') : Abandoned s' := by
  cases a with
  | quit t =>
    simp only [QuitSafe, not_forall, Nat.not_lt] at hq
    obtain ⟨hl, hquit, k, hk, hlt⟩ := hq
    cases Step.of_step h with
    | quit =>
      refine .inl ⟨hquit, hl, k, ?_, hlt⟩
      split
      · rename_i hr
        simp [hr, Pc.late] at hl
      · exact hk
  | advance t =>
    simp only [QuitSafe, not_forall, Nat.not_lt] at hq
    obtain ⟨hc, hl, k, hk, hlt⟩ := hq
    cases Step.of_step h with
    | quitTrue => exact .inl ⟨rfl, hl, k, hk, hlt⟩
    | lock hc' | emplaceBack hc' | ifWakeup hc' | wakeup hc' | unlock hc' | quitInLoop hc'
    | ifQuitWakeup hc' | quitWakeup hc' => simp [hc', Call.setsQuit] at hc
  | loop | poll | handleRead | queueInloop => exact (hq trivial).elim

/-- `loop` returns with every functor executed that was queued before a `quit` exactly when no
`quit` falls between a swap and the test that follows it while such a functor waits. -/
theorem quit_drains_iff {s : EventLoop F} (h : Run EventLoop.step {} as s)
    (hr : s.pc = .returned) : Drained s ↔ AllSteps EventLoop.step QuitSafe {} as := by
  constructor
  · intro hd
    by_contra hq
    have hab : Abandoned s := h.doomed hq Loops.init (fun _ _ _ => Loops.step)
      (fun _ _ _ _ => Abandoned.of_unsafe) (fun _ _ _ => Abandoned.step)
    rcases hab with ⟨_, hl, _⟩ | ⟨_, k, hp, hk⟩
    · rw [hr] at hl
      cases hl
    · exact Nat.not_lt_of_le hk (hd k hp)
  · intro hq
    have hboth := h.invariant_when (P := fun u => Loops u ∧ Keeps u) hq
      ⟨.init, fun _ _ _ => nofun, nofun⟩
      fun _ _ _ hu hqu hstep => ⟨hu.1.step hstep, hu.2.step hu.1 hqu hstep⟩
    exact hboth.2.returned hr

/-- The functor is posted and the `quit` made after the swap of an iteration. -/
def postedAfterSwap : List (Action Unit) :=
  [.loop, .loop, .loop, .loop, .poll false, .loop, .loop, .loop, .loop, .loop,
    .queueInloop (.other 0) (), .advance (.other 0), .advance (.other 0), .advance (.other 0),
    .advance (.other 0), .advance (.other 0),
    .quit (.other 0), .advance (.other 0), .advance (.other 0), .advance (.other 0),
    .loop, .loop, .loop, .loop]

/-- `loop` can return although a functor was queued before the `quit` and never ran. -/
theorem quit_does_not_drain : ¬ ∀ (as : List (Action Unit)) (s : EventLoop Unit),
    Run EventLoop.step {} as s → s.pc = .returned → Drained s := by
  intro hall
  have hr : Run EventLoop.step {} postedAfterSwap _ := .of_exec rfl
  exact Nat.lt_irrefl 0 (hall _ _ hr rfl 0 (by decide))

/-- The functor is posted and the `quit` made while the loop's thread is at `poll`. -/
def postedAtPoll : List (Action Unit) :=
  [.loop, .loop, .loop, .loop,
    .queueInloop (.other 0) (), .advance (.other 0), .advance (.other 0), .advance (.other 0),
    .advance (.other 0), .advance (.other 0),
    .quit (.other 0), .advance (.other 0), .advance (.other 0), .advance (.other 0),
    .poll true, .handleRead, .loop, .loop, .loop, .loop, .loop, .loop, .loop, .loop, .loop, .loop,
    .loop]

theorem postedAtPoll_drained : ∃ s, exec EventLoop.step {} postedAtPoll = some s ∧
    s.pc = .returned ∧ s.promised = [0] ∧ Drained s := by
  have hr : Run EventLoop.step {} postedAtPoll _ := .of_exec rfl
  exact ⟨_, rfl, rfl, rfl, (quit_drains_iff hr rfl).2 (by decide)⟩

/-- `loop` has not reset `quit_` yet. -/
def Pc.early : Pc → Bool
  | .threadFunc | .loopingTrue | .quitFalse => true
  | _ => false

/-- `quit` sets `quit_` only after `loop` has reset it. -/
def QuitAfterReset (s : EventLoop F) : Action F → Prop
  | .advance t => (s.call t).setsQuit = true → s.pc.early = false
  | _ => True

instance (s : EventLoop F) (a : Action F) : Decidable (QuitAfterReset s a) :=
  match a with
  | .advance _ => inferInstanceAs (Decidable (_ → _))
  | .loop | .poll _ | .handleRead | .queueInloop .. | .quit _ => inferInstanceAs (Decidable True)

/-- The loop's thread is at `poll` although a `quit` has returned, and either `quit_` does not say
so or no event will wake it. -/
def QuitLost (s : EventLoop F) : Prop :=
  s.quitReturned = true ∧ s.pc = .poll ∧ (s.quit_ = false ∨ s.wakeupFd_ = 0)

/-- The statements of `quit` behind `quit_ = true`. -/
def Call.hasQuit : Call F → Bool
  | .ifQuitWakeup | .quitWakeup => true
  | _ => false

structure Heard (s : EventLoop F) : Prop where
  early : s.pc.early = true → s.quitReturned = false ∧ ∀ t, (s.call t).hasQuit = false
  calling : ∀ t, (s.call t).hasQuit = true → s.quit_ = true
  returned : s.quitReturned = true → s.quit_ = true
  woken : s.quitReturned = true → s.pc = .poll → 0 < s.wakeupFd_

theorem Heard.init : Heard ({} : EventLoop F) :=
  ⟨fun _ => ⟨rfl, fun _ => rfl⟩, fun _ => nofun, nofun, nofun⟩

theorem Heard.calls {s s' : EventLoop F} (hh : Heard s)
    (hcall : s'.call = Function.update s.call t c) (hc : c.hasQuit = true → s.quit_ = true)
    (he : s.pc.early = true → c.hasQuit = false) (hpc : s'.pc = s.pc) (hq : s'.quit_ = s.quit_)
    (hr : s'.quitReturned = s.quitReturned) (hw : s.wakeupFd_ ≤ s'.wakeupFd_) : Heard s' := by
  have hupdate (u : Thread) (P : Call F → Prop) (hP : P c) (hu : P (s.call u)) : P (s'.call u) := by
    rw [hcall]
    by_cases htu : u = t
    · rwa [htu, Function.update_self]
    · rwa [Function.update_of_ne htu]
  rw [← hpc] at he
  have hearly := hh.early
  have hwoken := hh.woken
  rw [← hpc, ← hr] at hearly hwoken
  have hcalling (u : Thread) : (s'.call u).hasQuit = true → s'.quit_ = true := by
    rw [hq]
    exact hupdate u (fun c => c.hasQuit = true → s.quit_ = true) hc (hh.calling u)
  have hreturned : s'.quitReturned = true → s'.quit_ = true := by
    rw [hr, hq]
    exact hh.returned
  exact ⟨fun hp => ⟨(hearly hp).1, fun u => hupdate u (fun c => c.hasQuit = false) (he hp)
    ((hearly hp).2 u)⟩, hcalling, hreturned, fun hp hq => Nat.lt_of_lt_of_le (hwoken hp hq) hw⟩

theorem Heard.step {s s' : EventLoop F} (hi : Exclusive s) (hh : Heard s)
    (hq : QuitAfterReset s a) (h : s.step a = some s') : Heard s' := by
  cases Step.of_step h with
  | publish hpc | loopingTrue hpc =>
    exact ⟨fun _ => hh.early (by rw [hpc]; rfl), hh.calling, hh.returned, fun _ => nofun⟩
  | quitFalse hpc =>
    obtain ⟨hr, hc⟩ := hh.early (by rw [hpc]; rfl)
    have hcalling (t : Thread) (ht : (s.call t).hasQuit = true) : False :=
      Bool.false_ne_true ((hc t).symm.trans ht)
    exact ⟨nofun, fun t ht => (hcalling t ht).elim,
      fun hn => (Bool.false_ne_true (hr.symm.trans hn)).elim, fun _ => nofun⟩
  | iterate hpc hn =>
    have hr (hr : s.quitReturned = true) : False :=
      Bool.false_ne_true (hn.symm.trans (hh.returned hr))
    exact ⟨nofun, hh.calling, hh.returned, fun hn _ => (hr hn).elim⟩
  | leave | handled | callingTrue | lockSwap | swap | unlockSwap | endFunctors | callFunctor
  | functorReturns | callingFalse | loopingFalse | poll | handleRead =>
    exact ⟨nofun, hh.calling, hh.returned, fun _ => nofun⟩
  | queueInloop | quit | lock | emplaceBack | unlock =>
    exact hh.calls rfl nofun (fun _ => rfl) rfl rfl rfl (Nat.le_refl _)
  | ifWakeup hc hk =>
    rcases hk with rfl | rfl
    · exact hh.calls rfl nofun (fun _ => rfl) rfl rfl rfl (Nat.le_refl _)
    · exact hh.calls rfl nofun (fun _ => rfl) rfl rfl rfl (Nat.le_refl _)
  | wakeup hc => exact hh.calls rfl nofun (fun _ => rfl) rfl rfl rfl (eventfdWrite_le _)
  | ifQuitWakeup hc =>
    have hquit := hh.calling _ (by rw [hc]; rfl)
    have he (hp : s.pc.early = true) : False :=
      Bool.false_ne_true (((hh.early hp).2 _).symm.trans (by rw [hc]; rfl))
    exact hh.calls rfl (fun _ => hquit) (fun hp => (he hp).elim) rfl rfl rfl (Nat.le_refl _)
  | quitTrue hc =>
    have he : s.pc.early = false := hq (by rw [hc]; rfl)
    exact ⟨fun hp => (Bool.false_ne_true (he.symm.trans hp)).elim, fun _ _ => rfl, fun _ => rfl,
      hh.woken⟩
  | quitInLoop hc =>
    have hquit := hh.calling _ (by rw [hc]; rfl)
    have he (hp : s.pc.early = true) : False :=
      Bool.false_ne_true (((hh.early hp).2 _).symm.trans (by rw [hc]; rfl))
    have hpoll (hp : s.pc = .poll) : False := by
      have hmay := hi.idle (by simp [hc])
      simp [mayCall, hp] at hmay
    exact ⟨fun hp => (he hp).elim, fun _ _ => hquit, fun _ => hquit, fun _ hp => (hpoll hp).elim⟩
  | quitWakeup hc =>
    have hquit := hh.calling _ (by rw [hc]; rfl)
    have he (hp : s.pc.early = true) : False :=
      Bool.false_ne_true (((hh.early hp).2 _).symm.trans (by rw [hc]; rfl))
    exact ⟨fun hp => (he hp).elim, fun _ _ => hquit, fun _ => hquit,
      fun _ _ => eventfdWrite_pos _⟩

/-- No `quit` made after the reset of `quit_` leaves the loop's thread asleep. -/
theorem quit_not_lost {s : EventLoop F} (h : Run EventLoop.step {} as s)
    (hq : AllSteps EventLoop.step QuitAfterReset {} as) : ¬ QuitLost s := by
  have hboth := h.invariant_when (P := fun u => Exclusive u ∧ Heard u) hq ⟨.init, .init⟩
    fun _ _ _ hu hqu hstep => ⟨hu.1.step hstep, hu.2.step hu.1 hqu hstep⟩
  rintro ⟨hr, hpc, hn | hn⟩
  · exact Bool.false_ne_true (hn.symm.trans (hboth.2.returned hr))
  · exact Nat.ne_of_gt (hboth.2.woken hr hpc) hn

/-- The other thread quits as soon as `loop_` is published. -/
def quitBeforeLoop : List (Action Unit) :=
  [.loop, .quit (.other 0), .advance (.other 0), .advance (.other 0), .advance (.other 0),
    .loop, .loop, .loop]

/-- `loop` can forget a `quit` that has returned and go to sleep. -/
theorem quit_can_be_lost : ¬ ∀ (as : List (Action Unit)) (s : EventLoop Unit),
    Run EventLoop.step {} as s → ¬ QuitLost s := by
  intro hall
  have hr : Run EventLoop.step {} quitBeforeLoop _ := .of_exec rfl
  exact hall _ _ hr ⟨rfl, rfl, .inl rfl⟩

/-- The other thread quits while the loop's thread is at `poll`. -/
def quitAtPoll : List (Action Unit) :=
  [.loop, .loop, .loop, .loop,
    .quit (.other 0), .advance (.other 0), .advance (.other 0), .advance (.other 0)]

theorem quitAtPoll_heard : ∃ s, exec EventLoop.step {} quitAtPoll = some s ∧ s.pc = .poll ∧
    s.quitReturned = true ∧ ¬ QuitLost s := by
  have hr : Run EventLoop.step {} quitAtPoll _ := .of_exec rfl
  exact ⟨_, rfl, rfl, rfl, quit_not_lost hr (by decide)⟩

end MuduoStudy.EventLoop
