import MuduoStudy.EventLoopThread

namespace MuduoStudy
open Transition
set_option autoImplicit true

namespace EventLoop

def Action.thread : Action F → Thread
  | .loop | .poll _ | .handleRead => .loop
  | .queueInloop t _ | .quit t | .advance t => t

def Action.isCall : Action F → Bool
  | .queueInloop .. | .quit _ | .advance _ => true
  | .loop | .poll _ | .handleRead => false

theorem Step.call_of_ne {s s' : EventLoop F} (h : Step s a s') (hne : t ≠ a.thread) :
    s'.call t = s.call t := by
  cases h with
  | publish | loopingTrue | quitFalse | leave | iterate | handled | callingTrue | lockSwap | swap
  | unlockSwap | endFunctors | callFunctor | functorReturns | callingFalse | loopingFalse | poll
  | handleRead => rfl
  | queueInloop | quit | lock | emplaceBack | ifWakeup | wakeup | unlock | quitTrue | quitInLoop
  | ifQuitWakeup | quitWakeup => exact Function.update_of_ne hne _ _

theorem Step.pc_of_isCall {s s' : EventLoop F} (h : Step s a s') (ha : a.isCall = true) :
    s'.pc = s.pc := by
  cases h with
  | publish | loopingTrue | quitFalse | leave | iterate | handled | callingTrue | lockSwap | swap
  | unlockSwap | endFunctors | callFunctor | functorReturns | callingFalse | loopingFalse | poll
  | handleRead => cases ha
  | queueInloop | quit | lock | emplaceBack | ifWakeup | wakeup | unlock | quitTrue | quitInLoop
  | ifQuitWakeup | quitWakeup => rfl

theorem Step.pc_cases {s s' : EventLoop F} (h : Step s a s') :
    s'.pc = s.pc ∨ s.pc ≠ .returned ∧ s'.pc ≠ .threadFunc := by
  cases h with
  | queueInloop | quit | lock | emplaceBack | ifWakeup | wakeup | unlock | quitTrue | quitInLoop
  | ifQuitWakeup | quitWakeup => exact .inl rfl
  | publish hpc | loopingTrue hpc | quitFalse hpc | leave hpc | iterate hpc | handled hpc
  | callingTrue hpc | lockSwap hpc | swap hpc | unlockSwap hpc | endFunctors hpc | callFunctor hpc
  | functorReturns hpc | callingFalse hpc | loopingFalse hpc | poll hpc | handleRead hpc =>
    rw [hpc]
    exact .inr ⟨nofun, nofun⟩

theorem publish_eq {s s' : EventLoop F} (hpc : s.pc = .threadFunc)
    (h : s.step .loop = some s') : s' = { s with pc := .loopingTrue } := by
  simp only [step, loop, hpc, Option.ite_none_right_eq_some, Option.some.injEq] at h
  exact h.2.symm

end EventLoop

namespace EventLoopThread

/-- `startLoop` has not read `loop_` yet. -/
def Owner.asks : Owner → Bool
  | .start | .semWait | .lock | .wait | .relock | .whileLoop | .loopRead => true
  | _ => false

def Owner.holds : Owner → Bool
  | .whileLoop | .loopRead | .unlock => true
  | _ => false

def Child.holds : Child → Bool
  | .publish | .notifyOne | .unlock => true
  | _ => false

theorem le_elim {m n : Nat} {P : Prop} (h : m ≤ n) (hn : Nat.ble m n = false) : P :=
  (Bool.false_ne_true (hn.symm.trans (Nat.ble_eq_true_of_le h))).elim

/-- What the owner knows of the new thread's progress by its own location. -/
def Owner.Knows (stage : Nat) : Owner → Prop
  | .start => stage = 0
  | .semWait => 1 ≤ stage
  | .lock | .relock | .whileLoop => 3 ≤ stage
  -- still to be notified, or `loop_` is null again
  | .wait => 3 ≤ stage ∧ (stage ≤ 7 ∨ 11 ≤ stage)
  | .loopRead | .unlock | .returned | .loopQuit | .quitting | .joinedTrue | .join => 9 ≤ stage
  | .exitingTrue | .ifLoop => stage = 0 ∨ 9 ≤ stage
  | .ifDetach | .destroyed => stage = 0 ∨ 11 ≤ stage

theorem Owner.Knows.next {o : Owner} (h : o.Knows n) (hn : n ≠ 0) (hw : o = .wait → n ≠ 7) :
    o.Knows (n + 1) := by
  cases o with
  | wait =>
    have h7 := hw rfl
    simp only [Knows] at h ⊢
    omega
  | _ =>
    simp only [Knows] at h ⊢
    omega

theorem Step.child_stage {s t : EventLoopThread F} (h : Step s .child t) :
    s.child.stage ≠ 0 ∧ t.child.stage = s.child.stage + 1 := by
  cases h with
  | tid hc | semPost hc | eventLoop hc | callback hc | childLock hc | publish hc | notifyOne hc
  | childUnlock hc | looped hc | loopNull hc | destroyLoop hc =>
    rw [hc]
    exact ⟨nofun, rfl⟩

/-- How the semaphore, `mutex_` and the condition keep the two threads in step. -/
structure Handshake (s : EventLoopThread F) : Prop where
  born : s.started_ = decide (s.child.stage ≠ 0)
  tid : 2 ≤ s.child.stage → s.tid_ = s.pid
  loop_ : s.loop_ = decide (7 ≤ s.child.stage ∧ s.child.stage ≤ 10)
  sem : s.owner = .start ∨ s.owner = .semWait → s.sem = if 3 ≤ s.child.stage then 1 else 0
  ownerHolds : s.mutex_ = some .owner ↔ s.owner.holds = true
  childHolds : s.mutex_ = some .child ↔ s.child.holds = true
  knows : s.owner.Knows s.child.stage
  asks : s.owner.asks = true → s.result = none
  read : s.result ≠ none → 9 ≤ s.child.stage
  null : s.result = some false → 11 ≤ s.child.stage

theorem Handshake.init (pid : Nat) : Handshake ({ pid } : EventLoopThread F) where
  born := rfl
  tid := nofun
  loop_ := rfl
  sem _ := rfl
  ownerHolds := ⟨nofun, nofun⟩
  childHolds := ⟨nofun, nofun⟩
  knows := rfl
  asks _ := rfl
  read h := (h rfl).elim
  null := nofun

theorem Handshake.posted {s : EventLoopThread F} (hs : Handshake s) (ho : s.owner = .semWait)
    (hsem : 0 < s.sem) : 3 ≤ s.child.stage := by
  rw [hs.sem (.inr ho)] at hsem
  by_contra hn
  rw [if_neg hn] at hsem
  cases hsem

theorem Handshake.found {s : EventLoopThread F} (hs : Handshake s) (ho : s.owner.holds = true)
    (hl : s.loop_ = true) : 9 ≤ s.child.stage := by
  have hstage := of_decide_eq_true (hs.loop_.symm.trans hl)
  have hfree : s.child.holds ≠ true := by
    intro hc
    cases (hs.ownerHolds.2 ho).symm.trans (hs.childHolds.2 hc)
  by_contra hn
  cases hc : s.child with
  | notifyOne | unlock => exact hfree (by rw [hc]; rfl)
  | _ =>
    simp only [hc, Child.stage] at hstage hn
    omega

theorem Handshake.missed {s : EventLoopThread F} (hs : Handshake s) (hl : s.loop_ = false) :
    s.child.stage ≤ 6 ∨ 11 ≤ s.child.stage := by
  have hstage := of_decide_eq_false (hs.loop_.symm.trans hl)
  omega

theorem Handshake.moves {s : EventLoopThread F} (hs : Handshake s) (o : Owner)
    (hholds : s.owner.holds = o.holds) (hknows : o.Knows s.child.stage)
    (hasks : o.asks = true → s.owner.asks = true) (hsem : ¬ (o = .start ∨ o = .semWait)) :
    Handshake { s with owner := o } :=
  { hs with
    sem := fun h => (hsem h).elim
    ownerHolds := hholds ▸ hs.ownerHolds
    knows := hknows
    asks := fun h => hs.asks (hasks h) }

theorem Handshake.locks {s : EventLoopThread F} (hs : Handshake s) (o : Owner) (m : Option Side)
    (hfree : s.mutex_ ≠ some .child) (hm : m ≠ some .child)
    (hholds : m = some .owner ↔ o.holds = true) (hknows : o.Knows s.child.stage)
    (hasks : o.asks = true → s.owner.asks = true) (hsem : ¬ (o = .start ∨ o = .semWait)) :
    Handshake { s with mutex_ := m, owner := o } :=
  { hs with
    sem := fun h => (hsem h).elim
    ownerHolds := hholds
    childHolds := ⟨fun h => (hm h).elim, fun h => (hfree (hs.childHolds.2 h)).elim⟩
    knows := hknows
    asks := fun h => hs.asks (hasks h) }

theorem Child.stage_eq_zero {c : Child} (h : c.stage = 0) : c = .unborn := by
  cases c with
  | unborn => rfl
  | _ => cases h

theorem Handshake.start {s : EventLoopThread F} (hs : Handshake s) (ho : s.owner = .start) :
    Handshake { s with started_ := true, joinable := true, child := .tid, owner := .semWait } := by
  have hc : s.child = .unborn := by
    have hknows := hs.knows
    rw [ho] at hknows
    exact Child.stage_eq_zero hknows
  have hresult := hs.asks (by rw [ho]; rfl)
  refine ⟨rfl, nofun, ?_, fun _ => ?_, ?_, ?_, Nat.le_refl 1, fun _ => hresult,
    fun hn => (hn hresult).elim, ?_⟩
  · exact hs.loop_.trans (by rw [hc]; rfl)
  · exact (hs.sem (.inl ho)).trans (by rw [hc]; rfl)
  · have howner := hs.ownerHolds
    rwa [ho] at howner
  · have hchild := hs.childHolds
    rwa [hc] at hchild
  · intro hn
    cases hresult.symm.trans hn

theorem Handshake.owner {s t : EventLoopThread F} (hs : Handshake s) (h : Step s .owner t) :
    Handshake t := by
  have hknows := hs.knows
  have unheld (hm : s.mutex_ = some .owner) : s.mutex_ ≠ some .child := by
    rw [hm]
    nofun
  cases h with
  | start ho => exact hs.start ho
  | semWait ho hsem =>
    have hm := hs.moves .lock (by rw [ho]; rfl) (hs.posted ho hsem) (fun _ => by rw [ho]; rfl) nofun
    exact { hm with sem := nofun }
  | ownerLock ho hm =>
    have hstage : 3 ≤ s.child.stage := by
      rcases ho with ho | ho <;> rwa [ho] at hknows
    exact hs.locks .whileLoop (some .owner) (by rw [hm]; nofun) nofun ⟨fun _ => rfl, fun _ => rfl⟩
      hstage (fun _ => by rcases ho with ho | ho <;> rw [ho] <;> rfl) nofun
  | found ho hl =>
    exact hs.moves .loopRead (by rw [ho]; rfl) (hs.found (by rw [ho]; rfl) hl)
      (fun _ => by rw [ho]; rfl) nofun
  | sleep ho hl =>
    rw [ho] at hknows
    have hwait : Owner.wait.Knows s.child.stage := by
      refine ⟨hknows, ?_⟩
      have hmissed := hs.missed hl
      omega
    exact hs.locks .wait none (unheld (hs.ownerHolds.2 (by rw [ho]; rfl))) nofun
      ⟨nofun, nofun⟩ hwait (fun _ => by rw [ho]; rfl) nofun
  | loopRead ho =>
    rw [ho] at hknows
    have hm := hs.moves .unlock (by rw [ho]; rfl) hknows nofun nofun
    refine { hm with asks := nofun, read := fun _ => hknows, null := ?_ }
    intro hn
    have hmissed := hs.missed (Option.some.inj hn)
    have hstage : 9 ≤ s.child.stage := hknows
    exact hmissed.resolve_left (by omega)
  | ownerUnlock ho =>
    rw [ho] at hknows
    exact hs.locks .returned none (unheld (hs.ownerHolds.2 (by rw [ho]; rfl))) nofun
      ⟨nofun, nofun⟩ hknows nofun nofun
  | exitingTrue ho =>
    rw [ho] at hknows
    exact { hs.moves .ifLoop (by rw [ho]; rfl) hknows nofun nofun with }
  | ifLoop ho hl =>
    rw [ho] at hknows
    have hstage := of_decide_eq_true (hs.loop_.symm.trans hl)
    exact hs.moves .loopQuit (by rw [ho]; rfl) (hknows.resolve_left (by omega)) nofun nofun
  | ifNull ho hl =>
    rw [ho] at hknows
    have hmissed := hs.missed hl
    have hdetach : Owner.ifDetach.Knows s.child.stage := by
      simp only [Owner.Knows] at hknows ⊢
      omega
    exact hs.moves .ifDetach (by rw [ho]; rfl) hdetach nofun nofun
  | quit ho | quitDead ho =>
    rw [ho] at hknows
    exact { hs.moves .quitting (by rw [ho]; rfl) hknows nofun nofun with }
  | quitNull | advance | advanceDead => exact { hs with }
  | quitDone ho =>
    rw [ho] at hknows
    exact hs.moves .joinedTrue (by rw [ho]; rfl) hknows nofun nofun
  | joinedTrue ho =>
    rw [ho] at hknows
    exact { hs.moves .join (by rw [ho]; rfl) hknows nofun nofun with }
  | join ho hc =>
    have hdetach : Owner.ifDetach.Knows s.child.stage := by
      rw [hc]
      exact .inr (by decide)
    exact { hs.moves .ifDetach (by rw [ho]; rfl) hdetach nofun nofun with }
  | ifDetach ho =>
    rw [ho] at hknows
    exact { hs.moves .destroyed (by rw [ho]; rfl) hknows nofun nofun with }

theorem Handshake.child_data {s t : EventLoopThread F} (hs : Handshake s) (h : Step s .child t) :
    (2 ≤ t.child.stage → t.tid_ = t.pid) ∧
      t.loop_ = decide (7 ≤ t.child.stage ∧ t.child.stage ≤ 10) := by
  have htid := hs.tid
  have hloop := hs.loop_
  cases h with
  | tid hc =>
    rw [hc] at hloop
    exact ⟨fun _ => rfl, hloop⟩
  | publish hc | loopNull hc =>
    rw [hc] at htid
    exact ⟨fun _ => htid (by decide), rfl⟩
  | semPost hc | eventLoop hc | callback hc | childLock hc | notifyOne hc | childUnlock hc
  | looped hc | destroyLoop hc =>
    rw [hc] at htid hloop
    exact ⟨fun _ => htid (by decide), hloop⟩

theorem Handshake.child_locks {s t : EventLoopThread F} (hs : Handshake s) (h : Step s .child t) :
    (t.mutex_ = some .owner ↔ t.owner.holds = true) ∧
      (t.mutex_ = some .child ↔ t.child.holds = true) := by
  have howner := hs.ownerHolds
  have hchild := hs.childHolds
  cases h with
  | tid hc | semPost hc | eventLoop hc | callback hc | publish hc | looped hc | loopNull hc
  | destroyLoop hc =>
    rw [hc] at hchild
    exact ⟨howner, hchild⟩
  | childLock hc hm =>
    rw [hm] at howner
    exact ⟨⟨nofun, fun h => nomatch howner.2 h⟩, fun _ => rfl, fun _ => rfl⟩
  | notifyOne hc =>
    rw [hc] at hchild
    refine ⟨?_, hchild⟩
    split
    · rename_i ho
      rwa [ho] at howner
    · exact howner
  | childUnlock hc =>
    rw [hchild.2 (by rw [hc]; rfl)] at howner
    exact ⟨⟨nofun, fun h => nomatch howner.2 h⟩, nofun, nofun⟩

theorem Handshake.child_owner {s t : EventLoopThread F} (hs : Handshake s) (h : Step s .child t) :
    (t.owner = .start ∨ t.owner = .semWait → t.sem = if 3 ≤ t.child.stage then 1 else 0) ∧
      t.owner.Knows t.child.stage ∧ (t.owner.asks = true → t.result = none) := by
  obtain ⟨hborn, hstage⟩ := h.child_stage
  have hknows := hs.knows.next hborn
  rw [← hstage] at hknows
  have hsem := hs.sem
  cases h with
  | tid hc | semPost hc | eventLoop hc | callback hc | childLock hc | publish hc | childUnlock hc
  | looped hc | loopNull hc | destroyLoop hc =>
    rw [hc] at hsem hknows
    refine ⟨fun ho => ?_, hknows fun _ => by decide, hs.asks⟩
    rw [hsem ho]
    rfl
  | notifyOne hc =>
    by_cases ho : s.owner = .wait
    · simp only [ho, ↓reduceIte]
      exact ⟨nofun, Nat.le_add_left 3 5, fun _ => hs.asks (by rw [ho]; rfl)⟩
    · simp only [ho, ↓reduceIte]
      rw [hc] at hsem
      refine ⟨fun ho => ?_, hknows fun hw => (ho hw).elim, hs.asks⟩
      rw [hsem ho]
      rfl

theorem Handshake.child {s t : EventLoopThread F} (hs : Handshake s) (h : Step s .child t) :
    Handshake t := by
  obtain ⟨hborn, hstage⟩ := h.child_stage
  obtain ⟨htid, hloop⟩ := hs.child_data h
  obtain ⟨howner, hchild⟩ := hs.child_locks h
  obtain ⟨hsem, hknows, hasks⟩ := hs.child_owner h
  have hresult : t.result = s.result := by cases h <;> rfl
  refine ⟨?_, htid, hloop, hsem, howner, hchild, hknows, hasks, ?_, ?_⟩
  · have hsame : t.started_ = s.started_ := by cases h <;> rfl
    rw [hsame, hs.born]
    exact decide_eq_decide.2 (by omega)
  · intro hn
    have hread := hs.read (hresult ▸ hn)
    omega
  · intro hn
    have hnull := hs.null (hresult ▸ hn)
    omega

theorem Handshake.step {s t : EventLoopThread F} (hs : Handshake s) (h : Step s a t) :
    Handshake t := by
  cases a with
  | owner => exact hs.owner h
  | child => exact hs.child h
  | spurious =>
    cases h with
    | spurious ho =>
      have hknows := hs.knows
      rw [ho] at hknows
      exact hs.moves .relock (by rw [ho]; rfl) hknows.1 (fun _ => by rw [ho]; rfl) nofun
  | use =>
    cases h with
    | use | useDead => exact { hs with }
  | destruct =>
    cases h with
    | destruct ho =>
      have hknows := hs.knows
      rcases ho with ho | ⟨ho, -⟩
      · rw [ho] at hknows
        exact hs.moves .exitingTrue (by rw [ho]; rfl) (.inl hknows) nofun nofun
      · rw [ho] at hknows
        exact hs.moves .exitingTrue (by rw [ho]; rfl) (.inr hknows) nofun nofun

theorem mayUse_cases {s : EventLoopThread F} (h : s.mayUse a = true) :
    s.child = .loop ∨ a.isCall = true := by
  cases a with
  | loop | poll | handleRead => exact .inl (of_decide_eq_true h)
  | queueInloop | quit | advance => exact .inr rfl

theorem mayUse_loop {s : EventLoopThread F} (h : s.mayUse a = true) (ha : a.thread = .loop) :
    s.child = .callback ∨ s.child = .loop := by
  cases a with
  | loop | poll | handleRead => exact .inr (of_decide_eq_true h)
  | queueInloop | quit | advance =>
    cases ha
    exact of_decide_eq_true h

theorem mayUse_other {s : EventLoopThread F} (h : s.mayUse a = true) (ha : a.thread = .other n) :
    s.returnedLoop = true ∧ (n = 0 → s.owner = .returned) := by
  cases a with
  | loop | poll | handleRead => cases ha
  | queueInloop | quit | advance =>
    cases ha
    have h := of_decide_eq_true h
    exact ⟨h.1, h.2.1⟩

/-- The state of the loop fits the places at which the two threads stand. -/
structure Linked (s : EventLoopThread F) : Prop where
  exclusive : EventLoop.Exclusive s.loop
  unpublished : s.child.stage ≤ 6 → s.loop.pc = .threadFunc
  published : 7 ≤ s.child.stage → s.loop.pc ≠ .threadFunc
  returned : 10 ≤ s.child.stage → s.loop.pc = .returned
  idle : s.loop.call .loop ≠ .idle → s.child = .callback ∨ s.child = .loop
  shared : ∀ n, s.loop.call (.other n) ≠ .idle → s.owner.asks = false

theorem Linked.init (pid : Nat) : Linked ({ pid } : EventLoopThread F) where
  exclusive := .init
  unpublished _ := rfl
  published := nofun
  returned := nofun
  idle h := (h rfl).elim
  shared _ h := (h rfl).elim

theorem Linked.uses {s : EventLoopThread F} (hl : Linked s) (h : s.loop.step a = some l)
    (hpc : s.child = .loop ∨ a.isCall = true)
    (hloop : a.thread = .loop → s.child = .callback ∨ s.child = .loop)
    (hother : ∀ n, a.thread = .other n → o.asks = false)
    (ho : o.asks = true → s.owner.asks = true) : Linked { s with loop := l, owner := o } := by
  have hs := EventLoop.Step.of_step h
  refine ⟨hl.exclusive.step h, ?_, ?_, ?_, ?_, ?_⟩
  · intro hstage
    rcases hpc with hc | hcall
    · rw [hc] at hstage
      exact (Nat.not_le_of_gt (by decide) hstage).elim
    · exact (hs.pc_of_isCall hcall).trans (hl.unpublished hstage)
  · intro hstage
    rcases hs.pc_cases with hsame | ⟨-, hstarted⟩
    · exact hsame ▸ hl.published hstage
    · exact hstarted
  · intro hstage
    rcases hs.pc_cases with hsame | ⟨hrun, -⟩
    · exact hsame.trans (hl.returned hstage)
    · exact (hrun (hl.returned hstage)).elim
  · intro hn
    by_cases ha : a.thread = .loop
    · exact hloop ha
    · exact hl.idle (hs.call_of_ne (Ne.symm ha) ▸ hn)
  · intro n hn
    by_cases ha : a.thread = .other n
    · exact hother n ha
    · have hasks := hl.shared n (hs.call_of_ne (Ne.symm ha) ▸ hn)
      exact Bool.eq_false_iff.2 fun h => Bool.false_ne_true (hasks.symm.trans (ho h))

theorem Linked.moves {s : EventLoopThread F} (hl : Linked s) (o : Owner)
    (ho : o.asks = true → s.owner.asks = true) : Linked { s with owner := o } := by
  refine { hl with shared := ?_ }
  intro n hn
  have hasks := hl.shared n hn
  exact Bool.eq_false_iff.2 fun h => Bool.false_ne_true (hasks.symm.trans (ho h))

theorem Linked.unused {s : EventLoopThread F} (hl : Linked s) (hc : s.child ≠ .callback)
    (hc' : s.child ≠ .loop) : s.loop.call .loop = .idle := by
  by_contra hn
  exact (hl.idle hn).elim hc hc'

theorem Linked.owner {s t : EventLoopThread F} (hl : Linked s) (hs : Handshake s)
    (h : Step s .owner t) : Linked t := by
  cases h with
  | start ho =>
    have hc : s.child = .unborn := by
      have hknows := hs.knows
      rw [ho] at hknows
      exact Child.stage_eq_zero hknows
    refine ⟨hl.exclusive, fun _ => hl.unpublished (by rw [hc]; decide), fun h => le_elim h rfl,
      fun h => le_elim h rfl, ?_, ?_⟩
    · intro hn
      exact (hn (hl.unused (by rw [hc]; nofun) (by rw [hc]; nofun))).elim
    · intro n hn
      have hasks := hl.shared n hn
      rw [ho] at hasks
      cases hasks
  | semWait ho => exact { hl.moves .lock (fun _ => by rw [ho]; rfl) with }
  | ownerLock ho =>
    exact { hl.moves .whileLoop (fun _ => by rcases ho with ho | ho <;> rw [ho] <;> rfl) with }
  | found ho => exact hl.moves .loopRead fun _ => by rw [ho]; rfl
  | sleep ho => exact { hl.moves .wait (fun _ => by rw [ho]; rfl) with }
  | loopRead => exact { hl.moves .unlock nofun with }
  | ownerUnlock => exact { hl.moves .returned nofun with }
  | exitingTrue => exact { hl.moves .ifLoop nofun with }
  | ifLoop => exact hl.moves .loopQuit nofun
  | quitDead => exact { hl.moves .quitting nofun with }
  | quitDone => exact hl.moves .joinedTrue nofun
  | joinedTrue => exact { hl.moves .join nofun with }
  | ifNull | join => exact { hl.moves .ifDetach nofun with }
  | ifDetach => exact { hl.moves .destroyed nofun with }
  | quitNull | advanceDead => exact { hl with }
  | quit _ _ hstep => exact hl.uses hstep (.inr rfl) nofun (fun _ _ => rfl) nofun
  | advance ho _ hstep =>
    exact hl.uses hstep (.inr rfl) nofun (fun _ _ => by rw [ho]; rfl) id

theorem Linked.child {s t : EventLoopThread F} (hl : Linked s) (h : Step s .child t) :
    Linked t := by
  have hunpublished := hl.unpublished
  have hpublished := hl.published
  have hreturned := hl.returned
  have hunused := hl.unused
  cases h with
  | tid hc | semPost hc | childLock hc =>
    rw [hc] at hunpublished hunused
    have hidle := hunused (by decide) (by decide)
    exact { hl with
      unpublished := fun _ => hunpublished (by decide)
      published := fun h => le_elim h rfl
      returned := fun h => le_elim h rfl
      idle := fun hn => (hn hidle).elim }
  | eventLoop hc =>
    rw [hc] at hunpublished
    exact { hl with
      unpublished := fun _ => hunpublished (by decide)
      published := fun h => le_elim h rfl
      returned := fun h => le_elim h rfl
      idle := fun _ => .inl rfl }
  | callback hc hidle =>
    rw [hc] at hunpublished
    exact { hl with
      unpublished := fun _ => hunpublished (by decide)
      published := fun h => le_elim h rfl
      returned := fun h => le_elim h rfl
      idle := fun hn => (hn hidle).elim }
  | publish hc hstep =>
    rw [hc] at hunpublished hunused
    have hidle := hunused (by decide) (by decide)
    have hl' := EventLoop.publish_eq (hunpublished (by decide)) hstep
    subst hl'
    exact {
      exclusive := hl.exclusive.step hstep
      unpublished := fun h => le_elim h rfl
      published := fun _ => nofun
      returned := fun h => le_elim h rfl
      idle := fun hn => (hn hidle).elim
      shared := hl.shared }
  | notifyOne hc =>
    rw [hc] at hpublished hunused
    have hidle := hunused (by decide) (by decide)
    refine ⟨hl.exclusive, fun h => le_elim h rfl, fun _ => hpublished (by decide),
      fun h => le_elim h rfl, fun hn => (hn hidle).elim, ?_⟩
    intro n hn
    have hasks := hl.shared n hn
    split
    · rename_i ho
      rw [ho] at hasks
      cases hasks
    · exact hasks
  | childUnlock hc =>
    rw [hc] at hpublished
    exact { hl with
      unpublished := fun h => le_elim h rfl
      published := fun _ => hpublished (by decide)
      returned := fun h => le_elim h rfl
      idle := fun _ => .inr rfl }
  | looped hc hpc =>
    have hidle := hl.exclusive.idle_of_pc (by simp only [EventLoop.mayCall, hpc])
    exact { hl with
      unpublished := fun h => le_elim h rfl
      published := fun _ => by rw [hpc]; decide
      returned := fun _ => hpc
      idle := fun hn => (hn hidle).elim }
  | loopNull hc | destroyLoop hc =>
    rw [hc] at hpublished hreturned hunused
    have hidle := hunused (by decide) (by decide)
    exact { hl with
      unpublished := fun h => le_elim h rfl
      published := fun _ => hpublished (by decide)
      returned := fun _ => hreturned (by decide)
      idle := fun hn => (hn hidle).elim }

theorem Linked.step {s t : EventLoopThread F} (hl : Linked s) (hs : Handshake s)
    (h : Step s a t) : Linked t := by
  cases a with
  | owner => exact hl.owner hs h
  | child => exact hl.child h
  | spurious =>
    cases h with
    | spurious ho => exact hl.moves .relock fun _ => by rw [ho]; rfl
  | use =>
    cases h with
    | use hmay _ hstep =>
      refine hl.uses hstep (mayUse_cases hmay) (mayUse_loop hmay) ?_ id
      intro n ha
      have hresult := (of_decide_eq_true (mayUse_other hmay ha).1).1
      refine Bool.eq_false_iff.2 fun hasks => ?_
      cases (hs.asks hasks).symm.trans hresult
    | useDead => exact { hl with }
  | destruct =>
    cases h with
    | destruct => exact hl.moves .exitingTrue nofun

end EventLoopThread
end MuduoStudy
