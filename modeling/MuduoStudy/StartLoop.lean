import MuduoStudy.Handshake

namespace MuduoStudy
open Transition
set_option autoImplicit true

namespace EventLoop

/-- How many statements a call has before it, at most. -/
def Call.left : Call F → Nat
  | .idle => 0
  | .lock _ => 5
  | .emplaceBack _ => 4
  | .ifWakeup _ => 3
  | .wakeup _ => 2
  | .unlock _ => 1
  | .quitTrue => 3
  | .ifQuitWakeup => 2
  | .quitWakeup => 1

theorem Call.left_le (c : Call F) : c.left ≤ 5 := by
  cases c <;> simp only [Call.left] <;> omega

theorem Step.left_lt {s s' : EventLoop F} (h : Step s (.advance t) s') :
    (s'.call t).left < (s.call t).left := by
  cases h with
  | ifWakeup hc hk =>
    rcases hk with rfl | rfl <;> simp only [setCall, Function.update_self, hc, Call.left] <;> omega
  | lock hc | emplaceBack hc | wakeup hc | unlock hc | quitTrue hc | quitInLoop hc | ifQuitWakeup hc
  | quitWakeup hc =>
    simp only [setCall, Function.update_self, hc, Call.left]
    omega

theorem advance_of_free {s : EventLoop F} (hm : (s.call t).holdsMutex = false → s.mutex_ = none)
    (hc : s.call t ≠ .idle) : ∃ s', s.step (.advance t) = some s' := by
  rw [step, advance]
  cases hcall : s.call t with
  | idle => exact (hc hcall).elim
  | lock =>
    rw [hcall] at hm
    rw [hm rfl]
    exact ⟨_, rfl⟩
  | ifQuitWakeup =>
    by_cases ht : t = .loop
    · simp only [ht, ↓reduceIte]
      exact ⟨_, rfl⟩
    · simp only [ht, ↓reduceIte]
      exact ⟨_, rfl⟩
  | emplaceBack | ifWakeup | wakeup | unlock | quitTrue | quitWakeup => exact ⟨_, rfl⟩

theorem Step.free {s s' : EventLoop F} (h : Step s a s') (ha : a.isCall = true)
    (hthread : a.thread = .loop)
    (hm : (s.call .loop).holdsMutex = false → s.mutex_ = none)
    (hc : (s'.call .loop).holdsMutex = false) : s'.mutex_ = none := by
  cases h with
  | publish | loopingTrue | quitFalse | leave | iterate | handled | callingTrue | lockSwap | swap
  | unlockSwap | endFunctors | callFunctor | functorReturns | callingFalse | loopingFalse | poll
  | handleRead => cases ha
  | unlock => rfl
  | lock | emplaceBack | wakeup =>
    cases hthread
    simp only [setCall, Function.update_self, Call.holdsMutex] at hc
    cases hc
  | ifWakeup _ hk =>
    cases hthread
    rcases hk with rfl | rfl <;>
      simp only [setCall, Function.update_self, Call.holdsMutex] at hc <;> cases hc
  | queueInloop hidle | quit hidle | quitTrue hidle | ifQuitWakeup hidle
  | quitWakeup hidle =>
    cases hthread
    exact hm (by rw [hidle]; rfl)
  | quitInLoop hidle => exact hm (by rw [hidle]; rfl)

/-- The locations before the loop sets `quit_` to false. -/
def Pc.entering : Pc → Bool
  | .threadFunc | .loopingTrue | .quitFalse => true
  | _ => false

/-- Without a `quit` after its entry the loop does not leave its `while`. -/
theorem Step.stays {s s' : EventLoop F} (h : Step s a s') (ha : a.thread = .loop)
    (hquit : s.quit_ = true → s.pc.entering = true)
    (hcall : s.call .loop = .quitTrue → s.pc.entering = true)
    (hpc : s.pc ≠ .loopingFalse ∧ s.pc ≠ .returned) :
    (s'.quit_ = true → s'.pc.entering = true) ∧ s'.pc ≠ .loopingFalse ∧ s'.pc ≠ .returned := by
  cases h with
  | publish | loopingTrue => exact ⟨fun _ => rfl, nofun, nofun⟩
  | quitFalse => exact ⟨nofun, nofun, nofun⟩
  | leave hwhile hq =>
    have hentering := hquit hq
    rw [hwhile] at hentering
    cases hentering
  | loopingFalse hleave => exact (hpc.1 hleave).elim
  | iterate hloop | handled hloop | callingTrue hloop | lockSwap hloop | swap hloop
  | unlockSwap hloop | endFunctors hloop | callFunctor hloop | functorReturns hloop
  | callingFalse hloop | poll hloop | handleRead hloop =>
    refine ⟨fun hq => ?_, nofun, nofun⟩
    have hentering := hquit hq
    rw [hloop] at hentering
    cases hentering
  | quitTrue hc =>
    cases ha
    exact ⟨fun _ => hcall hc, hpc⟩
  | queueInloop | quit | lock | emplaceBack | ifWakeup | wakeup | unlock | quitInLoop
  | ifQuitWakeup | quitWakeup => exact ⟨hquit, hpc⟩

theorem Step.quits {s s' : EventLoop F} (h : Step s a s') (ha : a ≠ .quit t)
    (hc : s'.call t = .quitTrue) : s.call t = .quitTrue := by
  by_cases hthread : t = a.thread
  · cases h with
    | quit => exact (ha (hthread ▸ rfl)).elim
    | publish | loopingTrue | quitFalse | leave | iterate | handled | callingTrue | lockSwap | swap
    | unlockSwap | endFunctors | callFunctor | functorReturns | callingFalse | loopingFalse | poll
    | handleRead => exact hc
    | ifWakeup _ hk =>
      subst hthread
      rcases hk with rfl | rfl <;> simp only [setCall, Function.update_self] at hc <;> cases hc
    | queueInloop | lock | emplaceBack | wakeup | unlock | quitTrue | quitInLoop | ifQuitWakeup
    | quitWakeup =>
      subst hthread
      simp only [Action.thread, setCall, Function.update_self] at hc
      cases hc
  · exact h.call_of_ne hthread ▸ hc

end EventLoop

namespace EventLoopThread

/-- In the callback only the new thread uses the loop. -/
def Alone (s : EventLoopThread F) : Prop :=
  s.child.stage ≤ 6 → (s.loop.call .loop).holdsMutex = false → s.loop.mutex_ = none

theorem Handshake.late {s : EventLoopThread F} (hs : Handshake s) (hr : s.returnedLoop = true) :
    9 ≤ s.child.stage := by
  apply hs.read
  rw [(of_decide_eq_true hr).1]
  nofun

theorem Alone.step {s t : EventLoopThread F} (hs : Handshake s) (ha : Alone s)
    (h : Step s a t) : Alone t := by
  have hknows := hs.knows
  have later {P : Prop} (hn : 9 ≤ s.child.stage) (hle : s.child.stage ≤ 6) : P :=
    (Nat.not_le_of_gt (Nat.lt_of_lt_of_le (by decide) hn) hle).elim
  cases h with
  | start ho =>
    rw [ho] at hknows
    exact fun _ => ha (by rw [show s.child.stage = 0 from hknows]; decide)
  | quit ho | advance ho =>
    rw [ho] at hknows
    exact fun hstage => later hknows hstage
  | tid hc | semPost hc | eventLoop hc | callback hc | childLock hc =>
    exact fun _ => ha (by rw [hc]; decide)
  | publish | notifyOne | childUnlock | looped | loopNull | destroyLoop =>
    exact fun hstage => le_elim hstage rfl
  | @use b _ hmay _ hstep =>
    intro hstage
    rcases mayUse_cases hmay with hc | hcall
    · rw [hc] at hstage
      exact le_elim hstage rfl
    · cases hthread : b.thread with
      | loop => exact (EventLoop.Step.of_step hstep).free hcall hthread (ha hstage)
      | other n => exact later (hs.late (mayUse_other hmay hthread).1) hstage
  | _ => exact ha

/-- How many statements of `startLoop` the owner has before it, at most, if it is not made to wait
again. -/
def Owner.left : Owner → Nat
  | .start => 9
  | .semWait => 8
  | .lock | .relock => 7
  | .whileLoop => 6
  | .wait => 5
  | .loopRead => 4
  | .unlock => 3
  | _ => 0

theorem Owner.left_pos {o : Owner} (h : o.asks = true) : 0 < o.left := by
  cases o with
  | start | semWait | lock | wait | relock | whileLoop | loopRead => decide
  | _ => cases h

structure Sound (s : EventLoopThread F) : Prop where
  handshake : Handshake s
  linked : Linked s
  alone : Alone s
  unfaulted : s.fault = true → s.owner.left = 0

theorem Sound.init (pid : Nat) : Sound ({ pid } : EventLoopThread F) :=
  ⟨.init pid, .init pid, fun _ _ => rfl, nofun⟩

theorem Handshake.left_eq_zero {s : EventLoopThread F} (hs : Handshake s)
    (hr : s.returnedLoop = true) : s.owner.left = 0 := by
  obtain ⟨hresult, hunlock⟩ := of_decide_eq_true hr
  cases ho : s.owner with
  | unlock => exact (hunlock ho).elim
  | start | semWait | lock | wait | relock | whileLoop | loopRead =>
    cases (hs.asks (by rw [ho]; rfl)).symm.trans hresult
  | _ => rfl

theorem Sound.step {s t : EventLoopThread F} (hs : Sound s) (h : s.step a = some t) : Sound t := by
  have hgo := Step.of_step h
  refine ⟨hs.handshake.step hgo, hs.linked.step hs.handshake hgo,
    hs.alone.step hs.handshake hgo, ?_⟩
  have hfault : s.fault = false := by
    simp only [EventLoopThread.step, Option.ite_none_left_eq_some] at h
    exact Bool.eq_false_iff.2 h.1
  intro ht
  cases hgo with
  | quitNull ho | advanceDead ho => exact congrArg Owner.left ho
  | quitDead => rfl
  | @useDead b hmay hdead =>
    cases hthread : b.thread with
    | loop =>
      rcases mayUse_loop hmay hthread with hc | hc <;> rw [hc] at hdead <;> cases hdead
    | other n => exact hs.handshake.left_eq_zero (mayUse_other hmay hthread).1
  | _ => cases hfault.symm.trans ht

theorem Sound.run {s t : EventLoopThread F} (hs : Sound s) (h : Run EventLoopThread.step s as t) :
    Sound t :=
  h.invariant hs fun _ _ _ => Sound.step

/-- The steps that the two threads make of themselves: the next statements of `startLoop` and of
the new thread, and those of a call that the callback has begun. -/
def Action.inward : Action F → Bool
  | .owner | .child | .use (.advance .loop) => true
  | _ => false

/-- How many inward steps there can be before `startLoop` returns. -/
def left (s : EventLoopThread F) : Nat :=
  s.owner.left + 3 * (12 - s.child.stage) + (s.loop.call .loop).left

theorem Child.stage_le (c : Child) : c.stage ≤ 12 := by
  cases c <;> decide

theorem Step.child_left {s t : EventLoopThread F} (hs : Sound s) (h : Step s .child t) :
    t.owner.left ≤ s.owner.left + 2 ∧ t.loop.call .loop = s.loop.call .loop := by
  cases h with
  | publish hc hstep =>
    rw [EventLoop.publish_eq (hs.linked.unpublished (by rw [hc]; decide)) hstep]
    exact ⟨Nat.le_add_right _ 2, rfl⟩
  | notifyOne =>
    refine ⟨?_, rfl⟩
    split
    · rename_i ho
      rw [ho]
      exact Nat.le_refl 7
    · exact Nat.le_add_right _ 2
  | _ => exact ⟨Nat.le_add_right _ 2, rfl⟩

theorem Sound.left_lt {s t : EventLoopThread F} (hs : Sound s) (ha : a.inward = true)
    (ho : 0 < s.owner.left) (h : Step s a t) : t.left < s.left := by
  cases a with
  | owner =>
    cases h with
    | start howner =>
      have hknows := hs.handshake.knows
      rw [howner] at hknows
      simp only [left, howner, Child.stage_eq_zero hknows, Owner.left, Child.stage]
      omega
    | semWait howner | found howner | sleep howner | loopRead howner | ownerUnlock howner =>
      simp only [left, howner, Owner.left]
      omega
    | ownerLock howner =>
      rcases howner with howner | howner <;> simp only [left, howner, Owner.left] <;> omega
    | exitingTrue howner | ifLoop howner | ifNull howner | quit howner | quitNull howner
    | quitDead howner | advance howner | advanceDead howner | quitDone howner | joinedTrue howner
    | join howner | ifDetach howner =>
      rw [howner] at ho
      cases ho
  | child =>
    obtain ⟨-, hstage⟩ := h.child_stage
    obtain ⟨howner, hcall⟩ := h.child_left hs
    have hle := t.child.stage_le
    simp only [left, hcall]
    omega
  | spurious | destruct => cases ha
  | use b =>
    cases b with
    | advance u =>
      cases u with
      | loop =>
        cases h with
        | useDead hmay hdead =>
          rcases mayUse_loop hmay rfl with hc | hc <;> rw [hc] at hdead <;> cases hdead
        | use _ _ hstep =>
          have hlt := (EventLoop.Step.of_step hstep).left_lt
          simp only [left]
          omega
      | other => cases ha
    | _ => cases ha

theorem step_owner {s : EventLoopThread F} (hf : s.fault = false) :
    s.step .owner = s.ownerNext := by
  simp only [step, hf, Bool.false_eq_true, ↓reduceIte]

theorem step_child {s : EventLoopThread F} (hf : s.fault = false) :
    s.step .child = s.childNext := by
  simp only [step, hf, Bool.false_eq_true, ↓reduceIte]

theorem step_use {s : EventLoopThread F} (hf : s.fault = false) (hmay : s.mayUse a = true)
    (halive : s.child.alive = true) (hl : s.loop.step a = some l) :
    s.step (.use a) = some { s with loop := l } := by
  simp only [step, hf, hmay, useLoop, halive, hl, Bool.false_eq_true, ↓reduceIte, Option.map_some]

theorem Sound.child_ready {s : EventLoopThread F} (hs : Sound s) (hf : s.fault = false)
    (hborn : s.child.stage ≠ 0) (hc : s.child.stage ≤ 8) (hm : s.child = .lock → s.mutex_ = none) :
    ∃ a t, Action.inward a = true ∧ s.step a = some t ∧ t.child.stage ≤ 10 := by
  have goes (hn : s.childNext.isSome = true) :
      ∃ a t, Action.inward a = true ∧ s.step a = some t ∧ t.child.stage ≤ 10 := by
    obtain ⟨t, ht⟩ := Option.isSome_iff_exists.1 hn
    have hstage := (Step.of_child ht).child_stage.2
    exact ⟨.child, t, rfl, (step_child hf).trans ht, by omega⟩
  cases hchild : s.child with
  | unborn => exact (hborn (by rw [hchild]; rfl)).elim
  | loop | loopNull | destroyLoop | ended =>
    rw [hchild] at hc
    exact le_elim hc rfl
  | tid | semPost | eventLoop | notifyOne | unlock => exact goes (by rw [childNext, hchild]; rfl)
  | lock => exact goes (by rw [childNext, hchild, hm hchild]; rfl)
  | publish =>
    have hpc := hs.linked.unpublished (by rw [hchild]; decide)
    have hidle := hs.linked.unused (by rw [hchild]; decide) (by rw [hchild]; decide)
    refine goes ?_
    simp only [childNext, hchild, EventLoop.step, EventLoop.loop, hpc, hidle, EventLoop.Call.isIdle,
      ↓reduceIte, Option.map_some, Option.isSome_some]
  | callback =>
    by_cases hidle : s.loop.call .loop = .idle
    · exact goes (by rw [childNext, hchild, hidle]; rfl)
    · have halone := hs.alone (by rw [hchild]; decide)
      obtain ⟨l, hl⟩ := EventLoop.advance_of_free halone hidle
      have hmay : s.mayUse (.advance .loop) = true := by
        rw [mayUse, hchild]
        rfl
      exact ⟨.use (.advance .loop), { s with loop := l }, rfl,
        step_use hf hmay (by rw [hchild]; rfl) hl, Nat.le_trans hc (by decide)⟩

/-- As long as `loop_` has not been cleared, an inward step is possible that does not clear it. -/
theorem Sound.advances {s : EventLoopThread F} (hs : Sound s) (ho : 0 < s.owner.left)
    (hc : s.child.stage ≤ 10) :
    ∃ a t, Action.inward a = true ∧ s.step a = some t ∧ t.child.stage ≤ 10 := by
  have hf : s.fault = false := by
    refine Bool.eq_false_iff.2 fun hf => ?_
    rw [hs.unfaulted hf] at ho
    cases ho
  have hknows := hs.handshake.knows
  have goes (hn : s.ownerNext.isSome = true) :
      ∃ a t, Action.inward a = true ∧ s.step a = some t ∧ t.child.stage ≤ 10 := by
    obtain ⟨t, ht⟩ := Option.isSome_iff_exists.1 hn
    refine ⟨.owner, t, rfl, (step_owner hf).trans ht, ?_⟩
    cases Step.of_owner ht with
    | start => exact Nat.le_add_left 1 9
    | _ => exact hc
  -- a thread that holds `mutex_` comes to release it
  have held (hh : s.owner.holds = false) (hm : s.mutex_ ≠ none) :
      s.child.holds = true := by
    cases hmutex : s.mutex_ with
    | none => exact (hm hmutex).elim
    | some side =>
      cases side with
      | owner => exact (Bool.false_ne_true (hh.symm.trans (hs.handshake.ownerHolds.1 hmutex))).elim
      | child => exact hs.handshake.childHolds.1 hmutex
  have releases (hh : s.child.holds = true) :
      ∃ a t, Action.inward a = true ∧ s.step a = some t ∧ t.child.stage ≤ 10 := by
    cases hchild : s.child with
    | publish | notifyOne | unlock =>
      refine hs.child_ready hf ?_ ?_ ?_ <;> rw [hchild]
      · decide
      · decide
      · intro h
        cases h
    | _ =>
      rw [hchild] at hh
      cases hh
  have locks (howner : s.owner = .lock ∨ s.owner = .relock) :
      ∃ a t, Action.inward a = true ∧ s.step a = some t ∧ t.child.stage ≤ 10 := by
    by_cases hm : s.mutex_ = none
    · rcases howner with howner | howner
      · exact goes (by rw [ownerNext, howner, hm]; rfl)
      · exact goes (by rw [ownerNext, howner, hm]; rfl)
    · exact releases (held (by rcases howner with howner | howner <;> rw [howner] <;> rfl) hm)
  cases howner : s.owner with
  | start => exact goes (by rw [ownerNext, howner]; rfl)
  | semWait =>
    rw [howner] at hknows
    by_cases hstage : 3 ≤ s.child.stage
    · have hsem := hs.handshake.sem (.inr howner)
      rw [if_pos hstage] at hsem
      exact goes (by rw [ownerNext, howner, hsem]; rfl)
    · refine hs.child_ready hf (Nat.ne_of_gt hknows) (by omega) ?_
      intro hchild
      rw [hchild] at hstage
      exact (hstage (by decide)).elim
  | lock => exact locks (.inl howner)
  | relock => exact locks (.inr howner)
  | whileLoop =>
    by_cases hl : s.loop_ = true
    · exact goes (by rw [ownerNext, howner, hl]; rfl)
    · exact goes (by rw [ownerNext, howner, Bool.eq_false_iff.2 hl]; rfl)
  | wait =>
    rw [howner] at hknows
    have hstage : 3 ≤ s.child.stage ∧ s.child.stage ≤ 7 :=
      ⟨hknows.1, hknows.2.resolve_right (by omega)⟩
    refine hs.child_ready hf (by omega) (by omega) ?_
    intro hchild
    by_contra hm
    have hholds := held (by rw [howner]; rfl) hm
    rw [hchild] at hholds
    cases hholds
  | loopRead | unlock => exact goes (by rw [ownerNext, howner]; rfl)
  | _ =>
    rw [howner] at ho
    cases ho

/-- `startLoop` is under way or has returned, and `loop_` has not been cleared. -/
structure Hopeful (s : EventLoopThread F) : Prop where
  sound : Sound s
  uncleared : s.child.stage ≤ 10
  started : 0 < s.owner.left ∨ s.owner = .returned
  result : s.owner.asks = true ∨ s.result = some true

theorem Hopeful.step {s t : EventLoopThread F} (hs : Hopeful s) (ho : 0 < s.owner.left)
    (ha : a.inward = true) (hc : t.child.stage ≤ 10) (h : s.step a = some t) : Hopeful t := by
  suffices hn : (0 < t.owner.left ∨ t.owner = .returned) ∧
      (t.owner.asks = true ∨ t.result = some true) from ⟨hs.sound.step h, hc, hn.1, hn.2⟩
  cases a with
  | owner =>
    cases Step.of_step h with
    | start | semWait | ownerLock | found | sleep => exact ⟨.inl (Owner.left_pos rfl), .inl rfl⟩
    | loopRead howner =>
      have hknows := hs.sound.handshake.knows
      rw [howner] at hknows
      have hl : s.loop_ = true := hs.sound.handshake.loop_.trans
        (decide_eq_true ⟨Nat.le_trans (by decide) hknows, hs.uncleared⟩)
      exact ⟨.inl (Nat.succ_pos 2), .inr (congrArg some hl)⟩
    | ownerUnlock howner =>
      refine ⟨.inr rfl, .inr (hs.result.resolve_left ?_)⟩
      rw [howner]
      nofun
    | exitingTrue howner | ifLoop howner | ifNull howner | quit howner | quitNull howner
    | quitDead howner | advance howner | advanceDead howner | quitDone howner | joinedTrue howner
    | join howner | ifDetach howner =>
      rw [howner] at ho
      cases ho
  | child =>
    cases Step.of_step h with
    | notifyOne =>
      split
      · exact ⟨.inl (Owner.left_pos rfl), .inl rfl⟩
      · exact ⟨.inl ho, hs.result⟩
    | _ => exact ⟨.inl ho, hs.result⟩
  | use =>
    cases Step.of_step h with
    | use | useDead => exact ⟨.inl ho, hs.result⟩
  | spurious | destruct => cases ha

theorem Hopeful.returns {s : EventLoopThread F} (hs : Hopeful s) :
    ∃ bs t, Run EventLoopThread.step s bs t ∧ t.owner = .returned ∧ t.result = some true := by
  have advances (u : EventLoopThread F) (hu : Hopeful u) (hn : u.owner ≠ .returned) :
      ∃ a t, a.inward = true ∧ u.step a = some t ∧ Hopeful t ∧ t.left < u.left := by
    have hleft := hu.started.resolve_right hn
    obtain ⟨a, t, ha, hstep, hc⟩ := hu.sound.advances hleft hu.uncleared
    exact ⟨a, t, ha, hstep, hu.step hleft ha hc hstep,
      hu.sound.left_lt ha hleft (Step.of_step hstep)⟩
  obtain ⟨bs, t, hrun, -, ht, hreturned⟩ := exists_run left hs advances
  refine ⟨bs, t, hrun, hreturned, ht.result.resolve_left ?_⟩
  rw [hreturned]
  nofun

/-- `loop_` has been cleared for good, and `startLoop` had not read it before. -/
structure Missed (s : EventLoopThread F) : Prop where
  handshake : Handshake s
  cleared : 11 ≤ s.child.stage
  result : s.result ≠ some true

theorem Missed.loop_ {s : EventLoopThread F} (hs : Missed s) : s.loop_ = false := by
  refine hs.handshake.loop_.trans (decide_eq_false ?_)
  have hc := hs.cleared
  omega

theorem Missed.step {s t : EventLoopThread F} (hs : Missed s) (h : Step s a t) : Missed t := by
  refine ⟨hs.handshake.step h, ?_, ?_⟩
  · have hc := hs.cleared
    cases h with
    | start ho =>
      have hknows := hs.handshake.knows
      rw [ho] at hknows
      rw [show s.child.stage = 0 from hknows] at hc
      exact le_elim hc rfl
    | tid hchild | semPost hchild | eventLoop hchild | callback hchild | childLock hchild
    | publish hchild | notifyOne hchild | childUnlock hchild | looped hchild | loopNull hchild =>
      rw [hchild] at hc
      exact le_elim hc rfl
    | destroyLoop => exact Nat.le_succ 11
    | _ => exact hc
  · cases h with
    | loopRead =>
      rw [hs.loop_]
      nofun
    | _ => exact hs.result

/-- `startLoop` has missed the loop and stands in its `while`. -/
structure Stuck (s : EventLoopThread F) : Prop where
  missed : Missed s
  asks : s.owner.asks = true
  waits : s.owner ≠ .loopRead

theorem Stuck.step {s t : EventLoopThread F} (hs : Stuck s) (h : Step s a t) : Stuck t := by
  have hnext (hasks : t.owner.asks = true) (hwaits : t.owner ≠ .loopRead) : Stuck t :=
    ⟨hs.missed.step h, hasks, hwaits⟩
  have hasks := hs.asks
  cases h with
  | start | semWait | ownerLock | sleep | spurious => exact hnext rfl nofun
  | found _ hl => cases hs.missed.loop_.symm.trans hl
  | loopRead ho => exact (hs.waits ho).elim
  | ownerUnlock ho | exitingTrue ho | ifLoop ho | ifNull ho | quit ho | quitNull ho | quitDead ho
  | advance ho | advanceDead ho | quitDone ho | joinedTrue ho | join ho | ifDetach ho =>
    rw [ho] at hasks
    cases hasks
  | notifyOne =>
    refine hnext ?_ ?_
    · split
      · rfl
      · exact hasks
    · split
      · nofun
      · exact hs.waits
  | destruct ho =>
    rcases ho with ho | ⟨ho, -⟩
    · have hknows := hs.missed.handshake.knows
      have hc := hs.missed.cleared
      rw [ho] at hknows
      rw [show s.child.stage = 0 from hknows] at hc
      exact le_elim hc rfl
    · rw [ho] at hasks
      cases hasks
  | tid | semPost | eventLoop | callback | childLock | publish | childUnlock | looped | loopNull
  | destroyLoop | use | useDead => exact hnext hasks hs.waits

/-- Until it has read `loop_`, `startLoop` can still return the loop if and only if the new thread
has not set `loop_` back to null. After that it can only return a null pointer, and that if and
only if it has already left its `while`. -/
theorem startLoop_can_return_iff {pid : Nat} {s : EventLoopThread F}
    (h : Run step { pid } as s) (ho : s.owner.asks = true) :
    ((∃ bs t, Run step s bs t ∧ t.owner = .returned ∧ t.result = some true) ↔
      s.child ≠ .destroyLoop ∧ s.child ≠ .ended) ∧
    (s.child = .destroyLoop ∨ s.child = .ended →
      ((∃ bs t, Run step s bs t ∧ t.owner = .returned ∧ t.result = some false) ↔
        s.owner = .loopRead) ∧
      ((∃ bs t, Run step s bs t ∧ t.owner = .returned) ↔ s.owner = .loopRead)) := by
  have hs := (Sound.init pid).run h
  have hcleared : s.child ≠ .destroyLoop ∧ s.child ≠ .ended ↔ s.child.stage ≤ 10 := by
    cases s.child <;> decide
  have hmissed (hc : 11 ≤ s.child.stage) : Missed s :=
    ⟨hs.handshake, hc, by rw [hs.handshake.asks ho]; nofun⟩
  refine ⟨⟨?_, ?_⟩, fun hc => ?_⟩
  · rintro ⟨bs, t, hrun, -, hresult⟩
    rw [hcleared]
    by_contra hc
    have ht := hrun.invariant (hmissed (by omega)) fun _ _ _ hu hstep =>
      hu.step (Step.of_step hstep)
    exact ht.result hresult
  · intro hc
    exact Hopeful.returns ⟨hs, hcleared.1 hc, .inl (Owner.left_pos ho), .inl ho⟩
  · have hm : Missed s := hmissed (by rcases hc with hc | hc <;> rw [hc] <;> decide)
    have hnever (bs : List (Action F)) (t : EventLoopThread F) (hrun : Run step s bs t)
        (ht : t.owner = .returned) : s.owner = .loopRead := by
      by_contra hn
      have hstuck := hrun.invariant (P := Stuck) ⟨hm, ho, hn⟩
        fun _ _ _ hu hstep => hu.step (Step.of_step hstep)
      have hasks := hstuck.asks
      rw [ht] at hasks
      cases hasks
    have hreads (hread : s.owner = .loopRead) :
        ∃ bs t, Run step s bs t ∧ t.owner = .returned ∧ t.result = some false := by
      have hf : s.fault = false := by
        refine Bool.eq_false_iff.2 fun hf => ?_
        have hleft := hs.unfaulted hf
        rw [hread] at hleft
        cases hleft
      have hfirst : s.step .owner = some { s with result := some false, owner := .unlock } := by
        rw [step_owner hf, ownerNext, hread, hm.loop_]
      have hsecond : ({ s with result := some false, owner := .unlock } : EventLoopThread F).step
          .owner = some { s with result := some false, mutex_ := none, owner := .returned } := by
        simp only [step, hf, Bool.false_eq_true, ↓reduceIte, ownerNext]
      exact ⟨[.owner, .owner], _, .cons hfirst (.cons hsecond (.nil _)), rfl, rfl⟩
    refine ⟨⟨?_, hreads⟩, ?_, ?_⟩
    · rintro ⟨bs, t, hrun, ht, -⟩
      exact hnever bs t hrun ht
    · rintro ⟨bs, t, hrun, ht⟩
      exact hnever bs t hrun ht
    · intro hread
      obtain ⟨bs, t, hrun, ht, -⟩ := hreads hread
      exact ⟨bs, t, hrun, ht⟩

/-- The callback queues a functor that quits the loop, and the loop has returned before the owner
gets `mutex_` again. -/
def quitsEarly : List (Action Nat) :=
  [.owner, .child, .child, .owner, .owner, .owner, .child,
    .use (.queueInloop .loop 0), .use (.advance .loop), .use (.advance .loop),
    .use (.advance .loop), .use (.advance .loop),
    .child, .child, .child, .child, .child,
    .use .loop, .use .loop, .use .loop, .use (.poll false), .use .loop, .use .loop, .use .loop,
    .use .loop, .use .loop, .use .loop,
    .use (.quit .loop), .use (.advance .loop), .use (.advance .loop),
    .use .loop, .use .loop, .use .loop, .use .loop, .use .loop,
    .child, .child, .owner, .owner]

/-- `startLoop` then waits for a notification that has already come. -/
theorem startLoop_misses : ∃ s, Run step { pid := 7 } quitsEarly s ∧ s.owner = .wait ∧
    ¬ ∃ bs t, Run step s bs t ∧ t.owner = .returned ∧ t.result = some true := by
  have hrun : (exec step { pid := 7 } quitsEarly).any
      (fun s => s.owner = .wait ∧ s.child = .destroyLoop) = true := by
    decide +kernel
  obtain ⟨s, hs, hp⟩ := Run.of_exec_any hrun
  obtain ⟨ho, hc⟩ := of_decide_eq_true hp
  refine ⟨s, hs, ho, ?_⟩
  rw [(startLoop_can_return_iff hs (by rw [ho]; rfl)).1]
  exact fun hn => hn.1 hc

/-- No functor and no event handler quits the loop before `startLoop` has read `loop_`. -/
def QuitsLate (s : EventLoopThread F) : Action F → Prop
  | .use (.quit .loop) => s.child = .loop → s.owner.asks = false
  | _ => True

instance (s : EventLoopThread F) (a : Action F) : Decidable (QuitsLate s a) :=
  match a with
  | .use (.quit .loop) => inferInstanceAs (Decidable (_ → _))
  | .use (.quit (.other _)) | .use .loop | .use (.poll _) | .use .handleRead
  | .use (.queueInloop ..) | .use (.advance _) | .owner | .child | .spurious | .destruct =>
    inferInstanceAs (Decidable True)

/-- Before `startLoop` has read `loop_`, nothing makes the loop return. -/
structure Looping (s : EventLoopThread F) : Prop where
  quit : s.owner.asks = true → s.loop.quit_ = true → s.loop.pc.entering = true
  call : s.owner.asks = true → s.child = .loop → s.loop.call .loop ≠ .quitTrue
  pc : s.owner.asks = true → s.loop.pc ≠ .loopingFalse ∧ s.loop.pc ≠ .returned

theorem Step.asks {s t : EventLoopThread F} (h : Step s .owner t) (ht : t.owner.asks = true) :
    s.owner.asks = true ∧ t.loop = s.loop ∧ (t.child = s.child ∨ t.child = .tid) := by
  cases h with
  | start ho => exact ⟨by rw [ho]; rfl, rfl, .inr rfl⟩
  | semWait ho | found ho | sleep ho => exact ⟨by rw [ho]; rfl, rfl, .inl rfl⟩
  | ownerLock ho => exact ⟨by rcases ho with ho | ho <;> rw [ho] <;> rfl, rfl, .inl rfl⟩
  | quitNull | advanceDead => exact ⟨ht, rfl, .inl rfl⟩
  | advance ho =>
    rw [ho] at ht
    cases ht
  | _ => cases ht

theorem Looping.step {s t : EventLoopThread F} (hs : Sound s) (hl : Looping s)
    (hq : QuitsLate s a) (h : s.step a = some t) : Looping t := by
  suffices hn : t.owner.asks = true → (t.loop.quit_ = true → t.loop.pc.entering = true) ∧
      (t.child = .loop → t.loop.call .loop ≠ .quitTrue) ∧
      t.loop.pc ≠ .loopingFalse ∧ t.loop.pc ≠ .returned from
    ⟨fun ho => (hn ho).1, fun ho => (hn ho).2.1, fun ho => (hn ho).2.2⟩
  intro ht
  cases a with
  | owner =>
    obtain ⟨ho, hloop, hchild⟩ := (Step.of_step h).asks ht
    rw [hloop]
    refine ⟨hl.quit ho, ?_, hl.pc ho⟩
    intro hc
    exact hl.call ho (hchild.elim (fun hn => hn ▸ hc) fun hn => nomatch hn.symm.trans hc)
  | child =>
    have hquit := hl.quit
    have hpc := hl.pc
    have hunused := hs.linked.unused
    cases Step.of_step h with
    | publish hc hstep =>
      rw [EventLoop.publish_eq (hs.linked.unpublished (by rw [hc]; decide)) hstep]
      exact ⟨fun _ => rfl, nofun, nofun, nofun⟩
    | childUnlock hc =>
      rw [hc] at hunused
      refine ⟨hquit ht, fun _ => ?_, hpc ht⟩
      rw [hunused (by decide) (by decide)]
      nofun
    | notifyOne =>
      have ho : s.owner.asks = true := by
        by_cases hw : s.owner = .wait
        · rw [hw]
          rfl
        · rwa [if_neg hw] at ht
      exact ⟨hquit ho, nofun, hpc ho⟩
    | tid | semPost | eventLoop | callback | childLock | looped | loopNull | destroyLoop =>
      exact ⟨hquit ht, nofun, hpc ht⟩
  | spurious =>
    cases Step.of_step h with
    | spurious ho =>
      have hasks : s.owner.asks = true := by rw [ho]; rfl
      exact ⟨hl.quit hasks, hl.call hasks, hl.pc hasks⟩
  | use b =>
    cases Step.of_step h with
    | useDead => exact ⟨hl.quit ht, hl.call ht, hl.pc ht⟩
    | use hmay _ hstep =>
      have hthread : b.thread = .loop := by
        cases hb : b.thread with
        | loop => rfl
        | other n =>
          have hzero := hs.handshake.left_eq_zero (mayUse_other hmay hb).1
          exact absurd (Owner.left_pos ht) (by rw [hzero]; exact Nat.lt_irrefl 0)
      have hgo := EventLoop.Step.of_step hstep
      have hcall (hc : s.loop.call .loop = .quitTrue) : s.loop.pc.entering = true := by
        have hchild : s.child = .callback :=
          (mayUse_loop hmay hthread).resolve_right fun hn => hl.call ht hn hc
        rw [hs.linked.unpublished (by rw [hchild]; decide)]
        rfl
      obtain ⟨hquit, hpc⟩ := hgo.stays hthread (hl.quit ht) hcall (hl.pc ht)
      refine ⟨hquit, fun hchild hc => ?_, hpc⟩
      refine hl.call ht hchild (hgo.quits ?_ hc)
      rintro rfl
      cases (hq hchild).symm.trans ht
  | destruct =>
    cases Step.of_step h with
    | destruct => cases ht

theorem Looping.init (pid : Nat) : Looping ({ pid } : EventLoopThread F) :=
  ⟨fun _ _ => rfl, fun _ => nofun, fun _ => ⟨nofun, nofun⟩⟩

theorem Looping.uncleared {s : EventLoopThread F} (hs : Sound s) (hl : Looping s)
    (ho : s.owner.asks = true) : s.child.stage ≤ 9 := by
  by_contra hc
  exact (hl.pc ho).2 (hs.linked.returned (by omega))

structure Prompt (s : EventLoopThread F) : Prop where
  sound : Sound s
  looping : Looping s
  found : s.result ≠ some false

theorem Prompt.step {s t : EventLoopThread F} (hp : Prompt s) (hq : QuitsLate s a)
    (h : s.step a = some t) : Prompt t := by
  refine ⟨hp.sound.step h, hp.looping.step hp.sound hq h, ?_⟩
  cases Step.of_step h with
  | loopRead ho =>
    have hknows := hp.sound.handshake.knows
    rw [ho] at hknows
    have hc := hp.looping.uncleared hp.sound (by rw [ho]; rfl)
    rw [hp.sound.handshake.loop_.trans
      (decide_eq_true ⟨Nat.le_trans (by decide) hknows, Nat.le_succ_of_le hc⟩)]
    nofun
  | _ => exact hp.found

theorem Prompt.advances {s : EventLoopThread F} (hp : Prompt s) (ho : 0 < s.owner.left) :
    ∃ a t, Action.inward a = true ∧ s.step a = some t := by
  by_cases hasks : s.owner.asks = true
  · have hc := hp.looping.uncleared hp.sound hasks
    obtain ⟨a, t, ha, hstep, -⟩ := hp.sound.advances ho (Nat.le_succ_of_le hc)
    exact ⟨a, t, ha, hstep⟩
  · have hf : s.fault = false := by
      refine Bool.eq_false_iff.2 fun hf => ?_
      rw [hp.sound.unfaulted hf] at ho
      cases ho
    cases howner : s.owner with
    | unlock =>
      refine ⟨.owner, { s with mutex_ := none, owner := .returned }, rfl, ?_⟩
      rw [step_owner hf, ownerNext, howner]
    | start | semWait | lock | wait | relock | whileLoop | loopRead =>
      exact (hasks (by rw [howner]; rfl)).elim
    | _ =>
      rw [howner] at ho
      cases ho

theorem left_le {s : EventLoopThread F} : s.left ≤ 50 := by
  have howner : s.owner.left ≤ 9 := by cases s.owner <;> decide
  have hcall := (s.loop.call .loop).left_le
  simp only [left]
  omega

theorem Sound.left_le_add {s t : EventLoopThread F} (hs : Sound s) (ha : a ≠ .owner)
    (h : Step s a t) : t.left ≤ s.left + 5 := by
  have hchild (h : Step s .child t) : t.left ≤ s.left + 5 := by
    obtain ⟨-, hstage⟩ := h.child_stage
    obtain ⟨howner, hcall⟩ := h.child_left hs
    simp only [left, hcall]
    omega
  cases h with
  | spurious ho =>
    simp only [left, ho, Owner.left]
    omega
  | @use b l =>
    have hcall := (l.call .loop).left_le
    simp only [left]
    omega
  | useDead => exact Nat.le_add_right _ 5
  | destruct ho =>
    simp only [left, show Owner.exitingTrue.left = 0 from rfl]
    omega
  | tid hc => exact hchild (.tid hc)
  | semPost hc => exact hchild (.semPost hc)
  | eventLoop hc => exact hchild (.eventLoop hc)
  | callback hc hcall => exact hchild (.callback hc hcall)
  | childLock hc hm => exact hchild (.childLock hc hm)
  | publish hc hstep => exact hchild (.publish hc hstep)
  | notifyOne hc => exact hchild (.notifyOne hc)
  | childUnlock hc => exact hchild (.childUnlock hc)
  | looped hc hpc => exact hchild (.looped hc hpc)
  | loopNull hc => exact hchild (.loopNull hc)
  | destroyLoop hc => exact hchild (.destroyLoop hc)
  | _ => exact (ha rfl).elim

end EventLoopThread
end MuduoStudy
