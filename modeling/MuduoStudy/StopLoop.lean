import MuduoStudy.StartLoop

namespace MuduoStudy.EventLoopThread
open Transition
set_option autoImplicit true

/-- What has become of the `std::thread` while the destructor runs. -/
structure Ending (s : EventLoopThread F) : Prop where
  before : s.owner ≠ .join → s.owner ≠ .ifDetach → s.owner ≠ .destroyed →
    s.joined_ = false ∧ s.joinable = s.started_
  join : s.owner = .join → s.joined_ = true
  detach : s.owner = .ifDetach → s.joined_ = true ∧ s.joinable = false ∧ s.child = .ended ∨
    s.joined_ = false ∧ s.joinable = s.started_
  destroyed : s.owner = .destroyed → s.joinable = false ∧ (s.joined_ = true → s.child = .ended)

theorem Ending.init (pid : Nat) : Ending ({ pid } : EventLoopThread F) :=
  ⟨fun _ _ _ => ⟨rfl, rfl⟩, nofun, nofun, nofun⟩

theorem Ending.moves {s t : EventLoopThread F} (he : Ending s)
    (ho : s.owner ≠ .join ∧ s.owner ≠ .ifDetach ∧ s.owner ≠ .destroyed)
    (ht : t.owner ≠ .join ∧ t.owner ≠ .ifDetach ∧ t.owner ≠ .destroyed)
    (hsame : t.joined_ = s.joined_ ∧ t.joinable = s.joinable ∧ t.started_ = s.started_) :
    Ending t := by
  obtain ⟨hjoined, hjoinable⟩ := he.before ho.1 ho.2.1 ho.2.2
  refine ⟨fun _ _ _ => ?_, fun h => (ht.1 h).elim, fun h => (ht.2.1 h).elim,
    fun h => (ht.2.2 h).elim⟩
  rw [hsame.1, hsame.2.1, hsame.2.2]
  exact ⟨hjoined, hjoinable⟩

theorem Ending.childMoves {s t : EventLoopThread F} (he : Ending s) (hc : s.child ≠ .ended)
    (ho : t.owner = s.owner ∨ s.owner = .wait ∧ t.owner = .relock)
    (hsame : t.joined_ = s.joined_ ∧ t.joinable = s.joinable ∧ t.started_ = s.started_) :
    Ending t := by
  rcases ho with ho | ⟨hwait, hrelock⟩
  · refine ⟨?_, ?_, ?_, ?_⟩
    · rw [ho, hsame.1, hsame.2.1, hsame.2.2]
      exact he.before
    · rw [ho, hsame.1]
      exact he.join
    · rw [ho, hsame.1, hsame.2.1, hsame.2.2]
      intro hd
      exact .inr ((he.detach hd).resolve_left fun hn => hc hn.2.2)
    · rw [ho, hsame.1, hsame.2.1]
      intro hd
      exact ⟨(he.destroyed hd).1, fun hj => (hc ((he.destroyed hd).2 hj)).elim⟩
  · refine he.moves ?_ ?_ hsame
    · rw [hwait]
      exact ⟨nofun, nofun, nofun⟩
    · rw [hrelock]
      exact ⟨nofun, nofun, nofun⟩

theorem Ending.step {s t : EventLoopThread F} (he : Ending s) (h : Step s a t) : Ending t := by
  have hbefore := he.before
  cases h with
  | start ho =>
    rw [ho] at hbefore
    exact ⟨fun _ _ _ => ⟨(hbefore nofun nofun nofun).1, rfl⟩, nofun, nofun, nofun⟩
  | semWait ho | found ho | sleep ho | loopRead ho | ownerUnlock ho | exitingTrue ho
  | ifLoop ho | quit ho | quitDead ho | quitDone ho | spurious ho =>
    refine he.moves ?_ ⟨nofun, nofun, nofun⟩ ⟨rfl, rfl, rfl⟩
    rw [ho]
    exact ⟨nofun, nofun, nofun⟩
  | ownerLock ho =>
    refine he.moves ?_ ⟨nofun, nofun, nofun⟩ ⟨rfl, rfl, rfl⟩
    rcases ho with ho | ho <;> rw [ho] <;> exact ⟨nofun, nofun, nofun⟩
  | destruct ho =>
    refine he.moves ?_ ⟨nofun, nofun, nofun⟩ ⟨rfl, rfl, rfl⟩
    rcases ho with ho | ⟨ho, -⟩ <;> rw [ho] <;> exact ⟨nofun, nofun, nofun⟩
  | ifNull ho =>
    rw [ho] at hbefore
    exact ⟨fun _ hn => (hn rfl).elim, nofun, fun _ => .inr (hbefore nofun nofun nofun), nofun⟩
  | joinedTrue ho => exact ⟨fun hn => (hn rfl).elim, fun _ => rfl, nofun, nofun⟩
  | join ho hc =>
    exact ⟨fun _ hn => (hn rfl).elim, nofun, fun _ => .inl ⟨he.join ho, rfl, hc⟩, nofun⟩
  | ifDetach ho =>
    refine ⟨fun _ _ hn => (hn rfl).elim, nofun, nofun, fun _ => ?_⟩
    rcases he.detach ho with ⟨hjoined, hjoinable, hc⟩ | ⟨hjoined, hjoinable⟩
    · exact ⟨by rw [hjoinable]; rfl, fun _ => hc⟩
    · refine ⟨?_, fun hn => (Bool.false_ne_true (hjoined.symm.trans hn)).elim⟩
      rw [hjoinable, hjoined]
      cases s.started_ <;> rfl
  | notifyOne hc =>
    refine he.childMoves (by rw [hc]; nofun) ?_ ⟨rfl, rfl, rfl⟩
    split
    · rename_i hw
      exact .inr ⟨hw, rfl⟩
    · exact .inl rfl
  | quitNull | advance | advanceDead | use | useDead => exact { he with }
  | tid hc | semPost hc | eventLoop hc | callback hc | childLock hc | publish hc
  | childUnlock hc | looped hc | loopNull hc | destroyLoop hc =>
    exact he.childMoves (by rw [hc]; nofun) (.inl rfl) ⟨rfl, rfl, rfl⟩

/-- When the object is gone, its thread was joined or detached, and the new thread, if there was
one, has left `threadFunc` with all that it does to the object behind it. -/
theorem destroyed_unused {pid : Nat} {s : EventLoopThread F} (h : Run step { pid } as s)
    (hd : s.owner = .destroyed) : s.joinable = false ∧ (s.joined_ = true → s.child = .ended) ∧
      (s.started_ = true → s.child = .destroyLoop ∨ s.child = .ended) := by
  obtain ⟨hs, he⟩ := h.invariant (P := fun s => Sound s ∧ Ending s) ⟨.init pid, .init pid⟩
    fun _ _ _ hu hstep => ⟨hu.1.step hstep, hu.2.step (Step.of_step hstep)⟩
  refine ⟨(he.destroyed hd).1, (he.destroyed hd).2, ?_⟩
  intro hstarted
  have hknows := hs.handshake.knows
  have hborn := hs.handshake.born
  rw [hd] at hknows
  rw [hstarted] at hborn
  have hstage : 11 ≤ s.child.stage := hknows.resolve_left (of_decide_eq_true hborn.symm)
  cases hc : s.child with
  | destroyLoop => exact .inl rfl
  | ended => exact .inr rfl
  | _ =>
    rw [hc] at hstage
    exact le_elim hstage rfl

/-- The destructor quits the loop and joins the thread. -/
def joins : List (Action Nat) :=
  [.owner, .child, .child, .owner, .child, .child, .child, .child, .child, .child,
    .owner, .owner, .owner, .owner, .use .loop, .use .loop, .destruct, .owner, .owner, .owner,
    .owner, .owner, .owner, .owner, .owner, .use .loop, .use .loop, .child, .child, .child,
    .owner, .owner]

theorem destroyed_unused_example : ∃ s, Run step { pid := 7 } joins s ∧ s.owner = .destroyed ∧
    s.joinable = false ∧ s.child = .ended := by
  have hrun : (exec step { pid := 7 } joins).any
      (fun s => s.owner = .destroyed ∧ s.joined_ = true) = true := by
    decide +kernel
  obtain ⟨s, hs, hp⟩ := Run.of_exec_any hrun
  obtain ⟨hd, hjoined⟩ := of_decide_eq_true hp
  obtain ⟨hjoinable, hended, -⟩ := destroyed_unused hs hd
  exact ⟨s, hs, hd, hjoinable, hended hjoined⟩

/-- The new thread does not set `loop_` to null between the destructor's test of it and the read of
it for `loop_->quit()`, and does not destroy the loop before that `quit()` has ended. -/
def Undisturbed (s : EventLoopThread F) : Action F → Prop
  | .child => (s.child = .loopNull → s.owner ≠ .loopQuit) ∧
    (s.child = .destroyLoop → s.owner = .quitting → (s.loop.call (.other 0)).isIdle = true)
  | _ => True

instance (s : EventLoopThread F) (a : Action F) : Decidable (Undisturbed s a) :=
  match a with
  | .child => inferInstanceAs (Decidable (_ ∧ _))
  | .use _ | .owner | .spurious | .destruct => inferInstanceAs (Decidable True)

/-- Nobody but the destructor uses the loop after its destruction. -/
def UsesAlive (s : EventLoopThread F) : Action F → Prop
  | .use _ => s.child.alive = true
  | _ => True

instance (s : EventLoopThread F) (a : Action F) : Decidable (UsesAlive s a) :=
  match a with
  | .use _ => inferInstanceAs (Decidable (_ = _))
  | .child | .owner | .spurious | .destruct => inferInstanceAs (Decidable True)

/-- While the destructor needs the loop, it is there. -/
structure Kept (s : EventLoopThread F) : Prop where
  unfaulted : s.fault = false
  loop_ : s.owner = .loopQuit → s.loop_ = true
  alive : s.owner = .quitting → s.loop.call (.other 0) ≠ .idle → s.child.alive = true

/-- The loop has gone while the destructor still needs it. -/
inductive Doomed (s : EventLoopThread F) : Prop where
  | fault : s.fault = true → Doomed s
  | loop_ : s.owner = .loopQuit → s.loop_ = false → Doomed s
  | dead : s.owner = .quitting → s.loop.call (.other 0) ≠ .idle → s.child.alive = false → Doomed s

theorem Handshake.alive {s : EventLoopThread F} (hs : Handshake s) (hl : s.loop_ = true) :
    s.child.alive = true := by
  have hstage := of_decide_eq_true (hs.loop_.symm.trans hl)
  exact decide_eq_true (by omega)

theorem Kept.step {s t : EventLoopThread F} (hs : Handshake s) (hk : Kept s)
    (hu : UsesAlive s a) (hd : Undisturbed s a) (h : Step s a t) : Kept t := by
  have early {P : Prop} (hc : s.child.stage ≤ 8) (ho : s.owner = .quitting) : P := by
    have hknows := hs.knows
    rw [ho] at hknows
    exact (Nat.not_le_of_gt (Nat.lt_succ_of_le hc) hknows).elim
  cases h with
  | start | semWait | ownerLock | found | sleep | loopRead | ownerUnlock | exitingTrue | ifNull
  | quitDone | joinedTrue | join | ifDetach | spurious | destruct =>
    exact ⟨hk.unfaulted, nofun, nofun⟩
  | ifLoop _ hl => exact ⟨hk.unfaulted, fun _ => hl, nofun⟩
  | quit _ hl => exact ⟨hk.unfaulted, nofun, fun _ _ => hs.alive hl⟩
  | quitNull ho hl => cases (hk.loop_ ho).symm.trans hl
  | quitDead _ hl hdead => cases (hs.alive hl).symm.trans hdead
  | advance ho halive => exact ⟨hk.unfaulted, hk.loop_, fun _ _ => halive⟩
  | advanceDead ho hc hdead => cases (hk.alive ho hc).symm.trans hdead
  | tid hc | semPost hc | eventLoop hc | callback hc | childLock hc | childUnlock hc =>
    exact ⟨hk.unfaulted, hk.loop_, fun ho _ => early (by rw [hc]; decide) ho⟩
  | publish hc =>
    exact ⟨hk.unfaulted, fun _ => rfl, fun ho _ => early (by rw [hc]; decide) ho⟩
  | notifyOne hc =>
    by_cases hw : s.owner = .wait
    · simp only [hw, ↓reduceIte]
      exact ⟨hk.unfaulted, nofun, nofun⟩
    · simp only [hw, ↓reduceIte]
      exact ⟨hk.unfaulted, hk.loop_, fun ho _ => early (by rw [hc]; decide) ho⟩
  | looped => exact ⟨hk.unfaulted, hk.loop_, fun _ _ => rfl⟩
  | loopNull hc => exact ⟨hk.unfaulted, fun ho => (hd.1 hc ho).elim, fun _ _ => rfl⟩
  | destroyLoop hc =>
    refine ⟨hk.unfaulted, hk.loop_, fun ho hcall => ?_⟩
    exact (hcall (EventLoop.Call.isIdle_iff.1 (hd.2 hc ho))).elim
  | use hmay halive => exact ⟨hk.unfaulted, hk.loop_, fun _ _ => halive⟩
  | useDead hmay hdead => cases hu.symm.trans hdead

theorem Doomed.of_disturbed {s t : EventLoopThread F} (hd : ¬ Undisturbed s a) (h : Step s a t) :
    Doomed t := by
  cases a with
  | owner | spurious | use | destruct => exact (hd trivial).elim
  | child =>
    simp only [Undisturbed, not_and_or, Classical.not_imp, not_not] at hd
    cases h with
    | loopNull hc =>
      rcases hd with ⟨-, ho⟩ | ⟨hc', -⟩
      · exact .loop_ ho rfl
      · cases hc.symm.trans hc'
    | destroyLoop hc =>
      rcases hd with ⟨hc', -⟩ | ⟨-, ho, hcall⟩
      · cases hc.symm.trans hc'
      · exact .dead ho (fun hn => hcall (EventLoop.Call.isIdle_iff.2 hn)) rfl
    | tid hc | semPost hc | eventLoop hc | callback hc | childLock hc | publish hc | notifyOne hc
    | childUnlock hc | looped hc =>
      rcases hd with ⟨hc', -⟩ | ⟨hc', -⟩ <;> cases hc.symm.trans hc'

theorem Doomed.step {s t : EventLoopThread F} (hs : Handshake s) (hd : Doomed s)
    (h : s.step a = some t) : Doomed t := by
  have hknows := hs.knows
  cases hd with
  | fault hf =>
    simp only [EventLoopThread.step, hf, ↓reduceIte] at h
    cases h
  | loop_ ho hl =>
    rw [ho] at hknows
    cases Step.of_step h with
    | quitNull => exact .fault rfl
    | useDead => exact .fault rfl
    | quit _ hl' | quitDead _ hl' => cases hl.symm.trans hl'
    | publish hc =>
      rw [hc] at hknows
      exact le_elim (show 9 ≤ _ from hknows) rfl
    | loopNull => exact .loop_ ho rfl
    | notifyOne hc =>
      rw [hc] at hknows
      exact le_elim (show 9 ≤ _ from hknows) rfl
    | ownerLock ho' => rcases ho' with ho' | ho' <;> cases ho.symm.trans ho'
    | destruct ho' => rcases ho' with ho' | ⟨ho', -⟩ <;> cases ho.symm.trans ho'
    | start ho' | semWait ho' | found ho' | sleep ho' | loopRead ho' | ownerUnlock ho'
    | exitingTrue ho' | ifLoop ho' | ifNull ho' | advance ho' | advanceDead ho' | quitDone ho'
    | joinedTrue ho' | join ho' | ifDetach ho' | spurious ho' => cases ho.symm.trans ho'
    | tid | semPost | eventLoop | callback | childLock | childUnlock | looped | destroyLoop | use =>
      exact .loop_ ho hl
  | dead ho hcall hdead =>
    rw [ho] at hknows
    have hended : s.child.stage = 12 := by
      have hstage := of_decide_eq_false hdead
      have hle := s.child.stage_le
      have hnine : 9 ≤ s.child.stage := hknows
      omega
    cases a with
    | owner =>
      cases Step.of_step h with
      | advanceDead => exact .fault rfl
      | advance _ halive => cases halive.symm.trans hdead
      | quitDone _ hidle => exact (hcall hidle).elim
      | ownerLock ho' => rcases ho' with ho' | ho' <;> cases ho.symm.trans ho'
      | start ho' | semWait ho' | found ho' | sleep ho' | loopRead ho' | ownerUnlock ho'
      | exitingTrue ho' | ifLoop ho' | ifNull ho' | quit ho' | quitNull ho' | quitDead ho'
      | joinedTrue ho' | join ho' | ifDetach ho' => cases ho.symm.trans ho'
    | child =>
      have hnext := (Step.of_step h).child_stage.2
      have hle := t.child.stage_le
      omega
    | use =>
      cases Step.of_step h with
      | use _ halive => cases halive.symm.trans hdead
      | useDead => exact .fault rfl
    | spurious =>
      cases Step.of_step h with
      | spurious ho' => cases ho.symm.trans ho'
    | destruct =>
      cases Step.of_step h with
      | destruct ho' => rcases ho' with ho' | ⟨ho', -⟩ <;> cases ho.symm.trans ho'

/-- The destructor uses neither a null pointer nor a destroyed loop if and only if the new thread
neither clears `loop_` between the two reads nor destroys the loop during `quit()`. -/
theorem destructor_safe_iff {pid : Nat} {s : EventLoopThread F} (h : Run step { pid } as s)
    (hu : AllSteps step UsesAlive { pid } as) (hd : s.owner = .destroyed ∨ s.fault = true) :
    s.fault = false ↔ AllSteps step Undisturbed { pid } as := by
  constructor
  · intro hf
    by_contra hn
    have hdoomed : Doomed s := h.doomed (I := Handshake) hn (.init pid)
      (fun _ _ _ hs hstep => hs.step (Step.of_step hstep))
      (fun _ _ _ _ hbreak hstep => Doomed.of_disturbed hbreak (Step.of_step hstep))
      (fun _ _ _ hs hdoom hstep => hdoom.step hs hstep)
    cases hdoomed with
    | fault hfault => cases hf.symm.trans hfault
    | loop_ ho | dead ho =>
      rcases hd with hd | hd
      · cases ho.symm.trans hd
      · cases hf.symm.trans hd
  · intro hc
    have hinit : Kept ({ pid } : EventLoopThread F) := ⟨rfl, nofun, nofun⟩
    have hend := h.invariant_when (P := fun s => Handshake s ∧ Kept s) (hu.and hc)
      ⟨.init pid, hinit⟩ fun _ _ _ hs hC hstep =>
        ⟨hs.1.step (Step.of_step hstep), hs.2.step hs.1 hC.1 hC.2 (Step.of_step hstep)⟩
    exact hend.2.unfaulted

/-- `startLoop` returns the loop and the destructor begins at once. Its `quit` sets `quit_`, and
the loop returns and is destroyed before the `wakeup` that follows. -/
def quitRace : List (Action Nat) :=
  [.owner, .child, .child, .owner, .child, .child, .child, .child, .child, .child,
    .owner, .owner, .owner, .owner, .use .loop, .use .loop, .destruct, .owner, .owner, .owner,
    .owner, .use .loop, .use .loop, .child, .child, .child, .owner]

theorem destructor_faults : ∃ s, Run step { pid := 7 } quitRace s ∧ s.fault = true ∧
    ¬ AllSteps step Undisturbed { pid := 7 } quitRace := by
  have hrun : (exec step { pid := 7 } quitRace).any (fun s => s.fault) = true := by
    decide +kernel
  obtain ⟨s, hs, hfault⟩ := Run.of_exec_any hrun
  refine ⟨s, hs, hfault, ?_⟩
  rw [← destructor_safe_iff hs (by decide +kernel) (.inr hfault), hfault]
  nofun

end MuduoStudy.EventLoopThread
