import MuduoStudy.EventLoop

namespace MuduoStudy.EventLoop
open Transition
set_option autoImplicit true

/-- The statements of `queueInloop` between taking and releasing `mutex_`. -/
def Call.holdsMutex : Call F → Bool
  | .emplaceBack _ | .ifWakeup _ | .wakeup _ | .unlock _ => true
  | _ => false

/-- `mutex_` is held by whoever stands in a critical section, and the loop's thread is in a call
only while it runs user code. -/
structure Exclusive (s : EventLoop F) : Prop where
  call : ∀ t, (s.call t).holdsMutex = true → s.mutex_ = some t
  swap : s.pc = .swap ∨ s.pc = .unlock → s.mutex_ = some .loop
  idle : s.call .loop ≠ .idle → s.mayCall .loop = true

theorem idle_of_loop {s s' : EventLoop F} (h : s.step .loop = some s') : s.call .loop = .idle := by
  simp only [step, Option.ite_none_right_eq_some] at h
  exact Call.isIdle_iff.1 h.1

theorem idle_of_handleRead {s s' : EventLoop F} (h : s.step .handleRead = some s') :
    s.call .loop = .idle := by
  simp only [step, Option.ite_none_right_eq_some] at h
  exact Call.isIdle_iff.1 h.1.2

theorem Exclusive.idle_of_pc {s : EventLoop F} (hi : Exclusive s)
    (hpc : s.mayCall .loop = false) : s.call .loop = .idle := by
  by_contra hc
  exact Bool.false_ne_true (hpc.symm.trans (hi.idle hc))

theorem Exclusive.moves {s s' : EventLoop F} (hi : Exclusive s) (hc : s.call .loop = .idle)
    (hcall : s'.call = s.call) (hm : s'.mutex_ = s.mutex_) (hs : s'.pc ≠ .swap)
    (hu : s'.pc ≠ .unlock) : Exclusive s' := by
  refine ⟨?_, fun hp => (hp.elim hs hu).elim, ?_⟩
  · intro t ht
    rw [hcall] at ht
    exact hm.trans (hi.call t ht)
  · intro hn
    rw [hcall] at hn
    exact (hn hc).elim

theorem Exclusive.calls {s s' : EventLoop F} (hi : Exclusive s)
    (hcall : s'.call = Function.update s.call t c) (hm : s'.mutex_ = s.mutex_)
    (hpc : s'.pc = s.pc) (hc : c.holdsMutex = true → s.mutex_ = some t)
    (hl : c ≠ .idle → s.call t ≠ .idle ∨ s.mayCall t = true) : Exclusive s' := by
  refine ⟨?_, ?_, ?_⟩
  · intro u hu
    rw [hcall] at hu
    rw [hm]
    by_cases htu : u = t
    · subst u
      rw [Function.update_self] at hu
      exact hc hu
    · rw [Function.update_of_ne htu] at hu
      exact hi.call u hu
  · intro hp
    rw [hpc] at hp
    exact hm.trans (hi.swap hp)
  · intro hn
    have hmay : s'.mayCall .loop = s.mayCall .loop := by simp only [mayCall, hpc]
    rw [hcall] at hn
    rw [hmay]
    by_cases htl : t = .loop
    · subst t
      rw [Function.update_self] at hn
      exact (hl hn).elim hi.idle id
    · rw [Function.update_of_ne (Ne.symm htl)] at hn
      exact hi.idle hn

theorem Exclusive.init : Exclusive ({} : EventLoop F) := by
  refine ⟨?_, ?_, fun hn => (hn rfl).elim⟩
  · intro t ht
    cases ht
  · intro hp
    rcases hp with hp | hp <;> cases hp

theorem Exclusive.free {s : EventLoop F} (hi : Exclusive s) (hm : s.mutex_ = none) (t : Thread) :
    (s.call t).holdsMutex = false := by
  cases hh : (s.call t).holdsMutex with
  | false => rfl
  | true => cases hm.symm.trans (hi.call t hh)

theorem Exclusive.acquire {s s' : EventLoop F} (hi : Exclusive s) (hm : s.mutex_ = none)
    (hc : s.call t = .lock cb) (hcall : s'.call = Function.update s.call t (.emplaceBack cb))
    (hm' : s'.mutex_ = some t) (hpc : s'.pc = s.pc) : Exclusive s' := by
  refine ⟨?_, ?_, ?_⟩
  · intro u hu
    rw [hcall] at hu
    by_cases htu : u = t
    · exact htu ▸ hm'
    · rw [Function.update_of_ne htu] at hu
      exact (Bool.false_ne_true ((hi.free hm u).symm.trans hu)).elim
  · intro hp
    rw [hpc] at hp
    cases hm.symm.trans (hi.swap hp)
  · intro hn
    have hmay : s'.mayCall .loop = s.mayCall .loop := by simp only [mayCall, hpc]
    rw [hmay]
    apply hi.idle
    intro hidle
    by_cases htl : t = .loop
    · subst t
      cases hc.symm.trans hidle
    · rw [hcall, Function.update_of_ne (Ne.symm htl)] at hn
      exact hn hidle

theorem Exclusive.release {s s' : EventLoop F} (hi : Exclusive s) (hc : s.call t = .unlock k)
    (hcall : s'.call = Function.update s.call t .idle) (hpc : s'.pc = s.pc) : Exclusive s' := by
  have hm := hi.call t (by rw [hc]; rfl)
  refine ⟨?_, ?_, ?_⟩
  · intro u hu
    rw [hcall] at hu
    by_cases htu : u = t
    · subst u
      rw [Function.update_self] at hu
      cases hu
    · rw [Function.update_of_ne htu] at hu
      cases hm.symm.trans (hi.call u hu)
      exact (htu rfl).elim
  · intro hp
    rw [hpc] at hp
    cases hm.symm.trans (hi.swap hp)
    have hidle : s.mayCall .loop = false := by rcases hp with hp | hp <;> simp [mayCall, hp]
    cases hc.symm.trans (hi.idle_of_pc hidle)
  · intro hn
    have hmay : s'.mayCall .loop = s.mayCall .loop := by simp only [mayCall, hpc]
    rw [hmay]
    apply hi.idle
    intro hidle
    by_cases htl : t = .loop
    · subst t
      cases hc.symm.trans hidle
    · rw [hcall, Function.update_of_ne (Ne.symm htl)] at hn
      exact hn hidle

theorem Exclusive.step {s s' : EventLoop F} (hi : Exclusive s) (h : s.step a = some s') :
    Exclusive s' := by
  cases Step.of_step h with
  | publish | loopingTrue | quitFalse | leave | iterate | handled | callingTrue | endFunctors
  | callFunctor | functorReturns | callingFalse | loopingFalse =>
    exact hi.moves (idle_of_loop h) rfl rfl (by simp) (by simp)
  | handleRead => exact hi.moves (idle_of_handleRead h) rfl rfl (by simp) (by simp)
  | poll hpc =>
    exact hi.moves (hi.idle_of_pc (by simp [mayCall, hpc])) rfl rfl (by simp) (by simp)
  | lockSwap hpc hm =>
    have hidle := idle_of_loop h
    refine ⟨?_, fun _ => rfl, fun hn => (hn hidle).elim⟩
    intro t ht
    exact (Bool.false_ne_true ((hi.free hm t).symm.trans ht)).elim
  | swap hpc =>
    have hidle := idle_of_loop h
    exact ⟨hi.call, fun _ => hi.swap (.inl hpc), fun hn => (hn hidle).elim⟩
  | unlockSwap hpc =>
    have hm := hi.swap (.inr hpc)
    have hidle := idle_of_loop h
    refine ⟨?_, fun hp => by simp at hp, fun hn => (hn hidle).elim⟩
    intro t ht
    cases hm.symm.trans (hi.call t ht)
    simp only [hidle, Call.holdsMutex, Bool.false_eq_true] at ht
  | queueInloop hc hmay => exact hi.calls rfl rfl rfl (by simp [Call.holdsMutex]) fun _ => .inr hmay
  | quit hc hmay => exact hi.calls rfl rfl rfl (by simp [Call.holdsMutex]) fun _ => .inr hmay
  | lock hc hm => exact hi.acquire hm hc rfl rfl rfl
  | emplaceBack hc | ifWakeup hc | wakeup hc =>
    exact hi.calls rfl rfl rfl (fun _ => hi.call _ (by rw [hc]; rfl)) fun _ => .inl (by simp [hc])
  | unlock hc => exact hi.release hc rfl rfl
  | quitTrue hc | quitInLoop hc | ifQuitWakeup hc | quitWakeup hc =>
    exact hi.calls rfl rfl rfl (by simp [Call.holdsMutex]) fun _ => .inl (by simp [hc])

/-- The batch queue that `queueInloop` and `doPendingFunctors` implement. -/
def queue (s : EventLoop F) : BatchQueue F where
  popped := s.executed
  batch := s.functors
  pending := s.pendingFunctors_
  pushed := s.queued

def Call.adding : Call F → List F
  | .emplaceBack cb => [cb]
  | _ => []

/-- The functor whose `queueInloop` call holds `mutex_` and has not appended it yet. -/
def pushing (s : EventLoop F) : List F :=
  match s.mutex_ with
  | some t => (s.call t).adding
  | none => []

/-- The loop's thread is between its swap and the end of the `for` over `functors`. -/
def Pc.inBatch : Pc → Bool
  | .unlock | .forFunctors | .functor => true
  | _ => false

structure Queued (s : EventLoop F) : Prop where
  fifo : s.queue.Fifo
  pushing : s.locked = s.queued ++ s.pushing
  batch : s.pc.inBatch = false → s.functors = []
  fresh : s.pc = .unlock → s.pendingFunctors_ = []

theorem queue_pop {s : EventLoop F} (hf : s.functors = cb :: rest) : s.queue.pop = some
    (cb, { s with functors := rest, executed := s.executed ++ [cb], pc := .functor }.queue) := by
  simp only [BatchQueue.pop, queue, hf]

/-- Every step of the loop's threads is a move of the batch queue or leaves it alone. -/
theorem move {s s' : EventLoop F} (hb : s.pc.inBatch = false → s.functors = [])
    (h : s.step a = some s') : BatchQueue.Move s.queue s'.queue := by
  cases Step.of_step h with
  | swap hpc => exact .swap s.queue (hb (by rw [hpc]; rfl))
  | callFunctor hpc hf => exact .pop (queue_pop hf)
  | callingTrue hpc =>
    have hf := hb (by rw [hpc]; rfl)
    have he : ({ s with functors := [], callingPendingFunctors_ := true, pc := .lock } :
        EventLoop F).queue = s.queue := by simp only [queue, hf]
    exact he ▸ .stay s.queue
  | emplaceBack hc => exact .push s.queue _
  | publish | loopingTrue | quitFalse | leave | iterate | handled | lockSwap | unlockSwap
  | endFunctors | functorReturns | callingFalse | loopingFalse | poll | handleRead | queueInloop
  | quit | lock | ifWakeup | wakeup | unlock | quitTrue | quitInLoop | ifQuitWakeup
  | quitWakeup => exact .stay s.queue

theorem pushing_calls {s s' : EventLoop F} (hp : s.locked = s.queued ++ s.pushing)
    (hk : s.call t = k) (hcall : s'.call = Function.update s.call t c)
    (hc : c.adding = k.adding) (hl : s'.locked = s.locked) (hq : s'.queued = s.queued)
    (hm : s'.mutex_ = s.mutex_) : s'.locked = s'.queued ++ s'.pushing := by
  have hpushing : s'.pushing = s.pushing := by
    simp only [EventLoop.pushing, hm, hcall]
    cases s.mutex_ with
    | none => rfl
    | some u =>
      by_cases htu : u = t
      · subst u
        simp only [Function.update_self, hk, hc]
      · simp only [Function.update_of_ne htu]
  rw [hl, hq, hp, hpushing]

theorem Queued.pushing_step {s s' : EventLoop F} (hi : Exclusive s) (hq : Queued s)
    (h : s.step a = some s') : s'.locked = s'.queued ++ s'.pushing := by
  have hp := hq.pushing
  cases Step.of_step h with
  | publish | loopingTrue | quitFalse | leave | iterate | handled | callingTrue | swap
  | endFunctors | callFunctor | functorReturns | callingFalse | loopingFalse | poll
  | handleRead => exact hp
  | lockSwap hpc hm =>
    simp only [EventLoop.pushing, hm] at hp
    simpa only [EventLoop.pushing, idle_of_loop h, Call.adding] using hp
  | unlockSwap hpc =>
    simp only [EventLoop.pushing, hi.swap (.inr hpc), idle_of_loop h, Call.adding] at hp
    simpa only [EventLoop.pushing] using hp
  | lock hc hm =>
    simp only [EventLoop.pushing, hm, List.append_nil] at hp
    simp only [EventLoop.pushing, setCall, Function.update_self, Call.adding, hp]
  | emplaceBack hc =>
    have hm := hi.call _ (by rw [hc]; rfl)
    simp only [EventLoop.pushing, hm, hc, Call.adding] at hp
    simp only [EventLoop.pushing, hm, setCall, Function.update_self, Call.adding, hp,
      List.append_nil]
  | unlock hc =>
    have hm := hi.call _ (by rw [hc]; rfl)
    simp only [EventLoop.pushing, hm, hc, Call.adding, List.append_nil] at hp
    exact hp.trans (List.append_nil _).symm
  | ifWakeup hc hk =>
    rcases hk with rfl | rfl
    · exact pushing_calls hp hc rfl rfl rfl rfl rfl
    · exact pushing_calls hp hc rfl rfl rfl rfl rfl
  | queueInloop hc | quit hc | wakeup hc | quitTrue hc | quitInLoop hc | ifQuitWakeup hc
  | quitWakeup hc => exact pushing_calls hp hc rfl rfl rfl rfl rfl

theorem Queued.step {s s' : EventLoop F} (hi : Exclusive s) (hq : Queued s)
    (h : s.step a = some s') : Queued s' := by
  refine ⟨(move hq.batch h).fifo hq.fifo, hq.pushing_step hi h, ?_, ?_⟩
  · cases Step.of_step h with
    | callingTrue =>
      intro _
      rfl
    | swap | unlockSwap | callFunctor | functorReturns =>
      intro hn
      cases hn
    | endFunctors _ hf =>
      intro _
      exact hf
    | publish hpc | loopingTrue hpc | quitFalse hpc | leave hpc | iterate hpc | handled hpc
    | lockSwap hpc | callingFalse hpc | loopingFalse hpc | poll hpc | handleRead hpc =>
      intro _
      exact hq.batch (by rw [hpc]; rfl)
    | queueInloop | quit | lock | emplaceBack | ifWakeup | wakeup | unlock | quitTrue
    | quitInLoop | ifQuitWakeup | quitWakeup => exact hq.batch
  · cases Step.of_step h with
    | swap hpc =>
      intro _
      exact hq.batch (by rw [hpc]; rfl)
    | emplaceBack hc =>
      intro hpc
      have hm := hi.call _ (by rw [hc]; rfl)
      cases hm.symm.trans (hi.swap (.inr hpc))
      have hidle := hi.idle (by simp [hc])
      have hpc' : s.pc = .unlock := hpc
      simp [mayCall, hpc'] at hidle
    | publish | loopingTrue | quitFalse | leave | iterate | handled | callingTrue | lockSwap
    | unlockSwap | endFunctors | callFunctor | functorReturns | callingFalse | loopingFalse
    | poll | handleRead =>
      intro hn
      cases hn
    | queueInloop | quit | lock | ifWakeup | wakeup | unlock | quitTrue | quitInLoop
    | ifQuitWakeup | quitWakeup => exact hq.fresh

theorem Queued.init : Queued ({} : EventLoop F) := by
  refine ⟨.empty, rfl, fun _ => rfl, ?_⟩
  intro hn
  cases hn

theorem Queued.run {s t : EventLoop F} (h : Run EventLoop.step s as t)
    (hs : Exclusive s ∧ Queued s) : Exclusive t ∧ Queued t := by
  apply h.invariant (P := fun u => Exclusive u ∧ Queued u) hs
  intro u a v hu hstep
  exact ⟨hu.1.step hstep, hu.2.step hu.1 hstep⟩

end MuduoStudy.EventLoop
