import Mathlib.Algebra.Order.Ring.Nat
import MuduoStudy.BatchQueue
import MuduoStudy.Transition

namespace MuduoStudy
set_option autoImplicit true

namespace EventLoop

/-- The thread that created the loop (`threadId_`) and the other threads of the process. -/
inductive Thread where
  | loop
  | other (n : Nat)
  deriving DecidableEq, Repr

/-- Where the loop's thread stands in `threadFunc`, `loop` and `doPendingFunctors`. A location is
named after the statement that runs next. -/
inductive Pc where
  -- the thread-init callback; `loop_` is not published yet
  | threadFunc
  | loopingTrue
  | quitFalse
  | whileQuit
  | poll
  -- the `for` over `activeChannels_`; the flag says that `wakeupChannel_` still has to be handled
  | handleEvents (wake : Bool)
  | callingTrue
  | lock
  | swap
  | unlock
  | forFunctors
  | functor
  | callingFalse
  | loopingFalse
  | returned
  deriving DecidableEq, Repr

/-- The statement of `queueInloop` or `quit` that a thread runs next. Once its functor is in
`pendingFunctors_`, a `queueInloop` call knows the functor's position among all queued ones. -/
inductive Call (F : Type u) where
  | idle
  | lock (cb : F)
  | emplaceBack (cb : F)
  | ifWakeup (k : Nat)
  | wakeup (k : Nat)
  | unlock (k : Nat)
  | quitTrue
  | ifQuitWakeup
  | quitWakeup

def Call.isIdle : Call F → Bool
  | .idle => true
  | _ => false

end EventLoop

open EventLoop

/-- The members of `EventLoop` that its threads share, the local vector of `doPendingFunctors`,
the calls in progress, and the history that the statements below speak of. -/
structure EventLoop (F : Type u) where
  pc : Pc := .threadFunc
  looping_ : Bool := false
  quit_ : Bool := false
  callingPendingFunctors_ : Bool := false
  pendingFunctors_ : List F := []
  mutex_ : Option Thread := none
  /-- the counter of the eventfd -/
  wakeupFd_ : Nat := 0
  /-- the local `functors` of `doPendingFunctors`, less those already called -/
  functors : List F := []
  call : Thread → Call F := fun _ => .idle
  /-- the functors that `doPendingFunctors` has called -/
  executed : List F := []
  /-- the functors appended to `pendingFunctors_` -/
  queued : List F := []
  /-- the functors of all `queueInloop` calls that got `mutex_`, in the order they got it -/
  locked : List F := []
  /-- the positions in `queued` whose `queueInloop` call, by another thread, has returned -/
  finished : List Nat := []
  /-- the positions that were in `finished` when the last `quit` before the return of `loop`
  began -/
  promised : List Nat := []
  /-- some call of `quit` has returned -/
  quitReturned : Bool := false

namespace EventLoop

/-- A counter at its maximum makes the nonblocking write fail and stays as it is. -/
def eventfdWrite (n : Nat) : Nat := if n < 2 ^ 64 - 2 then n + 1 else n

theorem eventfdWrite_pos (n : Nat) : 0 < eventfdWrite n := by
  rw [eventfdWrite]
  split <;> omega

theorem eventfdWrite_le (n : Nat) : n ≤ eventfdWrite n := by
  rw [eventfdWrite]
  split <;> omega

def setCall (s : EventLoop F) (t : Thread) (c : Call F) : EventLoop F :=
  { s with call := Function.update s.call t c }

/-- User code runs on the loop's thread in the thread-init callback, in event handlers and in
functors. Another thread can call once `loop_` is published. -/
def mayCall (s : EventLoop F) : Thread → Bool
  | .loop => match s.pc with
    | .threadFunc | .handleEvents _ | .functor => true
    | _ => false
  | .other _ => s.pc ≠ .threadFunc

/-- The next statement of `threadFunc`, `loop` or `doPendingFunctors`. -/
def loop (s : EventLoop F) : Option (EventLoop F) :=
  match s.pc with
  | .threadFunc => some { s with pc := .loopingTrue }
  | .loopingTrue => some { s with looping_ := true, pc := .quitFalse }
  | .quitFalse => some { s with quit_ := false, pc := .whileQuit }
  | .whileQuit => some { s with pc := if s.quit_ then .loopingFalse else .poll }
  | .poll => none
  | .handleEvents true => none
  | .handleEvents false => some { s with pc := .callingTrue }
  | .callingTrue => some { s with functors := [], callingPendingFunctors_ := true, pc := .lock }
  | .lock =>
    match s.mutex_ with
    | none => some { s with mutex_ := some .loop, pc := .swap }
    | some _ => none
  | .swap =>
    some { s with functors := s.pendingFunctors_, pendingFunctors_ := s.functors, pc := .unlock }
  | .unlock => some { s with mutex_ := none, pc := .forFunctors }
  | .forFunctors =>
    match s.functors with
    | [] => some { s with pc := .callingFalse }
    | cb :: rest => some { s with functors := rest, executed := s.executed ++ [cb], pc := .functor }
  | .functor => some { s with pc := .forFunctors }
  | .callingFalse => some { s with callingPendingFunctors_ := false, pc := .whileQuit }
  | .loopingFalse => some { s with looping_ := false, pc := .returned }
  | .returned => none

/-- The next statement of the `queueInloop` or `quit` call in progress on a thread. -/
def advance (s : EventLoop F) (t : Thread) : Option (EventLoop F) :=
  match s.call t with
  | .idle => none
  | .lock cb =>
    match s.mutex_ with
    | none => some { s.setCall t (.emplaceBack cb) with
        mutex_ := some t, locked := s.locked ++ [cb] }
    | some _ => none
  | .emplaceBack cb => some { s.setCall t (.ifWakeup s.queued.length) with
      pendingFunctors_ := s.pendingFunctors_ ++ [cb], queued := s.queued ++ [cb] }
  | .ifWakeup k => some (s.setCall t
      (if t ≠ .loop ∨ s.callingPendingFunctors_ then .wakeup k else .unlock k))
  | .wakeup k => some { s.setCall t (.unlock k) with wakeupFd_ := eventfdWrite s.wakeupFd_ }
  | .unlock k => some { s.setCall t .idle with
      mutex_ := none, finished := if t = .loop then s.finished else k :: s.finished }
  | .quitTrue => some { s.setCall t .ifQuitWakeup with quit_ := true }
  | .ifQuitWakeup =>
    if t = .loop then some { s.setCall t .idle with quitReturned := true }
    else some (s.setCall t .quitWakeup)
  | .quitWakeup => some { s.setCall t .idle with
      wakeupFd_ := eventfdWrite s.wakeupFd_, quitReturned := true }

inductive Action (F : Type u) where
  | loop
  -- `poll` returns, because an event is ready or after its timeout; the flag says whether
  -- `wakeupChannel_` is among the active channels
  | poll (wake : Bool)
  | handleRead
  | queueInloop (t : Thread) (cb : F)
  | quit (t : Thread)
  | advance (t : Thread)

/-- One atomic step of one thread. `runInloop` is `queueInloop` on another thread and, on the
loop's thread, part of the user code that calls it. -/
def step (s : EventLoop F) : Action F → Option (EventLoop F)
  | .loop => if (s.call .loop).isIdle then s.loop else none
  | .poll wake =>
    if s.pc = .poll ∧ (wake = true → 0 < s.wakeupFd_) then
      some { s with pc := .handleEvents wake }
    else none
  | .handleRead =>
    if s.pc = .handleEvents true ∧ (s.call .loop).isIdle then
      some { s with wakeupFd_ := 0, pc := .handleEvents false }
    else none
  | .queueInloop t cb =>
    if (s.call t).isIdle ∧ s.mayCall t then some (s.setCall t (.lock cb)) else none
  | .quit t =>
    if (s.call t).isIdle ∧ s.mayCall t then
      some { s.setCall t .quitTrue with
        promised := if s.pc = .returned then s.promised else s.finished }
    else none
  | .advance t => s.advance t

inductive Step (s : EventLoop F) : Action F → EventLoop F → Prop where
  | publish : s.pc = .threadFunc → Step s .loop { s with pc := .loopingTrue }
  | loopingTrue : s.pc = .loopingTrue →
      Step s .loop { s with looping_ := true, pc := .quitFalse }
  | quitFalse : s.pc = .quitFalse → Step s .loop { s with quit_ := false, pc := .whileQuit }
  | leave : s.pc = .whileQuit → s.quit_ = true → Step s .loop { s with pc := .loopingFalse }
  | iterate : s.pc = .whileQuit → s.quit_ = false → Step s .loop { s with pc := .poll }
  | handled : s.pc = .handleEvents false → Step s .loop { s with pc := .callingTrue }
  | callingTrue : s.pc = .callingTrue →
      Step s .loop { s with functors := [], callingPendingFunctors_ := true, pc := .lock }
  | lockSwap : s.pc = .lock → s.mutex_ = none →
      Step s .loop { s with mutex_ := some .loop, pc := .swap }
  | swap : s.pc = .swap → Step s .loop { s with
      functors := s.pendingFunctors_, pendingFunctors_ := s.functors, pc := .unlock }
  | unlockSwap : s.pc = .unlock → Step s .loop { s with mutex_ := none, pc := .forFunctors }
  | endFunctors : s.pc = .forFunctors → s.functors = [] →
      Step s .loop { s with pc := .callingFalse }
  | callFunctor : s.pc = .forFunctors → s.functors = cb :: rest →
      Step s .loop { s with functors := rest, executed := s.executed ++ [cb], pc := .functor }
  | functorReturns : s.pc = .functor → Step s .loop { s with pc := .forFunctors }
  | callingFalse : s.pc = .callingFalse →
      Step s .loop { s with callingPendingFunctors_ := false, pc := .whileQuit }
  | loopingFalse : s.pc = .loopingFalse →
      Step s .loop { s with looping_ := false, pc := .returned }
  | poll : s.pc = .poll → (wake = true → 0 < s.wakeupFd_) →
      Step s (.poll wake) { s with pc := .handleEvents wake }
  | handleRead : s.pc = .handleEvents true →
      Step s .handleRead { s with wakeupFd_ := 0, pc := .handleEvents false }
  | queueInloop : s.call t = .idle → s.mayCall t = true →
      Step s (.queueInloop t cb) (s.setCall t (.lock cb))
  | quit : s.call t = .idle → s.mayCall t = true → Step s (.quit t) { s.setCall t .quitTrue with
      promised := if s.pc = .returned then s.promised else s.finished }
  | lock : s.call t = .lock cb → s.mutex_ = none →
      Step s (.advance t) { s.setCall t (.emplaceBack cb) with
        mutex_ := some t, locked := s.locked ++ [cb] }
  | emplaceBack : s.call t = .emplaceBack cb →
      Step s (.advance t) { s.setCall t (.ifWakeup s.queued.length) with
        pendingFunctors_ := s.pendingFunctors_ ++ [cb], queued := s.queued ++ [cb] }
  | ifWakeup : s.call t = .ifWakeup k → c = .wakeup k ∨ c = .unlock k →
      Step s (.advance t) (s.setCall t c)
  | wakeup : s.call t = .wakeup k → Step s (.advance t) { s.setCall t (.unlock k) with
      wakeupFd_ := eventfdWrite s.wakeupFd_ }
  | unlock : s.call t = .unlock k → Step s (.advance t) { s.setCall t .idle with
      mutex_ := none, finished := if t = .loop then s.finished else k :: s.finished }
  | quitTrue : s.call t = .quitTrue →
      Step s (.advance t) { s.setCall t .ifQuitWakeup with quit_ := true }
  | quitInLoop : s.call .loop = .ifQuitWakeup →
      Step s (.advance .loop) { s.setCall .loop .idle with quitReturned := true }
  | ifQuitWakeup : s.call t = .ifQuitWakeup → t ≠ .loop →
      Step s (.advance t) (s.setCall t .quitWakeup)
  | quitWakeup : s.call t = .quitWakeup → Step s (.advance t) { s.setCall t .idle with
      wakeupFd_ := eventfdWrite s.wakeupFd_, quitReturned := true }

theorem Call.isIdle_iff {c : Call F} : c.isIdle = true ↔ c = .idle := by
  cases c <;> simp [Call.isIdle]

theorem Step.of_loop {s t : EventLoop F} (h : s.loop = some t) : Step s .loop t := by
  cases hpc : s.pc with
  | poll => simp [loop, hpc] at h
  | returned => simp [loop, hpc] at h
  | handleEvents wake =>
    cases wake with
    | true => simp [loop, hpc] at h
    | false =>
      simp only [loop, hpc, Option.some.injEq] at h
      exact h ▸ .handled hpc
  | whileQuit =>
    simp only [loop, hpc, Option.some.injEq] at h
    subst t
    by_cases hq : s.quit_ = true
    · rw [if_pos hq]
      exact .leave hpc hq
    · rw [if_neg hq]
      exact .iterate hpc (Bool.not_eq_true _ ▸ hq)
  | lock =>
    cases hm : s.mutex_ with
    | none =>
      simp only [loop, hpc, hm, Option.some.injEq] at h
      exact h ▸ .lockSwap hpc hm
    | some => simp [loop, hpc, hm] at h
  | forFunctors =>
    simp only [loop, hpc] at h
    split at h
    · rename_i hf
      cases h
      exact .endFunctors hpc hf
    · rename_i cb rest hf
      cases h
      exact .callFunctor hpc hf
  | threadFunc => simp only [loop, hpc, Option.some.injEq] at h; exact h ▸ .publish hpc
  | loopingTrue => simp only [loop, hpc, Option.some.injEq] at h; exact h ▸ .loopingTrue hpc
  | quitFalse => simp only [loop, hpc, Option.some.injEq] at h; exact h ▸ .quitFalse hpc
  | callingTrue => simp only [loop, hpc, Option.some.injEq] at h; exact h ▸ .callingTrue hpc
  | swap => simp only [loop, hpc, Option.some.injEq] at h; exact h ▸ .swap hpc
  | unlock => simp only [loop, hpc, Option.some.injEq] at h; exact h ▸ .unlockSwap hpc
  | functor => simp only [loop, hpc, Option.some.injEq] at h; exact h ▸ .functorReturns hpc
  | callingFalse => simp only [loop, hpc, Option.some.injEq] at h; exact h ▸ .callingFalse hpc
  | loopingFalse => simp only [loop, hpc, Option.some.injEq] at h; exact h ▸ .loopingFalse hpc

theorem Step.of_advance {s s' : EventLoop F} (h : s.advance t = some s') :
    Step s (.advance t) s' := by
  cases hc : s.call t with
  | idle => simp [advance, hc] at h
  | lock cb =>
    cases hm : s.mutex_ with
    | none =>
      simp only [advance, hc, hm, Option.some.injEq] at h
      exact h ▸ .lock hc hm
    | some => simp [advance, hc, hm] at h
  | emplaceBack cb => simp only [advance, hc, Option.some.injEq] at h; exact h ▸ .emplaceBack hc
  | ifWakeup k =>
    simp only [advance, hc, Option.some.injEq] at h
    subst s'
    apply Step.ifWakeup hc
    split
    · exact .inl rfl
    · exact .inr rfl
  | wakeup k => simp only [advance, hc, Option.some.injEq] at h; exact h ▸ .wakeup hc
  | unlock k => simp only [advance, hc, Option.some.injEq] at h; exact h ▸ .unlock hc
  | quitTrue => simp only [advance, hc, Option.some.injEq] at h; exact h ▸ .quitTrue hc
  | ifQuitWakeup =>
    by_cases ht : t = .loop
    · subst t
      simp only [advance, hc, ↓reduceIte, Option.some.injEq] at h
      exact h ▸ .quitInLoop hc
    · simp only [advance, hc, ht, ↓reduceIte, Option.some.injEq] at h
      exact h ▸ .ifQuitWakeup hc ht
  | quitWakeup => simp only [advance, hc, Option.some.injEq] at h; exact h ▸ .quitWakeup hc

theorem Step.of_step {s s' : EventLoop F} (h : s.step a = some s') : Step s a s' := by
  cases a with
  | loop =>
    simp only [step, Option.ite_none_right_eq_some] at h
    exact .of_loop h.2
  | poll wake =>
    simp only [step, Option.ite_none_right_eq_some, Option.some.injEq] at h
    obtain ⟨⟨hpc, hw⟩, rfl⟩ := h
    exact .poll hpc hw
  | handleRead =>
    simp only [step, Option.ite_none_right_eq_some, Option.some.injEq] at h
    obtain ⟨⟨hpc, _⟩, rfl⟩ := h
    exact .handleRead hpc
  | queueInloop t cb =>
    simp only [step, Option.ite_none_right_eq_some, Option.some.injEq, Call.isIdle_iff] at h
    obtain ⟨⟨hc, hm⟩, rfl⟩ := h
    exact .queueInloop hc hm
  | quit t =>
    simp only [step, Option.ite_none_right_eq_some, Option.some.injEq, Call.isIdle_iff] at h
    obtain ⟨⟨hc, hm⟩, rfl⟩ := h
    exact .quit hc hm
  | advance t => exact .of_advance h

end EventLoop
end MuduoStudy
