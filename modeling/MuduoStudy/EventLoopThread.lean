import MuduoStudy.FunctorQueue

namespace MuduoStudy
open Transition
set_option autoImplicit true

namespace EventLoopThread

/-- Where the thread that owns the object stands in `startLoop` or in the destructor. A location is
named after the statement that runs next. -/
inductive Owner where
  | start
  | semWait
  | lock
  | whileLoop
  -- blocked in `cond_.wait`, with `mutex_` released
  | wait
  -- notified, and still to get `mutex_` again
  | relock
  | loopRead
  | unlock
  | returned
  | exitingTrue
  | ifLoop
  | loopQuit
  -- inside `loop_->quit()`
  | quitting
  | joinedTrue
  | join
  -- the destructor of `thread_`
  | ifDetach
  | destroyed
  deriving DecidableEq, Repr

/-- Where the new thread stands in the lambda of `Thread::start` and in `threadFunc`. -/
inductive Child where
  | unborn
  | tid
  | semPost
  | eventLoop
  | callback
  | lock
  | publish
  | notifyOne
  | unlock
  | loop
  | loopNull
  -- the end of the scope of the local variable `loop`
  | destroyLoop
  | ended
  deriving DecidableEq, Repr

/-- How many of its statements the new thread has left behind. -/
def Child.stage : Child → Nat
  | .unborn => 0
  | .tid => 1
  | .semPost => 2
  | .eventLoop => 3
  | .callback => 4
  | .lock => 5
  | .publish => 6
  | .notifyOne => 7
  | .unlock => 8
  | .loop => 9
  | .loopNull => 10
  | .destroyLoop => 11
  | .ended => 12

/-- The local variable `loop` is constructed and not yet destroyed. -/
def Child.alive (c : Child) : Bool := 4 ≤ c.stage ∧ c.stage ≤ 11

inductive Side where
  | owner
  | child
  deriving DecidableEq, Repr

end EventLoopThread

open EventLoopThread

/-- An `EventLoopThread` with its `Thread`, the semaphore of `Thread::start` and the local
variable of `threadFunc`. `loop_` only ever is null or the address of that variable. -/
structure EventLoopThread (F : Type u) where
  /-- what `CurrentThread::tid` returns on the new thread -/
  pid : Nat
  owner : Owner := .start
  child : Child := .unborn
  loop : EventLoop F := {}
  loop_ : Bool := false
  exiting_ : Bool := false
  mutex_ : Option Side := none
  started_ : Bool := false
  joined_ : Bool := false
  /-- the `std::thread` stands for a thread neither joined nor detached -/
  joinable : Bool := false
  tid_ : Nat := 0
  sem : Nat := 0
  /-- what `startLoop` read from `loop_`, once it has -/
  result : Option Bool := none
  /-- a null pointer or a pointer to a destroyed loop was used -/
  fault : Bool := false

namespace EventLoopThread

/-- A step of the loop by somebody who holds its address. -/
def useLoop (s : EventLoopThread F) (a : EventLoop.Action F) : Option (EventLoopThread F) :=
  if s.child.alive then (s.loop.step a).map fun l => { s with loop := l }
  else some { s with fault := true }

/-- The next statement of the owning thread. `thread_.start()` is inlined into `startLoop`. -/
def ownerNext (s : EventLoopThread F) : Option (EventLoopThread F) :=
  match s.owner with
  | .start => some { s with started_ := true, joinable := true, child := .tid, owner := .semWait }
  | .semWait => if 0 < s.sem then some { s with sem := s.sem - 1, owner := .lock } else none
  | .lock | .relock =>
    match s.mutex_ with
    | none => some { s with mutex_ := some .owner, owner := .whileLoop }
    | some _ => none
  | .whileLoop =>
    if s.loop_ then some { s with owner := .loopRead }
    else some { s with mutex_ := none, owner := .wait }
  | .wait => none
  | .loopRead => some { s with result := some s.loop_, owner := .unlock }
  | .unlock => some { s with mutex_ := none, owner := .returned }
  | .returned => none
  | .exitingTrue => some { s with exiting_ := true, owner := .ifLoop }
  | .ifLoop => some { s with owner := if s.loop_ then .loopQuit else .ifDetach }
  -- `loop_` is read a second time
  | .loopQuit =>
    if s.loop_ then useLoop { s with owner := .quitting } (.quit (.other 0))
    else some { s with fault := true }
  | .quitting =>
    if (s.loop.call (.other 0)).isIdle then some { s with owner := .joinedTrue }
    else s.useLoop (.advance (.other 0))
  | .joinedTrue => some { s with joined_ := true, owner := .join }
  | .join =>
    if s.child = .ended then some { s with joinable := false, owner := .ifDetach } else none
  | .ifDetach =>
    some { s with joinable := s.joinable && !(s.started_ && !s.joined_), owner := .destroyed }
  | .destroyed => none

/-- The next statement of the new thread, outside the callback and `loop.loop()`. -/
def childNext (s : EventLoopThread F) : Option (EventLoopThread F) :=
  match s.child with
  | .unborn => none
  | .tid => some { s with tid_ := s.pid, child := .semPost }
  | .semPost => some { s with sem := s.sem + 1, child := .eventLoop }
  | .eventLoop => some { s with child := .callback }
  | .callback => if (s.loop.call .loop).isIdle then some { s with child := .lock } else none
  | .lock =>
    match s.mutex_ with
    | none => some { s with mutex_ := some .child, child := .publish }
    | some _ => none
  | .publish => (s.loop.step .loop).map fun l =>
      { s with loop := l, loop_ := true, child := .notifyOne }
  | .notifyOne =>
    some { s with owner := if s.owner = .wait then .relock else s.owner, child := .unlock }
  | .unlock => some { s with mutex_ := none, child := .loop }
  | .loop => if s.loop.pc = .returned then some { s with child := .loopNull } else none
  | .loopNull => some { s with loop_ := false, child := .destroyLoop }
  | .destroyLoop => some { s with child := .ended }
  | .ended => none

def returnedLoop (s : EventLoopThread F) : Bool := s.result = some true ∧ s.owner ≠ .unlock

/-- User code runs on the new thread in the callback and inside `loop.loop()`. Other threads use
the loop that `startLoop` has returned; `.other 0` is the owner. -/
def mayUse (s : EventLoopThread F) : EventLoop.Action F → Bool
  | .loop | .poll _ | .handleRead => s.child = .loop
  | .queueInloop .loop _ | .quit .loop | .advance .loop => s.child = .callback ∨ s.child = .loop
  | .queueInloop (.other n) _ | .quit (.other n) =>
    s.returnedLoop ∧ (n = 0 → s.owner = .returned) ∧ (s.loop.call (.other n)).isIdle
  | .advance (.other n) =>
    s.returnedLoop ∧ (n = 0 → s.owner = .returned) ∧ ¬ (s.loop.call (.other n)).isIdle

inductive Action (F : Type u) where
  | owner
  | child
  -- `cond_.wait` returns without a notification
  | spurious
  | use (a : EventLoop.Action F)
  -- the owner begins to destroy the object
  | destruct

/-- One atomic step of one thread. Nothing is said about the program after a fault. -/
def step (s : EventLoopThread F) (a : Action F) : Option (EventLoopThread F) :=
  if s.fault then none else
  match a with
  | .owner => s.ownerNext
  | .child => s.childNext
  | .spurious => if s.owner = .wait then some { s with owner := .relock } else none
  | .use a => if s.mayUse a then s.useLoop a else none
  | .destruct =>
    if s.owner = .start ∨ s.owner = .returned ∧ (s.loop.call (.other 0)).isIdle then
      some { s with owner := .exitingTrue }
    else none

inductive Step (s : EventLoopThread F) : Action F → EventLoopThread F → Prop where
  | start : s.owner = .start → Step s .owner { s with
      started_ := true, joinable := true, child := .tid, owner := .semWait }
  | semWait : s.owner = .semWait → 0 < s.sem →
      Step s .owner { s with sem := s.sem - 1, owner := .lock }
  | ownerLock : s.owner = .lock ∨ s.owner = .relock → s.mutex_ = none →
      Step s .owner { s with mutex_ := some .owner, owner := .whileLoop }
  | found : s.owner = .whileLoop → s.loop_ = true → Step s .owner { s with owner := .loopRead }
  | sleep : s.owner = .whileLoop → s.loop_ = false →
      Step s .owner { s with mutex_ := none, owner := .wait }
  | loopRead : s.owner = .loopRead →
      Step s .owner { s with result := some s.loop_, owner := .unlock }
  | ownerUnlock : s.owner = .unlock → Step s .owner { s with mutex_ := none, owner := .returned }
  | exitingTrue : s.owner = .exitingTrue →
      Step s .owner { s with exiting_ := true, owner := .ifLoop }
  | ifLoop : s.owner = .ifLoop → s.loop_ = true → Step s .owner { s with owner := .loopQuit }
  | ifNull : s.owner = .ifLoop → s.loop_ = false → Step s .owner { s with owner := .ifDetach }
  | quit : s.owner = .loopQuit → s.loop_ = true → s.loop.step (.quit (.other 0)) = some l →
      Step s .owner { s with loop := l, owner := .quitting }
  | quitNull : s.owner = .loopQuit → s.loop_ = false → Step s .owner { s with fault := true }
  | quitDead : s.owner = .loopQuit → s.loop_ = true → s.child.alive = false →
      Step s .owner { s with fault := true, owner := .quitting }
  | advance : s.owner = .quitting → s.child.alive = true →
      s.loop.step (.advance (.other 0)) = some l → Step s .owner { s with loop := l }
  | advanceDead : s.owner = .quitting → s.loop.call (.other 0) ≠ .idle → s.child.alive = false →
      Step s .owner { s with fault := true }
  | quitDone : s.owner = .quitting → s.loop.call (.other 0) = .idle →
      Step s .owner { s with owner := .joinedTrue }
  | joinedTrue : s.owner = .joinedTrue → Step s .owner { s with joined_ := true, owner := .join }
  | join : s.owner = .join → s.child = .ended →
      Step s .owner { s with joinable := false, owner := .ifDetach }
  | ifDetach : s.owner = .ifDetach → Step s .owner { s with
      joinable := s.joinable && !(s.started_ && !s.joined_), owner := .destroyed }
  | tid : s.child = .tid → Step s .child { s with tid_ := s.pid, child := .semPost }
  | semPost : s.child = .semPost → Step s .child { s with sem := s.sem + 1, child := .eventLoop }
  | eventLoop : s.child = .eventLoop → Step s .child { s with child := .callback }
  | callback : s.child = .callback → s.loop.call .loop = .idle →
      Step s .child { s with child := .lock }
  | childLock : s.child = .lock → s.mutex_ = none →
      Step s .child { s with mutex_ := some .child, child := .publish }
  | publish : s.child = .publish → s.loop.step .loop = some l →
      Step s .child { s with loop := l, loop_ := true, child := .notifyOne }
  | notifyOne : s.child = .notifyOne → Step s .child { s with
      owner := if s.owner = .wait then .relock else s.owner, child := .unlock }
  | childUnlock : s.child = .unlock → Step s .child { s with mutex_ := none, child := .loop }
  | looped : s.child = .loop → s.loop.pc = .returned → Step s .child { s with child := .loopNull }
  | loopNull : s.child = .loopNull → Step s .child { s with loop_ := false, child := .destroyLoop }
  | destroyLoop : s.child = .destroyLoop → Step s .child { s with child := .ended }
  | spurious : s.owner = .wait → Step s .spurious { s with owner := .relock }
  | use : s.mayUse a = true → s.child.alive = true → s.loop.step a = some l →
      Step s (.use a) { s with loop := l }
  | useDead : s.mayUse a = true → s.child.alive = false → Step s (.use a) { s with fault := true }
  | destruct : s.owner = .start ∨ s.owner = .returned ∧ s.loop.call (.other 0) = .idle →
      Step s .destruct { s with owner := .exitingTrue }

theorem useLoop_cases {s t : EventLoopThread F} (h : s.useLoop a = some t) :
    (s.child.alive = true ∧ ∃ l, s.loop.step a = some l ∧ t = { s with loop := l }) ∨
      (s.child.alive = false ∧ t = { s with fault := true }) := by
  rw [useLoop] at h
  split at h
  · rename_i ha
    obtain ⟨l, hl, rfl⟩ := Option.map_eq_some_iff.1 h
    exact .inl ⟨ha, l, hl, rfl⟩
  · rename_i ha
    cases h
    exact .inr ⟨Bool.eq_false_iff.2 ha, rfl⟩

theorem Step.of_owner {s t : EventLoopThread F} (h : s.ownerNext = some t) : Step s .owner t := by
  cases ho : s.owner with
  | wait | returned | destroyed => simp [ownerNext, ho] at h
  | start => simp only [ownerNext, ho, Option.some.injEq] at h; exact h ▸ .start ho
  | semWait =>
    simp only [ownerNext, ho, Option.ite_none_right_eq_some, Option.some.injEq] at h
    exact h.2 ▸ .semWait ho h.1
  | lock =>
    cases hm : s.mutex_ with
    | none =>
      simp only [ownerNext, ho, hm, Option.some.injEq] at h
      exact h ▸ .ownerLock (.inl ho) hm
    | some => simp [ownerNext, ho, hm] at h
  | relock =>
    cases hm : s.mutex_ with
    | none =>
      simp only [ownerNext, ho, hm, Option.some.injEq] at h
      exact h ▸ .ownerLock (.inr ho) hm
    | some => simp [ownerNext, ho, hm] at h
  | whileLoop =>
    cases hl : s.loop_ with
    | false =>
      simp only [ownerNext, ho, hl, Bool.false_eq_true, ↓reduceIte, Option.some.injEq] at h
      exact h ▸ hl ▸ .sleep ho hl
    | true =>
      simp only [ownerNext, ho, hl, ↓reduceIte, Option.some.injEq] at h
      exact h ▸ hl ▸ .found ho hl
  | loopRead => simp only [ownerNext, ho, Option.some.injEq] at h; exact h ▸ .loopRead ho
  | unlock => simp only [ownerNext, ho, Option.some.injEq] at h; exact h ▸ .ownerUnlock ho
  | exitingTrue => simp only [ownerNext, ho, Option.some.injEq] at h; exact h ▸ .exitingTrue ho
  | ifLoop =>
    simp only [ownerNext, ho, Option.some.injEq] at h
    subst h
    split
    · rename_i hl
      exact .ifLoop ho hl
    · rename_i hl
      exact .ifNull ho (Bool.eq_false_iff.2 hl)
  | loopQuit =>
    simp only [ownerNext, ho] at h
    split at h
    · rename_i hl
      rcases useLoop_cases h with ⟨_, l, hs, rfl⟩ | ⟨ha, rfl⟩
      · exact .quit ho hl hs
      · exact .quitDead ho hl ha
    · rename_i hl
      cases h
      exact ho ▸ .quitNull ho (Bool.eq_false_iff.2 hl)
  | quitting =>
    simp only [ownerNext, ho] at h
    split at h
    · rename_i hc
      cases h
      exact .quitDone ho (EventLoop.Call.isIdle_iff.1 hc)
    · rename_i hc
      rcases useLoop_cases h with ⟨ha, l, hs, rfl⟩ | ⟨ha, rfl⟩
      · exact .advance ho ha hs
      · exact .advanceDead ho (fun hn => hc (EventLoop.Call.isIdle_iff.2 hn)) ha
  | joinedTrue => simp only [ownerNext, ho, Option.some.injEq] at h; exact h ▸ .joinedTrue ho
  | join =>
    simp only [ownerNext, ho, Option.ite_none_right_eq_some, Option.some.injEq] at h
    exact h.2 ▸ .join ho h.1
  | ifDetach => simp only [ownerNext, ho, Option.some.injEq] at h; exact h ▸ .ifDetach ho

theorem Step.of_child {s t : EventLoopThread F} (h : s.childNext = some t) : Step s .child t := by
  cases hc : s.child with
  | unborn | ended => simp [childNext, hc] at h
  | tid => simp only [childNext, hc, Option.some.injEq] at h; exact h ▸ .tid hc
  | semPost => simp only [childNext, hc, Option.some.injEq] at h; exact h ▸ .semPost hc
  | eventLoop => simp only [childNext, hc, Option.some.injEq] at h; exact h ▸ .eventLoop hc
  | callback =>
    simp only [childNext, hc, Option.ite_none_right_eq_some, Option.some.injEq,
      EventLoop.Call.isIdle_iff] at h
    exact h.2 ▸ .callback hc h.1
  | lock =>
    cases hm : s.mutex_ with
    | none => simp only [childNext, hc, hm, Option.some.injEq] at h; exact h ▸ .childLock hc hm
    | some => simp [childNext, hc, hm] at h
  | publish =>
    simp only [childNext, hc] at h
    obtain ⟨l, hl, rfl⟩ := Option.map_eq_some_iff.1 h
    exact .publish hc hl
  | notifyOne => simp only [childNext, hc, Option.some.injEq] at h; exact h ▸ .notifyOne hc
  | unlock => simp only [childNext, hc, Option.some.injEq] at h; exact h ▸ .childUnlock hc
  | loop =>
    simp only [childNext, hc, Option.ite_none_right_eq_some, Option.some.injEq] at h
    exact h.2 ▸ .looped hc h.1
  | loopNull => simp only [childNext, hc, Option.some.injEq] at h; exact h ▸ .loopNull hc
  | destroyLoop => simp only [childNext, hc, Option.some.injEq] at h; exact h ▸ .destroyLoop hc

theorem Step.of_step {s t : EventLoopThread F} (h : s.step a = some t) : Step s a t := by
  simp only [step, Option.ite_none_left_eq_some] at h
  have h := h.2
  cases a with
  | owner => exact .of_owner h
  | child => exact .of_child h
  | spurious =>
    simp only [Option.ite_none_right_eq_some, Option.some.injEq] at h
    exact h.2 ▸ .spurious h.1
  | use a =>
    simp only [Option.ite_none_right_eq_some] at h
    rcases useLoop_cases h.2 with ⟨ha, l, hs, rfl⟩ | ⟨ha, rfl⟩
    · exact .use h.1 ha hs
    · exact .useDead h.1 ha
  | destruct =>
    simp only [Option.ite_none_right_eq_some, Option.some.injEq, EventLoop.Call.isIdle_iff] at h
    exact h.2 ▸ .destruct h.1

end EventLoopThread
end MuduoStudy
