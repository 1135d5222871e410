import MuduoStudy.StartLoop
import MuduoStudy.Upkeep

namespace MuduoStudy
open Transition
set_option autoImplicit true

namespace EventLoopThreadPool

inductive Pc where
  -- `start` has not been called
  | ready
  | forLoop
  -- `t->startLoop()`, and `push_back` of what it returns
  | startLoop
  | ifCallback
  | started
  deriving DecidableEq, Repr

end EventLoopThreadPool

open EventLoopThreadPool

/-- An `EventLoopThreadPool` with its threads. The loop of each thread is known by the thread's
place in `threads_`, and a null pointer is `none`. -/
structure EventLoopThreadPool (F : Type u) where
  numThreads_ : Int
  /-- `start` is given a callback -/
  hasCallback : Bool
  /-- what `CurrentThread::tid` returns on each of the new threads -/
  pids : Nat → Nat
  pc : Pc := .ready
  started_ : Bool := false
  threads_ : List (EventLoopThread F) := []
  loops_ : List (Option World.Loop) := []
  next_ : Nat := 0
  /-- how often `start` has called `cb(baseLoop_)` -/
  baseCalls : Nat := 0
  /-- what `getNextLoop` has returned -/
  dealt : List (Option World.Loop) := []

namespace EventLoopThreadPool

/-- The thread that `start` is waiting for, if it is. -/
def current (s : EventLoopThreadPool F) : Option (EventLoopThread F) := s.threads_[s.loops_.length]?

/-- The next statement of `start`, with `startLoop` inlined. -/
def startNext (s : EventLoopThreadPool F) : Option (EventLoopThreadPool F) :=
  match s.pc with
  | .ready | .started => none
  | .forLoop =>
    if (s.threads_.length : Int) < s.numThreads_ then
      some { s with
        threads_ := s.threads_ ++ [{ pid := s.pids s.threads_.length }], pc := .startLoop }
    else some { s with pc := .ifCallback }
  | .startLoop =>
    s.current.bind fun t =>
      if t.owner = .returned then
        some { s with
          loops_ := s.loops_ ++ [if t.result = some true then some (.io s.loops_.length) else none]
          pc := .forLoop }
      else (t.step .owner).map fun t => { s with threads_ := s.threads_.set s.loops_.length t }
  | .ifCallback =>
    some { s with
      baseCalls := if s.numThreads_ = 0 ∧ s.hasCallback then s.baseCalls + 1 else s.baseCalls
      pc := .started }

/-- The loop and the new `next_`. There is nothing behind the end of `loops_`. -/
def getNextLoop (s : EventLoopThreadPool F) : Option (Option World.Loop × Nat) :=
  if s.loops_ = [] then some (some .base, s.next_)
  else (s.loops_[s.next_]?).map fun loop =>
    (loop, if s.loops_.length ≤ s.next_ + 1 then 0 else s.next_ + 1)

def getLoopForHash (s : EventLoopThreadPool F) (hashCode : Nat) : Option (Option World.Loop) :=
  if s.loops_ = [] then some (some .base) else s.loops_[hashCode % s.loops_.length]?

def getAllLoops (s : EventLoopThreadPool F) : List (Option World.Loop) :=
  if s.loops_ = [] then [some .base] else s.loops_

inductive Action (F : Type u) where
  | start
  -- the thread that has called `start`
  | owner
  -- the thread at that place in `threads_`, or a user of its loop
  | thread (k : Nat) (a : EventLoopThread.Action F)
  | getNextLoop

/-- The pool's owner is in `start` until it has returned, and the pool is not destroyed. -/
def mayStep (s : EventLoopThreadPool F) : EventLoopThread.Action F → Bool
  | .child | .spurious => true
  | .use a => a.thread ≠ .other 0 ∨ s.pc = .started
  | .owner | .destruct => false

/-- One atomic step of one thread. `TcpServer` calls `start` once and `getNextLoop` after it. -/
def step (s : EventLoopThreadPool F) : Action F → Option (EventLoopThreadPool F)
  | .start => if s.pc = .ready then some { s with started_ := true, pc := .forLoop } else none
  | .owner => s.startNext
  | .thread k a =>
    if s.mayStep a then
      (s.threads_[k]?).bind fun t =>
        (t.step a).map fun t => { s with threads_ := s.threads_.set k t }
    else none
  | .getNextLoop =>
    if s.pc = .started then
      s.getNextLoop.map fun r => { s with next_ := r.2, dealt := s.dealt ++ [r.1] }
    else none

/-- No loop is quit from its own thread before `start` has it. -/
def QuitsLate (s : EventLoopThreadPool F) : Action F → Prop
  | .thread k a => ∀ t ∈ s.threads_[k]?, EventLoopThread.QuitsLate t a
  | .start | .owner | .getNextLoop => True

instance (s : EventLoopThreadPool F) (a : Action F) : Decidable (QuitsLate s a) :=
  match a with
  | .thread k _ => inferInstanceAs (Decidable (∀ t ∈ s.threads_[k]?, _))
  | .start | .owner | .getNextLoop => inferInstanceAs (Decidable True)

/-- The steps that `start` waits for: its own, and those of the thread that it has just made. -/
def inward (s : EventLoopThreadPool F) : Action F → Bool
  | .owner => true
  | .thread k a => k = s.loops_.length ∧ s.pc = .startLoop ∧ a.inward ∧
      s.current.any fun t => 0 < t.owner.left
  | .start | .getNextLoop => false

end EventLoopThreadPool

namespace EventLoopThread

structure Starting (t : EventLoopThread F) : Prop where
  prompt : Prompt t
  started : 0 < t.owner.left ∨ t.owner = .returned
  result : t.owner.asks = true ∨ t.result ≠ none

section
variable {t t' : EventLoopThread F}

theorem Starting.init (pid : Nat) : Starting ({ pid } : EventLoopThread F) :=
  ⟨⟨.init pid, .init pid, fun h => by cases h⟩, .inl (Owner.left_pos rfl), .inl rfl⟩

theorem Starting.step (hs : Starting t) (hq : QuitsLate t a) (ha : a ≠ .destruct)
    (h : t.step a = some t') : Starting t' := by
  suffices hn : (0 < t'.owner.left ∨ t'.owner = .returned) ∧
      (t'.owner.asks = true ∨ t'.result ≠ none) from ⟨hs.prompt.step hq h, hn.1, hn.2⟩
  have hnot {o : Owner} (ho : t.owner = o) (hleft : o.left = 0) (hreturned : o ≠ .returned) :
      False := by
    rcases hs.started with hpos | hret
    · rw [ho, hleft] at hpos
      cases hpos
    · exact hreturned (ho.symm.trans hret)
  cases Step.of_step h with
  | start | semWait | ownerLock | found | sleep | spurious =>
    exact ⟨.inl (Owner.left_pos rfl), .inl rfl⟩
  | loopRead => exact ⟨.inl (Nat.succ_pos 2), .inr (Option.some_ne_none _)⟩
  | ownerUnlock ho =>
    refine ⟨.inr rfl, .inr (hs.result.resolve_left ?_)⟩
    rw [ho]
    exact Bool.false_ne_true
  | exitingTrue ho | ifLoop ho | ifNull ho | quit ho | quitNull ho | quitDead ho | advance ho
  | advanceDead ho | quitDone ho | joinedTrue ho | join ho | ifDetach ho =>
    exact (hnot ho rfl fun hn => by cases hn).elim
  | notifyOne =>
    by_cases hw : t.owner = .wait
    · simp only [hw, ↓reduceIte]
      exact ⟨.inl (Owner.left_pos rfl), .inl rfl⟩
    · simp only [hw, ↓reduceIte]
      exact ⟨hs.started, hs.result⟩
  | destruct => exact (ha rfl).elim
  | tid | semPost | eventLoop | callback | childLock | publish | childUnlock | looped | loopNull
  | destroyLoop | use | useDead => exact ⟨hs.started, hs.result⟩

theorem Starting.returned (hs : Starting t) (ho : t.owner = .returned) : t.result = some true := by
  have hne : t.result ≠ none := by
    apply hs.result.resolve_left
    rw [ho]
    exact Bool.false_ne_true
  cases hr : t.result with
  | none => exact (hne hr).elim
  | some p =>
    cases p with
    | true => rfl
    | false => exact (hs.prompt.found hr).elim

end

end EventLoopThread

namespace EventLoopThreadPool

inductive Step (s : EventLoopThreadPool F) : Action F → EventLoopThreadPool F → Prop where
  | start : s.pc = .ready → Step s .start { s with started_ := true, pc := .forLoop }
  | newThread : s.pc = .forLoop → (s.threads_.length : Int) < s.numThreads_ → Step s .owner { s with
      threads_ := s.threads_ ++ [{ pid := s.pids s.threads_.length }], pc := .startLoop }
  | endFor : s.pc = .forLoop → ¬ (s.threads_.length : Int) < s.numThreads_ →
      Step s .owner { s with pc := .ifCallback }
  | startLoop : s.pc = .startLoop → s.current = some t → t.owner ≠ .returned →
      t.step .owner = some t' →
      Step s .owner { s with threads_ := s.threads_.set s.loops_.length t' }
  | pushBack : s.pc = .startLoop → s.current = some t → t.owner = .returned →
      Step s .owner { s with
        loops_ := s.loops_ ++ [if t.result = some true then some (.io s.loops_.length) else none]
        pc := .forLoop }
  | ifCallback : s.pc = .ifCallback → Step s .owner { s with
      baseCalls := if s.numThreads_ = 0 ∧ s.hasCallback then s.baseCalls + 1 else s.baseCalls
      pc := .started }
  | thread : s.mayStep a = true → s.threads_[k]? = some t → t.step a = some t' →
      Step s (.thread k a) { s with threads_ := s.threads_.set k t' }
  | getNextLoop : s.pc = .started → s.getNextLoop = some (loop, next) →
      Step s .getNextLoop { s with next_ := next, dealt := s.dealt ++ [loop] }

section
variable {s s' : EventLoopThreadPool F}

theorem Step.of_step (h : s.step a = some s') : Step s a s' := by
  cases a with
  | start =>
    simp only [step, Option.ite_none_right_eq_some, Option.some.injEq] at h
    obtain ⟨hpc, rfl⟩ := h
    exact .start hpc
  | owner =>
    simp only [step, startNext] at h
    split at h
    · cases h
    · cases h
    · rename_i hpc
      split at h
      · rename_i hlt
        cases h
        exact .newThread hpc hlt
      · rename_i hle
        cases h
        exact .endFor hpc hle
    · rename_i hpc
      obtain ⟨t, ht, h⟩ := Option.bind_eq_some_iff.1 h
      split at h
      · rename_i ho
        cases h
        exact .pushBack hpc ht ho
      · rename_i ho
        obtain ⟨t', hstep, rfl⟩ := Option.map_eq_some_iff.1 h
        exact .startLoop hpc ht ho hstep
    · rename_i hpc
      cases h
      exact .ifCallback hpc
  | thread k a =>
    simp only [step, Option.ite_none_right_eq_some] at h
    obtain ⟨hmay, h⟩ := h
    obtain ⟨t, ht, h⟩ := Option.bind_eq_some_iff.1 h
    obtain ⟨t', hstep, rfl⟩ := Option.map_eq_some_iff.1 h
    exact .thread hmay ht hstep
  | getNextLoop =>
    simp only [step, Option.ite_none_right_eq_some] at h
    obtain ⟨hpc, h⟩ := h
    obtain ⟨⟨loop, next⟩, hnext, rfl⟩ := Option.map_eq_some_iff.1 h
    exact .getNextLoop hpc hnext

/-- The loop that the pool deals when it has dealt `i` loops. -/
def turn (n i : Nat) : World.Loop := if n = 0 then .base else .io (i % n)

/-- As far as `start` has come, the loops are there. -/
structure Filling (n : Int) (c : Bool) (s : EventLoopThreadPool F) : Prop where
  chosen : s.numThreads_ = n ∧ s.hasCallback = c
  threads : ∀ t ∈ s.threads_, t.Starting
  size : s.threads_.length = s.loops_.length + if s.pc = .startLoop then 1 else 0
  le : s.threads_.length ≤ n.toNat
  loops : s.loops_ = (List.range s.loops_.length).map fun k => some (.io k)
  full : s.pc = .ifCallback ∨ s.pc = .started → s.threads_.length = n.toNat
  calls : s.baseCalls = if s.pc = .started ∧ n = 0 ∧ c = true then 1 else 0
  undealt : s.pc ≠ .started → s.dealt = [] ∧ s.next_ = 0
  next : s.loops_ ≠ [] → s.next_ = s.dealt.length % s.loops_.length
  dealt : s.dealt = (List.range s.dealt.length).map fun i => some (turn s.loops_.length i)

theorem Filling.init (n : Int) (c : Bool) (pids : Nat → Nat) :
    Filling n c ({ numThreads_ := n, hasCallback := c, pids } : EventLoopThreadPool F) where
  chosen := ⟨rfl, rfl⟩
  threads _ h := (List.not_mem_nil h).elim
  size := rfl
  le := Nat.zero_le _
  loops := rfl
  full h := by rcases h with h | h <;> cases h
  calls := rfl
  undealt _ := ⟨rfl, rfl⟩
  next h := (h rfl).elim
  dealt := rfl

theorem Filling.set (hf : Filling n c s) (ht : t.Starting) (k : Nat) :
    Filling n c { s with threads_ := s.threads_.set k t } := by
  have hthreads (u : EventLoopThread F) (hu : u ∈ s.threads_.set k t) : u.Starting := by
    rcases List.mem_or_eq_of_mem_set hu with hu | rfl
    · exact hf.threads u hu
    · exact ht
  have hlen : (s.threads_.set k t).length = s.threads_.length := List.length_set
  exact ⟨hf.chosen, hthreads, hlen.trans hf.size, hlen.symm ▸ hf.le, hf.loops,
    fun h => hlen.trans (hf.full h), hf.calls, hf.undealt, hf.next, hf.dealt⟩

theorem Filling.getNextLoop (hf : Filling n c s) :
    s.getNextLoop = some (some (turn s.loops_.length s.dealt.length),
      if s.loops_ = [] then s.next_ else (s.dealt.length + 1) % s.loops_.length) := by
  rw [EventLoopThreadPool.getNextLoop]
  by_cases hnil : s.loops_ = []
  · rw [if_pos hnil, if_pos hnil, hnil]
    rfl
  · have hlen : s.loops_.length ≠ 0 := fun h => hnil (List.length_eq_zero_iff.1 h)
    have hlt := Nat.mod_lt s.dealt.length (Nat.pos_of_ne_zero hlen)
    have hloop : s.loops_[s.next_]? = some (some (.io (s.dealt.length % s.loops_.length))) := by
      rw [hf.next hnil, hf.loops, List.getElem?_map, List.length_map, List.length_range,
        List.getElem?_range hlt]
      rfl
    rw [if_neg hnil, if_neg hnil, hloop, turn, if_neg hlen, hf.next hnil, Option.map_some,
      World.wrap_eq _ hlen]

theorem Filling.size_of_ne (hf : Filling n c s) (h : s.pc ≠ .startLoop) :
    s.threads_.length = s.loops_.length := by
  rw [hf.size, if_neg h, Nat.add_zero]

theorem Filling.calls_of_ne (hf : Filling n c s) (h : s.pc ≠ .started) : s.baseCalls = 0 := by
  rw [hf.calls, if_neg fun hn => h hn.1]

theorem Filling.step (hf : Filling n c s) (hq : QuitsLate s a) (h : s.step a = some s') :
    Filling n c s' := by
  obtain ⟨hnum, hcallback⟩ := hf.chosen
  cases Step.of_step h with
  | start hpc =>
    have hsize := hf.size_of_ne (by rw [hpc]; decide)
    have hcalls := hf.calls_of_ne (by rw [hpc]; decide)
    have hundealt := hf.undealt (by rw [hpc]; decide)
    exact { hf with
      size := by simp only [hsize, reduceCtorEq, ↓reduceIte, Nat.add_zero]
      full := fun h => by rcases h with h | h <;> cases h
      calls := by simp only [hcalls, reduceCtorEq, false_and, ↓reduceIte]
      undealt := fun _ => hundealt }
  | newThread hpc hlt =>
    have hsize := hf.size_of_ne (by rw [hpc]; decide)
    have hcalls := hf.calls_of_ne (by rw [hpc]; decide)
    have hundealt := hf.undealt (by rw [hpc]; decide)
    have hthreads (t : EventLoopThread F)
        (ht : t ∈ s.threads_ ++ [{ pid := s.pids s.threads_.length }]) : t.Starting := by
      rcases List.mem_append.1 ht with ht | ht
      · exact hf.threads t ht
      · rw [List.mem_singleton.1 ht]
        exact .init _
    exact { hf with
      threads := hthreads
      size := by simp only [List.length_append, List.length_singleton, hsize, ↓reduceIte]
      le := by
        rw [hnum] at hlt
        simp only [List.length_append, List.length_singleton]
        omega
      full := fun h => by rcases h with h | h <;> cases h
      calls := by simp only [hcalls, reduceCtorEq, false_and, ↓reduceIte]
      undealt := fun _ => hundealt }
  | endFor hpc hle =>
    have hsize := hf.size_of_ne (by rw [hpc]; decide)
    have hcalls := hf.calls_of_ne (by rw [hpc]; decide)
    have hundealt := hf.undealt (by rw [hpc]; decide)
    have hfull : s.threads_.length = n.toNat := by
      have hbound := hf.le
      rw [hnum] at hle
      omega
    exact { hf with
      size := by simp only [hsize, reduceCtorEq, ↓reduceIte, Nat.add_zero]
      full := fun _ => hfull
      calls := by simp only [hcalls, reduceCtorEq, false_and, ↓reduceIte]
      undealt := fun _ => hundealt }
  | startLoop hpc ht ho hstep =>
    have hmem := List.mem_of_getElem? ht
    exact hf.set ((hf.threads _ hmem).step (a := .owner) trivial (fun h => by cases h) hstep) _
  | pushBack hpc ht ho =>
    have hsize := hf.size
    have hcalls := hf.calls_of_ne (by rw [hpc]; decide)
    obtain ⟨hdealt, hnext⟩ := hf.undealt (by rw [hpc]; decide)
    have hresult := (hf.threads _ (List.mem_of_getElem? ht)).returned ho
    rw [if_pos hpc] at hsize
    rw [if_pos hresult]
    exact {
      chosen := hf.chosen
      threads := hf.threads
      size := by
        simp only [List.length_append, List.length_singleton, hsize, reduceCtorEq, ↓reduceIte,
          Nat.add_zero]
      le := hf.le
      loops := by
        simp only [List.length_append, List.length_singleton, List.range_succ, List.map_append,
          List.map_cons, List.map_nil]
        exact congrArg (· ++ _) hf.loops
      full := fun h => by rcases h with h | h <;> cases h
      calls := by simp only [hcalls, reduceCtorEq, false_and, ↓reduceIte]
      undealt := fun _ => ⟨hdealt, hnext⟩
      next := fun _ => by simp only [hdealt, hnext, List.length_nil, Nat.zero_mod]
      dealt := by
        simp only [hdealt]
        rfl }
  | ifCallback hpc =>
    have hsize := hf.size_of_ne (by rw [hpc]; decide)
    have hcalls := hf.calls_of_ne (by rw [hpc]; decide)
    exact { hf with
      size := by simp only [hsize, reduceCtorEq, ↓reduceIte, Nat.add_zero]
      full := fun _ => hf.full (.inl hpc)
      calls := by simp only [hcalls, hnum, hcallback, true_and, Nat.zero_add]
      undealt := fun h => (h rfl).elim }
  | @thread a k t t' hmay ht hstep =>
    have hdestruct : a ≠ .destruct := by
      rintro rfl
      cases hmay
    have hmem := List.mem_of_getElem? ht
    exact hf.set ((hf.threads _ hmem).step (hq t ht) hdestruct hstep) k
  | getNextLoop hpc hnext =>
    rw [hf.getNextLoop] at hnext
    cases hnext
    exact { hf with
      undealt := fun h => (h hpc).elim
      next := fun hne => by
        rw [if_neg hne, List.length_append, List.length_singleton]
      dealt := by
        simp only [List.length_append, List.length_singleton, List.range_succ, List.map_append,
          List.map_cons, List.map_nil]
        exact congrArg (· ++ _) hf.dealt }

theorem Filling.current (hf : Filling n c s) (hpc : s.pc = .startLoop) :
    ∃ t, s.current = some t ∧ t.Starting := by
  have hsize := hf.size
  rw [if_pos hpc] at hsize
  have hlt : s.loops_.length < s.threads_.length := hsize ▸ Nat.lt_succ_self _
  have ht : s.current = some s.threads_[s.loops_.length] := List.getElem?_eq_getElem hlt
  exact ⟨_, ht, hf.threads _ (List.mem_of_getElem? ht)⟩

theorem advances_thread {t u : EventLoopThread F} (hpc : s.pc = .startLoop)
    (ht : s.current = some t) (ho : 0 < t.owner.left) (ha : a.inward = true)
    (h : t.step a = some u) : ∃ b s', s.inward b = true ∧ s.step b = some s' := by
  have hreturned : t.owner ≠ .returned := by
    intro hr
    rw [hr] at ho
    cases ho
  have hany : s.current.any (fun t => 0 < t.owner.left) = true := by
    rw [ht]
    exact decide_eq_true ho
  have hthread (hmay : s.mayStep a = true) : ∃ b s', s.inward b = true ∧ s.step b = some s' := by
    refine ⟨.thread s.loops_.length a, { s with threads_ := s.threads_.set s.loops_.length u },
      decide_eq_true ⟨rfl, hpc, ha, hany⟩, ?_⟩
    have hget : s.threads_[s.loops_.length]? = some t := ht
    rw [step, if_pos hmay, hget, Option.bind_some, h, Option.map_some]
  cases a with
  | owner =>
    refine ⟨.owner, { s with threads_ := s.threads_.set s.loops_.length u }, rfl, ?_⟩
    simp only [step, startNext, hpc, ht, Option.bind_some, if_neg hreturned, h, Option.map_some]
  | child => exact hthread rfl
  | use b =>
    have hb : b.thread ≠ .other 0 := by
      cases b with
      | advance t =>
        cases t with
        | loop => exact fun h => by cases h
        | other => cases ha
      | _ => cases ha
    exact hthread (decide_eq_true (.inl hb))
  | spurious | destruct => cases ha

/-- `start` never waits for good. -/
theorem Filling.advances (hf : Filling n c s) (hready : s.pc ≠ .ready) (hdone : s.pc ≠ .started) :
    ∃ a s', s.inward a = true ∧ s.step a = some s' := by
  have howner (h : s.startNext.isSome = true) : ∃ a s', s.inward a = true ∧ s.step a = some s' := by
    obtain ⟨s', hs'⟩ := Option.isSome_iff_exists.1 h
    exact ⟨.owner, s', rfl, hs'⟩
  cases hpc : s.pc with
  | ready => exact (hready hpc).elim
  | started => exact (hdone hpc).elim
  | forLoop =>
    apply howner
    simp only [startNext, hpc]
    split <;> rfl
  | ifCallback =>
    apply howner
    simp only [startNext, hpc, Option.isSome_some]
  | startLoop =>
    obtain ⟨t, ht, hstarting⟩ := hf.current hpc
    rcases hstarting.started with ho | ho
    · obtain ⟨a, u, ha, hstep⟩ := hstarting.prompt.advances ho
      exact advances_thread hpc ht ho ha hstep
    · apply howner
      simp only [startNext, hpc, ht, Option.bind_some, if_pos ho, Option.isSome_some]

/-- How many inward steps there can be before `start` returns. -/
def left (s : EventLoopThreadPool F) : Nat :=
  52 * (s.numThreads_.toNat - s.threads_.length) +
    match s.pc with
    | .forLoop => 2
    | .startLoop => 3 + (s.current.map EventLoopThread.left).getD 0
    | .ifCallback => 1
    | .ready | .started => 0

theorem left_set {t u : EventLoopThread F} (hpc : s.pc = .startLoop) (ht : s.current = some t) :
    EventLoopThreadPool.left { s with threads_ := s.threads_.set s.loops_.length u } + t.left =
      s.left + u.left := by
  have hlen : s.loops_.length < s.threads_.length := (List.getElem?_eq_some_iff.1 ht).1
  have hcurrent : (s.threads_.set s.loops_.length u)[s.loops_.length]? = some u :=
    List.getElem?_set_self hlen
  simp only [left, hpc, EventLoopThreadPool.current, hcurrent, List.length_set]
  rw [EventLoopThreadPool.current] at ht
  rw [ht]
  simp only [Option.map_some, Option.getD_some]
  omega

theorem Filling.left_lt (hf : Filling n c s) (ha : s.inward a = true) (h : s.step a = some s') :
    s'.left < s.left := by
  cases Step.of_step h with
  | newThread hpc hlt =>
    have hsize := hf.size
    rw [hpc, if_neg (by decide), Nat.add_zero] at hsize
    have hcurrent : (s.threads_ ++ [{ pid := s.pids s.threads_.length }])[s.loops_.length]? =
        some { pid := s.pids s.threads_.length } := by
      rw [← hsize, List.getElem?_concat_length]
    have hnew := EventLoopThread.left_le (s := ({ pid := s.pids s.threads_.length } :
      EventLoopThread F))
    simp only [left, hpc, EventLoopThreadPool.current, hcurrent, List.length_append,
      List.length_singleton, Option.map_some, Option.getD_some]
    omega
  | endFor hpc =>
    simp only [left, hpc]
    omega
  | @startLoop t u hpc ht ho hstep =>
    have hstarting := hf.threads _ (List.mem_of_getElem? ht)
    have hpos := hstarting.started.resolve_right ho
    have hset := left_set (u := u) hpc ht
    have hlt := hstarting.prompt.sound.left_lt rfl hpos (EventLoopThread.Step.of_step hstep)
    omega
  | pushBack hpc =>
    simp only [left, hpc]
    omega
  | ifCallback hpc =>
    simp only [left, hpc]
    omega
  | @thread a k t u hmay ht hstep =>
    obtain ⟨rfl, hpc, hinward, hany⟩ := of_decide_eq_true ha
    have hstarting := hf.threads _ (List.mem_of_getElem? ht)
    have hcurrent : s.current = some _ := ht
    rw [hcurrent] at hany
    have hset := left_set (u := u) hpc ht
    have hlt := hstarting.prompt.sound.left_lt hinward (of_decide_eq_true hany)
      (EventLoopThread.Step.of_step hstep)
    omega
  | start | getNextLoop => cases ha

theorem left_set_of_ne {u : EventLoopThread F} (h : s.pc = .startLoop → k ≠ s.loops_.length) :
    EventLoopThreadPool.left { s with threads_ := s.threads_.set k u } = s.left := by
  simp only [left, EventLoopThreadPool.current, List.length_set]
  cases hpc : s.pc with
  | startLoop => rw [List.getElem?_set_ne (h hpc)]
  | ready | forLoop | ifCallback | started => rfl

/-- The other steps bring `start` five of its own farther from its end at most. -/
theorem Filling.left_le_add (hf : Filling n c s) (ha : s.inward a = false)
    (h : s.step a = some s') : s'.left ≤ s.left + 5 := by
  cases Step.of_step h with
  | start hpc =>
    simp only [left, hpc]
    omega
  | newThread | endFor | startLoop | pushBack | ifCallback => cases ha
  | @thread a k t u hmay ht hstep =>
    by_cases hk : s.pc = .startLoop → k ≠ s.loops_.length
    · exact Nat.le_trans (Nat.le_of_eq (left_set_of_ne hk)) (Nat.le_add_right _ 5)
    · rw [Classical.not_imp, not_not] at hk
      obtain ⟨hpc, rfl⟩ := hk
      have howner : a ≠ .owner := by
        rintro rfl
        cases hmay
      have hstarting := hf.threads _ (List.mem_of_getElem? ht)
      have hle := hstarting.prompt.sound.left_le_add howner (EventLoopThread.Step.of_step hstep)
      have hset := left_set (u := u) hpc ht
      omega
  | getNextLoop hpc =>
    simp only [left, hpc]
    omega

theorem Filling.left_le (hf : Filling n c s) : s.left ≤ 52 * n.toNat + 2 := by
  have hnum := hf.chosen.1
  have hle := hf.le
  cases hpc : s.pc with
  | startLoop =>
    obtain ⟨t, ht, -⟩ := hf.current hpc
    have hsize := hf.size
    rw [if_pos hpc] at hsize
    have hleft := EventLoopThread.left_le (s := t)
    simp only [left, hpc, ht, hnum, Option.map_some, Option.getD_some]
    omega
  | ready | forLoop | ifCallback | started =>
    simp only [left, hpc, hnum]
    omega

theorem Filling.started (hf : Filling n c s) (hpc : s.pc = .started) :
    s.loops_.length = n.toNat := by
  have hsize := hf.size_of_ne (by rw [hpc]; decide)
  exact hsize.symm.trans (hf.full (.inr hpc))

theorem Filling.getLoopForHash (hf : Filling n c s) (hashCode : Nat) :
    ∃ loop ∈ s.getAllLoops, loop ≠ none ∧ s.getLoopForHash hashCode = some loop := by
  rw [getAllLoops, EventLoopThreadPool.getLoopForHash]
  by_cases hnil : s.loops_ = []
  · rw [if_pos hnil, if_pos hnil]
    exact ⟨some .base, List.mem_singleton_self _, Option.some_ne_none _, rfl⟩
  · have hlen : s.loops_.length ≠ 0 := fun h => hnil (List.length_eq_zero_iff.1 h)
    have hlt := Nat.mod_lt hashCode (Nat.pos_of_ne_zero hlen)
    have hloop : s.loops_[hashCode % s.loops_.length]? =
        some (some (.io (hashCode % s.loops_.length))) := by
      rw [hf.loops, List.getElem?_map, List.length_map, List.length_range,
        List.getElem?_range hlt]
      rfl
    rw [if_neg hnil, if_neg hnil, hloop]
    exact ⟨_, List.mem_of_getElem? hloop, Option.some_ne_none _, rfl⟩

/-- `start` fills `loops_` if no loop is quit from its own thread before `start` has it. It never
waits for good: until it returns, one step of its own or of the newest thread is always possible,
and there are at most 52 of them for each thread, two more, and five for each other step. From then
on `getNextLoop` deals the loops one after another, as `World` has it, and `getLoopForHash` finds
one of them for every hash. -/
theorem start_fills_loops {n : Int} {c : Bool} {pids : Nat → Nat} {s : EventLoopThreadPool F}
    (h : Run step { numThreads_ := n, hasCallback := c, pids } as s)
    (hq : AllSteps step QuitsLate { numThreads_ := n, hasCallback := c, pids } as) :
    (s.pc ≠ .ready → s.pc ≠ .started → ∃ a t, s.inward a = true ∧ s.step a = some t) ∧
    (∀ bs t, Run step s bs t → AllSteps step QuitsLate s bs →
      tally step (fun u b => u.inward b) s bs ≤
        52 * n.toNat + 2 + 5 * tally step (fun u b => !u.inward b) s bs) ∧
    (s.pc = .started → s.loops_ = (List.range n.toNat).map (fun k => some (.io k)) ∧
      s.baseCalls = (if n = 0 ∧ c = true then 1 else 0) ∧ (∃ t, s.step .getNextLoop = some t) ∧
      ∀ hashCode, ∃ loop ∈ s.getAllLoops, loop ≠ none ∧ s.getLoopForHash hashCode = some loop) ∧
    ∀ config : World.Config, config.numThreads_ = n.toNat →
      s.dealt = (List.range s.dealt.length).map fun i => some (config.ioLoop i) := by
  have hf : Filling n c s := h.invariant_when hq (.init n c pids)
    fun _ _ _ hu hC hstep => hu.step hC hstep
  refine ⟨hf.advances, ?_, ?_, ?_⟩
  · intro bs t hrun hall
    have hbound := hrun.tally_le left (fun u b => u.inward b) 5 hall hf ?_
    · have hle := hf.left_le
      omega
    · intro u b v hu hC hstep
      refine ⟨hu.step hC hstep, ?_⟩
      cases hb : u.inward b with
      | true => exact hu.left_lt hb hstep
      | false => exact hu.left_le_add hb hstep
  · intro hpc
    refine ⟨hf.started hpc ▸ hf.loops, ?_, ?_, hf.getLoopForHash⟩
    · have hcalls := hf.calls
      simp only [hpc, true_and] at hcalls
      exact hcalls
    · simp only [step, if_pos hpc, hf.getNextLoop, Option.map_some]
      exact ⟨_, rfl⟩
  · intro config hconfig
    by_cases hpc : s.pc = .started
    · have hdealt := hf.dealt
      rw [hf.started hpc, ← hconfig] at hdealt
      exact hdealt
    · rw [(hf.undealt hpc).1]
      rfl

end

/-- A thread starts, `start` waits for it once, and the thread enters its loop. -/
def startingThread (k : Nat) : List (Action Nat) :=
  [.owner, .owner, .thread k .child, .thread k .child, .owner, .owner, .owner] ++
    List.replicate 6 (.thread k .child) ++ [.owner, .owner, .owner, .owner, .owner]

def startingTwo : List (Action Nat) :=
  [.start] ++ startingThread 0 ++ startingThread 1 ++ [.owner, .owner] ++
    [.getNextLoop, .getNextLoop, .getNextLoop]

theorem start_fills_loops_example : ∃ s, Run step
    { numThreads_ := 2, hasCallback := true, pids := fun k => 7 + k } startingTwo s ∧
      s.loops_ = [some (.io 0), some (.io 1)] ∧ s.baseCalls = 0 ∧ s.dealt.length = 3 := by
  have hrun : (exec step ({ numThreads_ := 2, hasCallback := true, pids := fun k => 7 + k } :
      EventLoopThreadPool Nat) startingTwo).any
        (fun s => s.pc = .started ∧ s.dealt.length = 3) = true := by
    decide +kernel
  obtain ⟨s, hs, hp⟩ := Run.of_exec_any hrun
  obtain ⟨hpc, hlen⟩ := of_decide_eq_true hp
  obtain ⟨-, -, hstarted, -⟩ := start_fills_loops hs (by decide +kernel)
  obtain ⟨hloops, hcalls, -, -⟩ := hstarted hpc
  exact ⟨s, hs, hloops, hcalls, hlen⟩

end EventLoopThreadPool
end MuduoStudy
