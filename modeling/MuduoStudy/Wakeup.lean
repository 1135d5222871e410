import MuduoStudy.FunctorQueue
import MuduoStudy.Poller

namespace MuduoStudy
open Transition
set_option autoImplicit true

namespace EventLoop

/-- The locations at which `callingPendingFunctors_` is set. -/
def Pc.calling : Pc → Bool
  | .lock | .swap | .unlock | .forFunctors | .functor | .callingFalse => true
  | _ => false

/-- The locations from which the loop's thread reaches its swap before it polls again. -/
def Pc.swapsNext : Pc → Bool
  | .handleEvents _ | .callingTrue | .lock | .swap => true
  | _ => false

/-- A `queueInloop` call is between its push and its wakeup. -/
def Call.wakes : Call F → Bool
  | .ifWakeup _ | .wakeup _ => true
  | _ => false

/-- `callingPendingFunctors_` is set where it should be. -/
def Flagged (s : EventLoop F) : Prop := s.callingPendingFunctors_ = s.pc.calling

theorem Flagged.step {s s' : EventLoop F} (hf : Flagged s) (h : s.step a = some s') :
    Flagged s' := by
  cases Step.of_step h with
  | callingTrue | callingFalse => rfl
  | publish hpc | loopingTrue hpc | quitFalse hpc | leave hpc | iterate hpc | handled hpc
  | lockSwap hpc | swap hpc | unlockSwap hpc | endFunctors hpc | callFunctor hpc
  | functorReturns hpc | loopingFalse hpc | poll hpc | handleRead hpc =>
    rw [Flagged, hpc] at hf
    exact hf
  | queueInloop | quit | lock | emplaceBack | ifWakeup | wakeup | unlock | quitTrue
  | quitInLoop | ifQuitWakeup | quitWakeup => exact hf

/-- A functor that waits makes `poll` return, or the call that queued it still has to see to
that, or the loop's thread takes it before it polls. -/
structure Awake (s : EventLoop F) : Prop where
  started : s.pc ≠ .threadFunc
  wake : s.pendingFunctors_ ≠ [] →
    0 < s.wakeupFd_ ∨ (∃ t, (s.call t).wakes = true) ∨ s.pc.swapsNext = true

theorem Awake.of_empty {s : EventLoop F} (hpc : s.pc ≠ .threadFunc)
    (h : s.pendingFunctors_ = [] ∨ 0 < s.wakeupFd_) : Awake s :=
  ⟨hpc, fun hn => .inl (h.resolve_left hn)⟩

theorem Awake.moves {s s' : EventLoop F} (ha : Awake s) (hpc : s'.pc ≠ .threadFunc)
    (hpending : s'.pendingFunctors_ = s.pendingFunctors_) (hfd : s'.wakeupFd_ = s.wakeupFd_)
    (hcall : s'.call = s.call)
    (hnext : s.pc.swapsNext = true → s'.pc.swapsNext = true) : Awake s' := by
  refine ⟨hpc, ?_⟩
  rw [hpending, hfd, hcall]
  intro hn
  rcases ha.wake hn with hpos | hcalls | hswap
  · exact .inl hpos
  · exact .inr (.inl hcalls)
  · exact .inr (.inr (hnext hswap))

theorem Awake.calls {s s' : EventLoop F} (ha : Awake s) (hpc : s'.pc = s.pc)
    (hpending : s'.pendingFunctors_ = s.pendingFunctors_) (hfd : s.wakeupFd_ ≤ s'.wakeupFd_)
    (hcall : s'.call = Function.update s.call t c) (hc : (s.call t).wakes = false) : Awake s' := by
  refine ⟨hpc ▸ ha.started, ?_⟩
  rw [hpending, hcall, hpc]
  intro hn
  rcases ha.wake hn with hpos | ⟨u, hu⟩ | hswap
  · exact .inl (Nat.lt_of_lt_of_le hpos hfd)
  · have hut : u ≠ t := by
      intro he
      rw [he, hc] at hu
      cases hu
    exact .inr (.inl ⟨u, by rwa [Function.update_of_ne hut]⟩)
  · exact .inr (.inr hswap)

theorem ifWakeup_eq {s s' : EventLoop F} (hc : s.call t = .ifWakeup k)
    (h : s.step (.advance t) = some s') : s' = s.setCall t
      (if t ≠ .loop ∨ s.callingPendingFunctors_ then .wakeup k else .unlock k) := by
  simp only [step, advance, hc, Option.some.injEq] at h
  exact h.symm

/-- A call that does without a wakeup runs in an event handler. -/
theorem Awake.ifWakeup {s s' : EventLoop F} (hi : Exclusive s) (hf : Flagged s) (ha : Awake s)
    (hc : s.call t = .ifWakeup k) (h : s.step (.advance t) = some s') : Awake s' := by
  rw [ifWakeup_eq hc h]
  split
  · have hwakes : ((s.setCall t (.wakeup k)).call t).wakes = true := by
      simp only [setCall, Function.update_self, Call.wakes]
    exact ⟨ha.started, fun _ => .inr (.inl ⟨t, hwakes⟩)⟩
  · rename_i hskip
    have htl : t = .loop := by
      by_contra htl
      exact hskip (.inl htl)
    have hcalling : s.pc.calling = false := by
      rw [← hf]
      exact Bool.eq_false_iff.2 fun ht => hskip (.inr ht)
    have hmay : s.mayCall .loop = true := by
      apply hi.idle
      rw [← htl, hc]
      intro hn
      cases hn
    have hstarted := ha.started
    have hswap : s.pc.swapsNext = true := by
      cases hpc : s.pc with
      | handleEvents wake => rfl
      | threadFunc => exact (hstarted hpc).elim
      | functor =>
        rw [hpc] at hcalling
        cases hcalling
      | _ =>
        simp only [mayCall, hpc] at hmay
        cases hmay
    exact ⟨ha.started, fun _ => .inr (.inr hswap)⟩

theorem Awake.step {s s' : EventLoop F} (hi : Exclusive s) (hq : Queued s) (hf : Flagged s)
    (ha : Awake s) (h : s.step a = some s') : Awake s' := by
  cases Step.of_step h with
  | publish hpc => exact (ha.started hpc).elim
  | poll | handleRead => exact ⟨nofun, fun _ => .inr (.inr rfl)⟩
  | handled | callingTrue | lockSwap =>
    exact ha.moves nofun rfl rfl rfl fun _ => rfl
  | swap hpc =>
    refine ⟨nofun, fun hn => (hn ?_).elim⟩
    exact hq.batch (by rw [hpc]; rfl)
  | loopingTrue hpc | quitFalse hpc | leave hpc | iterate hpc | unlockSwap hpc | endFunctors hpc
  | callFunctor hpc | functorReturns hpc | callingFalse hpc | loopingFalse hpc =>
    refine ha.moves nofun rfl rfl rfl fun hn => ?_
    rw [hpc] at hn
    cases hn
  | @emplaceBack t =>
    refine ⟨ha.started, fun _ => .inr (.inl ⟨t, ?_⟩)⟩
    simp only [setCall, Function.update_self, Call.wakes]
  | ifWakeup hc => exact ha.ifWakeup hi hf hc h
  | wakeup => exact ⟨ha.started, fun _ => .inl (eventfdWrite_pos _)⟩
  | quitWakeup => exact ⟨ha.started, fun _ => .inl (eventfdWrite_pos _)⟩
  | queueInloop hc | quit hc | lock hc | unlock hc | quitTrue hc | quitInLoop hc
  | ifQuitWakeup hc => exact ha.calls rfl rfl (Nat.le_refl _) rfl (by rw [hc]; rfl)

end EventLoop

/-- A loop with its poller. `none` stands for `wakeupChannel_`, which is private to the loop. -/
structure Reactor (F : Type u) (ι : Type v) where
  loop : EventLoop F
  channels : Channels (Option ι)

namespace Reactor
variable {F : Type u} {ι : Type v} [DecidableEq ι]

/-- The constructor's last statement. -/
def init (self fd : Option ι → Nat) : Option (Reactor F ι) :=
  ((Channels.init self fd).step (none, .enableReading)).map fun channels => ⟨{}, channels⟩

/-- `wakeupChannel_` is registered, and one of the events it waits for is that it can be read. -/
def wakeupReadable (s : Reactor F ι) : Bool :=
  (s.channels.poller_.interest (s.channels.channel none).fd_).any fun entry =>
    entry.1 &&& POLLIN ≠ 0

inductive Action (F : Type u) (ι : Type v) where
  | loop (a : EventLoop.Action F)
  -- one of the loop's other channels changes what it waits for
  | channel (i : ι) (op : Channel.Op)
  -- the loop's thread calls `loop` again
  | again

/-- `poll` finds `wakeupChannel_` active only if it waits for that. -/
def step (s : Reactor F ι) : Action F ι → Option (Reactor F ι)
  | .loop (.poll true) =>
    if s.wakeupReadable then (s.loop.step (.poll true)).map fun l => { s with loop := l } else none
  | .loop a => (s.loop.step a).map fun l => { s with loop := l }
  | .channel i op => (s.channels.step (some i, op)).map fun c => { s with channels := c }
  | .again =>
    if s.loop.pc = .returned then some { s with loop := { s.loop with pc := .loopingTrue } }
    else none

inductive Step (s : Reactor F ι) : Reactor F ι → Prop where
  | loop : s.loop.step a = some l → Step s { s with loop := l }
  | channel : s.channels.step (some i, op) = some c → Step s { s with channels := c }
  | again : s.loop.pc = .returned →
      Step s { s with loop := { s.loop with pc := .loopingTrue } }

theorem Step.of_step {s s' : Reactor F ι} (h : s.step a = some s') : Step s s' := by
  cases a with
  | loop b =>
    have hloop : ∃ l, s.loop.step b = some l ∧ { s with loop := l } = s' := by
      unfold Reactor.step at h
      split at h
      · rename_i heq
        cases heq
        rw [Option.ite_none_right_eq_some] at h
        exact Option.map_eq_some_iff.1 h.2
      · rename_i heq
        cases heq
        exact Option.map_eq_some_iff.1 h
      · rename_i heq
        cases heq
      · rename_i heq
        cases heq
    obtain ⟨l, hl, rfl⟩ := hloop
    exact .loop hl
  | channel i op =>
    simp only [Reactor.step] at h
    obtain ⟨c, hc, rfl⟩ := Option.map_eq_some_iff.1 h
    exact .channel hc
  | again =>
    simp only [Reactor.step, Option.ite_none_right_eq_some, Option.some.injEq] at h
    obtain ⟨hpc, rfl⟩ := h
    exact .again hpc

/-- What holds whenever the loop is used: the loop's own invariants, and `wakeupChannel_` as the
constructor has left it. -/
structure Sound (wakeup : Channel) (s : Reactor F ι) : Prop where
  exclusive : EventLoop.Exclusive s.loop
  queued : EventLoop.Queued s.loop
  flagged : EventLoop.Flagged s.loop
  faithful : s.channels.Faithful
  wakeup : s.channels.channel none = wakeup

theorem Sound.init {self fd : Option ι → Nat} {s : Reactor F ι} (hfd : Function.Injective fd)
    (h : Reactor.init self fd = some s) :
    Sound ⟨self none, fd none, Channel.kReadEvent, .kAdded⟩ s := by
  obtain ⟨c, hc, rfl⟩ := Option.map_eq_some_iff.1 h
  have hinit : (Channels.init self fd).Faithful := .init hfd
  have hevents : Channel.Op.enableReading.events 0 = Channel.kReadEvent := BitVec.zero_or
  have hwakeup : c.channel none = ⟨self none, fd none, Channel.kReadEvent, .kAdded⟩ := by
    rw [hinit.step_self hc, ← hevents]
    rfl
  exact ⟨.init, .init, rfl, hinit.step hc, hwakeup⟩

theorem Sound.step {w : Channel} {s s' : Reactor F ι} (hs : Sound w s) (h : s.step a = some s') :
    Sound w s' := by
  cases Step.of_step h with
  | loop hl =>
    exact ⟨hs.exclusive.step hl, hs.queued.step hs.exclusive hl, hs.flagged.step hl, hs.faithful,
      hs.wakeup⟩
  | @channel i op c hc =>
    have hne : (none : Option ι) ≠ some i := (Option.some_ne_none i).symm
    exact ⟨hs.exclusive, hs.queued, hs.flagged, hs.faithful.step hc,
      (hs.faithful.step_of_ne hc hne).trans hs.wakeup⟩
  | again hpc =>
    have hidle := hs.exclusive.idle_of_pc (by simp [EventLoop.mayCall, hpc])
    have hflagged := hs.flagged
    rw [EventLoop.Flagged, hpc] at hflagged
    have hbatch := hs.queued.batch (by rw [hpc]; rfl)
    refine ⟨hs.exclusive.moves hidle rfl rfl (by simp) (by simp),
      ⟨hs.queued.fifo, hs.queued.pushing, fun _ => hbatch, fun hn => ?_⟩, hflagged, hs.faithful,
      hs.wakeup⟩
    cases hn

theorem Sound.awake {w : Channel} {s s' : Reactor F ι} (hs : Sound w s)
    (ha : EventLoop.Awake s.loop) (h : s.step a = some s') : EventLoop.Awake s'.loop := by
  cases Step.of_step h with
  | loop hl => exact ha.step hs.exclusive hs.queued hs.flagged hl
  | channel => exact ha
  | again hpc =>
    refine ha.moves nofun rfl rfl rfl fun hn => ?_
    rw [hpc] at hn
    cases hn

theorem Sound.run {w : Channel} {s t : Reactor F ι} (hs : Sound w s)
    (h : Run Reactor.step s as t) : Sound w t :=
  h.invariant hs fun _ _ _ hs => hs.step

omit [DecidableEq ι] in
theorem Sound.unlocked {w : Channel} {s : Reactor F ι} (hs : Sound w s)
    (hm : s.loop.mutex_ = none) (t : EventLoop.Thread) : (s.loop.call t).wakes = false := by
  have hfree := hs.exclusive.free hm t
  cases hc : s.loop.call t with
  | ifWakeup k | wakeup k =>
    rw [hc] at hfree
    cases hfree
  | idle | lock | emplaceBack | unlock | quitTrue | ifQuitWakeup | quitWakeup => rfl

/-- A functor that waits while the loop's thread is at `poll` has woken the loop: the counter of
the eventfd is positive, and the kernel watches the eventfd for reading. -/
theorem no_lost_wakeup {self fd : Option ι → Nat} {s₀ s t : Reactor F ι}
    (hfd : Function.Injective fd) (hinit : Reactor.init self fd = some s₀)
    (hbefore : Run Reactor.step s₀ as s) (hpc : s.loop.pc = .loopingTrue)
    (hentry : s.loop.pendingFunctors_ = [] ∨ 0 < s.loop.wakeupFd_)
    (h : Run Reactor.step s bs t) (hpoll : t.loop.pc = .poll)
    (hpending : t.loop.pendingFunctors_ ≠ []) (hcalls : ∀ u, (t.loop.call u).wakes = false) :
    0 < t.loop.wakeupFd_ ∧
    t.channels.poller_.interest (fd none) = some (Channel.kReadEvent, self none) ∧
    ∃ t', t.step (.loop (.poll true)) = some t' := by
  have hs := (Sound.init hfd hinit).run hbefore
  have hstarted : s.loop.pc ≠ .threadFunc := by
    rw [hpc]
    nofun
  obtain ⟨ht, hawake⟩ := h.invariant
    (P := fun t => Sound ⟨self none, fd none, Channel.kReadEvent, .kAdded⟩ t ∧
      EventLoop.Awake t.loop)
    ⟨hs, .of_empty hstarted hentry⟩
    fun _ _ _ hu hstep => ⟨hu.1.step hstep, hu.1.awake hu.2 hstep⟩
  have hpos : 0 < t.loop.wakeupFd_ := by
    rcases hawake.wake hpending with hpos | ⟨u, hu⟩ | hswap
    · exact hpos
    · exact (Bool.false_ne_true ((hcalls u).symm.trans hu)).elim
    · rw [hpoll] at hswap
      cases hswap
  have hinterest := (ht.faithful.mirrors none).interest
  rw [ht.wakeup, if_pos rfl] at hinterest
  have hreadable : t.wakeupReadable = true := by
    have hbit : Channel.kReadEvent &&& POLLIN ≠ 0 := by decide
    rw [wakeupReadable, ht.wakeup, hinterest]
    exact decide_eq_true hbit
  refine ⟨hpos, hinterest, ?_⟩
  simp only [Reactor.step, hreadable, ↓reduceIte, EventLoop.step, hpoll, hpos, implies_true,
    and_self, Option.map_some, Option.some.injEq, exists_eq']

/-- The loop's thread goes to `poll`, where another thread queues functor 7. -/
def queueAtPoll : List (Action Nat Unit) :=
  [.loop .loop, .loop .loop, .loop .loop, .channel () .enableReading,
    .loop (.queueInloop (.other 0) 7), .loop (.advance (.other 0)), .loop (.advance (.other 0)),
    .loop (.advance (.other 0)), .loop (.advance (.other 0)), .loop (.advance (.other 0))]

theorem no_lost_wakeup_example : ∃ s t : Reactor Nat Unit, Run Reactor.step s queueAtPoll t ∧
    t.loop.pendingFunctors_ = [7] ∧ 0 < t.loop.wakeupFd_ := by
  let fd (i : Option Unit) : Nat := if i = none then 4 else 5
  have hfd : Function.Injective fd := by
    intro i j h
    cases i <;> cases j <;> first | rfl | cases h
  have hrun : ((Reactor.init fd fd).bind fun s₀ => (exec Reactor.step s₀ [.loop .loop]).bind
      fun s => if s.loop.pc = .loopingTrue ∧ s.loop.pendingFunctors_ = [] then
        exec Reactor.step s queueAtPoll else none).any (fun t => t.loop.pc = .poll ∧
          t.loop.pendingFunctors_ = [7] ∧ t.loop.mutex_ = none) = true := by
    decide +kernel
  obtain ⟨t, ht, hp⟩ := (Option.any_eq_true _ _).1 hrun
  obtain ⟨s₀, hinit, ht⟩ := Option.bind_eq_some_iff.1 ht
  obtain ⟨s, hs, ht⟩ := Option.bind_eq_some_iff.1 ht
  obtain ⟨⟨hpc, hempty⟩, ht⟩ := Option.ite_none_right_eq_some.1 ht
  obtain ⟨hpoll, hpending, hmutex⟩ := of_decide_eq_true hp
  have hsound := ((Sound.init hfd hinit).run (.of_exec hs)).run (.of_exec ht)
  have hpos := (no_lost_wakeup hfd hinit (.of_exec hs) hpc (.inl hempty) (.of_exec ht) hpoll
    (by rw [hpending]; nofun) (hsound.unlocked hmutex)).1
  exact ⟨s, t, .of_exec ht, hpending, hpos⟩

end Reactor
end MuduoStudy
