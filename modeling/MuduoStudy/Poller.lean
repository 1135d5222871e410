import MuduoStudy.Epoller
import MuduoStudy.Transition

namespace MuduoStudy
open Transition
set_option autoImplicit true

namespace Channel

/-- The operations of a channel that reach its poller. -/
inductive Op where
  | enableReading
  | disableReading
  | enableWriting
  | disableWriting
  | disableAll
  | remove
  deriving DecidableEq, Repr

def Op.events (events : Events) : Op → Events
  | .enableReading => events ||| kReadEvent
  | .disableReading => events &&& ~~~kReadEvent
  | .enableWriting => events ||| kWriteEvent
  | .disableWriting => events &&& ~~~kWriteEvent
  | .disableAll => kNoneEvent
  | .remove => events

/-- The operation: `events_` is set, then comes `Channel::update` or `Channel::remove`. -/
def Op.run (op : Op) (p : Eepoller) (c : Channel) : Eepoller × Channel :=
  if op = .remove then p.removeChannel c
  else p.updateChannel { c with events_ := op.events c.events_ }

def Op.index (op : Op) (c : Channel) : Index :=
  if op = .remove then .kNew
  else if c.index_ = .kAdded ∧ op.events c.events_ = kNoneEvent then .kDeleted
  else .kAdded

def Op.after (op : Op) (c : Channel) : Channel :=
  { c with events_ := op.events c.events_, index_ := op.index c }

end Channel

namespace Eepoller
open Channel

/-- The poller, changed at one descriptor to what the channel's `index_` says. -/
def mirror (p : Eepoller) (c : Channel) : Eepoller :=
  { p with
    channels_ := Function.update p.channels_ c.fd_
      (if c.index_ = .kNew then none else some c.self)
    interest := Function.update p.interest c.fd_
      (if c.index_ = .kAdded then some (c.events_, c.self) else none) }

theorem mirrors_mirror (p : Eepoller) (c : Channel) : (p.mirror c).Mirrors c :=
  ⟨Function.update_self .., Function.update_self ..⟩

theorem Mirrors.mirror_of_ne {p : Eepoller} {c d : Channel} (h : p.Mirrors d)
    (hd : d.fd_ ≠ c.fd_) : (p.mirror c).Mirrors d := by
  refine ⟨?_, ?_⟩
  · exact (Function.update_of_ne hd _ _).trans h.channels
  · exact (Function.update_of_ne hd _ _).trans h.interest

theorem Mirrors.run_eq {p : Eepoller} {c : Channel} (h : p.Mirrors c) (op : Op) :
    op.run p c = (p.mirror (op.after c), op.after c) := by
  by_cases hr : op = .remove
  · subst op
    exact h.removeChannel_eq
  · have hindex : op.index c =
        if c.index_ = .kAdded ∧ op.events c.events_ = kNoneEvent then .kDeleted else .kAdded :=
      if_neg hr
    rw [Op.run, if_neg hr, h.updateChannel_eq, Op.after, mirror, hindex]
    split
    · rfl
    · rfl

end Eepoller

/-- The channels of one loop with the loop's poller. -/
structure Channels (ι : Type u) where
  poller_ : Eepoller := {}
  channel : ι → Channel

namespace Channels
variable {ι : Type u}

def init (self fd : ι → Nat) : Channels ι where
  channel i := { self := self i, fd_ := fd i }

def step [DecidableEq ι] (s : Channels ι) : ι × Channel.Op → Option (Channels ι)
  | (i, op) =>
    let done := op.run s.poller_ (s.channel i)
    some { poller_ := done.1, channel := Function.update s.channel i done.2 }

/-- The poller and the kernel know of every channel what its `index_` says, and of nothing
else. -/
structure Faithful (s : Channels ι) : Prop where
  apart : Function.Injective fun i => (s.channel i).fd_
  mirrors : ∀ i, s.poller_.Mirrors (s.channel i)
  deleted : ∀ i, (s.channel i).index_ = .kDeleted → (s.channel i).events_ = Channel.kNoneEvent
  owned : ∀ fd entry, s.poller_.interest fd = some entry → ∃ i, (s.channel i).fd_ = fd
  failed : s.poller_.failed = 0

theorem Faithful.init {self fd : ι → Nat} (h : Function.Injective fd) :
    Faithful (Channels.init self fd) :=
  ⟨h, fun _ => ⟨rfl, rfl⟩, fun _ => nofun, fun _ _ => nofun, rfl⟩

variable [DecidableEq ι]

theorem Faithful.step_eq {s s' : Channels ι} (hf : Faithful s) (h : s.step (i, op) = some s') :
    s' = ⟨s.poller_.mirror (op.after (s.channel i)),
      Function.update s.channel i (op.after (s.channel i))⟩ := by
  rw [← Option.some.inj h, (hf.mirrors i).run_eq]

theorem Faithful.step_self {s s' : Channels ι} (hf : Faithful s)
    (h : s.step (i, op) = some s') : s'.channel i = op.after (s.channel i) := by
  rw [hf.step_eq h]
  exact Function.update_self i _ _

theorem Faithful.step_of_ne {s s' : Channels ι} (hf : Faithful s) (h : s.step (i, op) = some s')
    (hj : j ≠ i) : s'.channel j = s.channel j := by
  rw [hf.step_eq h]
  exact Function.update_of_ne hj _ _

theorem Faithful.same {s s' : Channels ι} (hf : Faithful s) (h : s.step (i, op) = some s') (j : ι) :
    (s'.channel j).fd_ = (s.channel j).fd_ ∧ (s'.channel j).self = (s.channel j).self := by
  by_cases hj : j = i
  · subst j
    rw [hf.step_self h]
    exact ⟨rfl, rfl⟩
  · rw [hf.step_of_ne h hj]
    exact ⟨rfl, rfl⟩

theorem deleted_after {op : Channel.Op} (c : Channel) (h : (op.after c).index_ = .kDeleted) :
    (op.after c).events_ = Channel.kNoneEvent := by
  have hindex : op.index c = .kDeleted := h
  rw [Channel.Op.index] at hindex
  split at hindex
  · cases hindex
  · split at hindex
    · rename_i hnone
      exact hnone.2
    · cases hindex

theorem Faithful.step {s s' : Channels ι} (hf : Faithful s) (h : s.step (i, op) = some s') :
    Faithful s' := by
  have hfd (j : ι) : (s'.channel j).fd_ = (s.channel j).fd_ := (hf.same h j).1
  have hpoller : s'.poller_ = s.poller_.mirror (op.after (s.channel i)) := by rw [hf.step_eq h]
  refine ⟨?_, ?_, ?_, ?_, ?_⟩
  · simp only [hfd]
    exact hf.apart
  · intro j
    rw [hpoller]
    by_cases hj : j = i
    · subst j
      rw [hf.step_self h]
      exact Eepoller.mirrors_mirror _ _
    · rw [hf.step_of_ne h hj]
      exact (hf.mirrors j).mirror_of_ne fun he => hj (hf.apart he)
  · intro j
    by_cases hj : j = i
    · subst j
      rw [hf.step_self h]
      exact deleted_after _
    · rw [hf.step_of_ne h hj]
      exact hf.deleted j
  · intro fd entry hentry
    rw [hpoller] at hentry
    by_cases hi : fd = (s.channel i).fd_
    · exact ⟨i, (hfd i).trans hi.symm⟩
    · have hold : s.poller_.interest fd = some entry :=
        (Function.update_of_ne hi _ _).symm.trans hentry
      obtain ⟨j, hj⟩ := hf.owned fd entry hold
      exact ⟨j, (hfd j).trans hj⟩
  · rw [hpoller]
    exact hf.failed

theorem Faithful.run {s s' : Channels ι} (hf : Faithful s) (h : Run Channels.step s ops s') :
    Faithful s' :=
  h.invariant hf fun _ _ _ hs => hs.step

theorem Faithful.same_run {s s' : Channels ι} (hf : Faithful s) (h : Run Channels.step s ops s')
    (j : ι) : (s'.channel j).fd_ = (s.channel j).fd_ ∧
      (s'.channel j).self = (s.channel j).self := by
  induction h with
  | nil => exact ⟨rfl, rfl⟩
  | cons hs hr ih =>
    obtain ⟨hfd, hself⟩ := hf.same hs j
    obtain ⟨hfd', hself'⟩ := ih (hf.step hs)
    exact ⟨hfd'.trans hfd, hself'.trans hself⟩

/-- The kernel's interest set, the poller's map and the channels' own marks agree behind every
operation, and the kernel refuses none. -/
theorem poller_mirrors_kernel {self fd : ι → Nat} (hfd : Function.Injective fd)
    (h : Run Channels.step (Channels.init self fd) ops s) :
    (∀ i, (s.poller_.interest (fd i) ≠ none ↔ (s.channel i).index_ = .kAdded) ∧
      ((s.channel i).index_ = .kAdded →
        s.poller_.interest (fd i) = some ((s.channel i).events_, self i)) ∧
      (s.poller_.hasChannel (s.channel i) = true ↔
        (s.channel i).index_ = .kAdded ∨ (s.channel i).index_ = .kDeleted) ∧
      ((s.channel i).index_ = .kDeleted → (s.channel i).events_ = Channel.kNoneEvent)) ∧
    (∀ n, s.poller_.interest n ≠ none → ∃ i, fd i = n) ∧ s.poller_.failed = 0 := by
  have hinit : Faithful (Channels.init self fd) := .init hfd
  have hf := hinit.run h
  have hsame := hinit.same_run h
  refine ⟨?_, ?_, hf.failed⟩
  · intro i
    obtain ⟨hfd, hself⟩ := hsame i
    have hm := hf.mirrors i
    have hinterest := hm.interest
    rw [hfd, hself] at hinterest
    change s.poller_.interest (fd i) = _ at hinterest
    refine ⟨?_, ?_, ?_, hf.deleted i⟩
    · rw [hinterest]
      split
      · exact ⟨fun _ => ‹_›, fun _ => nofun⟩
      · exact ⟨fun hn => (hn rfl).elim, fun hn => (‹¬ _› hn).elim⟩
    · intro hindex
      rw [hinterest, if_pos hindex]
      rfl
    · rw [hm.hasChannel]
      cases (s.channel i).index_ with
      | kNew => exact ⟨fun hn => (hn rfl).elim, fun hn => hn.elim nofun nofun⟩
      | kAdded => exact ⟨fun _ => .inl rfl, fun _ => nofun⟩
      | kDeleted => exact ⟨fun _ => .inr rfl, fun _ => nofun⟩
  · intro n hn
    obtain ⟨entry, hentry⟩ := Option.ne_none_iff_exists'.1 hn
    obtain ⟨i, hi⟩ := hf.owned n entry hentry
    exact ⟨i, (hsame i).1.symm.trans hi⟩

/-- Two channels, one of them enabled again and the other removed. -/
theorem poller_mirrors_kernel_example : ∃ s,
    Run Channels.step (Channels.init (fun b : Bool => cond b 2 1) fun b => cond b 7 5)
      [(false, .enableReading), (true, .enableReading), (false, .disableAll),
        (false, .enableWriting), (true, .remove)] s ∧
      s.poller_.interest 5 = some (Channel.kWriteEvent, 1) ∧ s.poller_.interest 7 = none ∧
        s.poller_.failed = 0 := by
  have hfd : Function.Injective fun b : Bool => cond b 7 5 := by
    intro b c h
    cases b <;> cases c <;> first | rfl | cases h
  have hrun : (exec Channels.step
      (Channels.init (fun b : Bool => cond b 2 1) fun b => cond b 7 5)
      [(false, .enableReading), (true, .enableReading), (false, .disableAll),
        (false, .enableWriting), (true, .remove)]).any (fun s =>
          s.channel false == ⟨1, 5, Channel.kWriteEvent, .kAdded⟩ &&
            s.channel true == ⟨2, 7, Channel.kReadEvent, .kNew⟩) = true := by
    decide +kernel
  obtain ⟨s, hs, hp⟩ := Run.of_exec_any hrun
  simp only [Bool.and_eq_true, beq_iff_eq] at hp
  obtain ⟨hchannels, _, hfailed⟩ := poller_mirrors_kernel hfd hs
  have hfirst := (hchannels false).2.1
  have hsecond := (hchannels true).1
  rw [hp.1] at hfirst
  rw [hp.2] at hsecond
  refine ⟨s, hs, hfirst rfl, ?_, hfailed⟩
  by_contra hn
  cases hsecond.1 hn

end Channels
end MuduoStudy
