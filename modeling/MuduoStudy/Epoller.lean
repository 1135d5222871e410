import Mathlib.Logic.Function.Basic

namespace MuduoStudy
set_option autoImplicit true

/-- The event bits of `poll` and `epoll`. -/
abbrev Events := BitVec 32

def POLLIN : Events := 0x001
def POLLPRI : Events := 0x002
def POLLOUT : Events := 0x004
def POLLHUP : Events := 0x010
def POLLRDHUP : Events := 0x2000

/-- What `index_` says of a channel's place in its poller. -/
inductive Index where
  | kNew
  | kAdded
  | kDeleted
  deriving DecidableEq, Repr

structure Channel where
  /-- the address of the channel -/
  self : Nat
  fd_ : Nat
  events_ : Events := 0
  index_ : Index := .kNew
  deriving DecidableEq, Repr

namespace Channel

def kNoneEvent : Events := 0
def kReadEvent : Events := POLLIN ||| POLLPRI
def kWriteEvent : Events := POLLOUT

def isNoneEvent (c : Channel) : Bool := c.events_ = kNoneEvent
def isWriting (c : Channel) : Bool := c.events_ &&& kWriteEvent ≠ 0
def isReading (c : Channel) : Bool := c.events_ &&& kReadEvent ≠ 0

theorem add_and_self (events bit : Events) : (events ||| bit) &&& bit = bit := by
  ext i hi
  rw [BitVec.getElem_and, BitVec.getElem_or, Bool.and_eq_right_iff_imp]
  intro h
  rw [h, Bool.or_true]

theorem drop_and_self (events bit : Events) : events &&& ~~~bit &&& bit = 0#32 := by
  rw [BitVec.and_assoc, BitVec.not_and_self]
  exact BitVec.and_zero

theorem add_and_other {bit other : Events} (h : bit &&& other = 0#32) (events : Events) :
    (events ||| bit) &&& other = events &&& other := by
  rw [BitVec.and_or_distrib_right, h, BitVec.or_zero]

theorem drop_and_other {bit other : Events} (h : ~~~bit &&& other = other) (events : Events) :
    events &&& ~~~bit &&& other = events &&& other := by
  rw [BitVec.and_assoc, h]

end Channel

inductive Operation where
  | EPOLL_CTL_ADD
  | EPOLL_CTL_MOD
  | EPOLL_CTL_DEL
  deriving DecidableEq, Repr

structure Eepoller where
  channels_ : Nat → Option Nat := fun _ => none
  /-- the kernel's interest set: the event mask and `data.ptr` of each registered descriptor -/
  interest : Nat → Option (Events × Nat) := fun _ => none
  /-- the number of `epoll_ctl` calls that failed -/
  failed : Nat := 0

namespace Eepoller
open Channel

def hasChannel (p : Eepoller) (c : Channel) : Bool := p.channels_ c.fd_ = some c.self

/-- `epoll_ctl` -/
def update (p : Eepoller) (operation : Operation) (c : Channel) : Eepoller :=
  match operation, p.interest c.fd_ with
  | .EPOLL_CTL_ADD, none | .EPOLL_CTL_MOD, some _ =>
    { p with interest := Function.update p.interest c.fd_ (some (c.events_, c.self)) }
  | .EPOLL_CTL_DEL, some _ => { p with interest := Function.update p.interest c.fd_ none }
  | .EPOLL_CTL_ADD, some _ | .EPOLL_CTL_MOD, none | .EPOLL_CTL_DEL, none =>
    { p with failed := p.failed + 1 }

def updateChannel (p : Eepoller) (c : Channel) : Eepoller × Channel :=
  match c.index_ with
  | .kNew =>
    let p := { p with channels_ := Function.update p.channels_ c.fd_ (some c.self) }
    (p.update .EPOLL_CTL_ADD c, { c with index_ := .kAdded })
  | .kDeleted => (p.update .EPOLL_CTL_ADD c, { c with index_ := .kAdded })
  | .kAdded =>
    if c.isNoneEvent then (p.update .EPOLL_CTL_DEL c, { c with index_ := .kDeleted })
    else (p.update .EPOLL_CTL_MOD c, c)

def removeChannel (p : Eepoller) (c : Channel) : Eepoller × Channel :=
  let p := { p with channels_ := Function.update p.channels_ c.fd_ none }
  (if c.index_ = .kAdded then p.update .EPOLL_CTL_DEL c else p, { c with index_ := .kNew })

/-- The poller and the kernel know of the channel what its `index_` says. -/
structure Mirrors (p : Eepoller) (c : Channel) : Prop where
  channels : p.channels_ c.fd_ = if c.index_ = .kNew then none else some c.self
  interest : p.interest c.fd_ = if c.index_ = .kAdded then some (c.events_, c.self) else none

theorem Mirrors.hasChannel {p : Eepoller} {c : Channel} (h : Mirrors p c) :
    p.hasChannel c = true ↔ c.index_ ≠ .kNew := by
  simp [Eepoller.hasChannel, h.channels]

theorem Mirrors.interest_eq_none {p : Eepoller} {c : Channel} (h : Mirrors p c) :
    p.interest c.fd_ = none ↔ c.index_ ≠ .kAdded := by
  simp [h.interest]

theorem update_add {p : Eepoller} {c : Channel} (h : p.interest c.fd_ = none) :
    p.update .EPOLL_CTL_ADD c =
      { p with interest := Function.update p.interest c.fd_ (some (c.events_, c.self)) } := by
  simp only [update, h]

theorem update_mod {p : Eepoller} {c : Channel} (h : p.interest c.fd_ = some entry) :
    p.update .EPOLL_CTL_MOD c =
      { p with interest := Function.update p.interest c.fd_ (some (c.events_, c.self)) } := by
  simp only [update, h]

theorem update_del {p : Eepoller} {c : Channel} (h : p.interest c.fd_ = some entry) :
    p.update .EPOLL_CTL_DEL c = { p with interest := Function.update p.interest c.fd_ none } := by
  simp only [update, h]

theorem Mirrors.updateChannel_eq {p : Eepoller} {c : Channel} (h : p.Mirrors c)
    (events : Events) : p.updateChannel { c with events_ := events } =
      ({ p with
        channels_ := Function.update p.channels_ c.fd_ (some c.self)
        interest := Function.update p.interest c.fd_
          (if c.index_ = .kAdded ∧ events = kNoneEvent then none else some (events, c.self)) },
      { c with
        events_ := events
        index_ := if c.index_ = .kAdded ∧ events = kNoneEvent then .kDeleted else .kAdded }) := by
  obtain ⟨self, fd, held, index⟩ := c
  have hinterest := h.interest
  have hchannels := h.channels
  have hknown (hk : p.channels_ fd = some self) :
      Function.update p.channels_ fd (some self) = p.channels_ := by
    rw [← hk, Function.update_eq_self]
  cases index with
  | kNew =>
    simp only [reduceCtorEq, ↓reduceIte] at hinterest
    simp only [Eepoller.updateChannel, reduceCtorEq, false_and, ↓reduceIte]
    rw [update_add hinterest]
  | kDeleted =>
    simp only [reduceCtorEq, ↓reduceIte] at hinterest hchannels
    simp only [Eepoller.updateChannel, reduceCtorEq, false_and, ↓reduceIte]
    rw [update_add hinterest, hknown hchannels]
  | kAdded =>
    simp only [reduceCtorEq, ↓reduceIte] at hinterest hchannels
    simp only [Eepoller.updateChannel, isNoneEvent, decide_eq_true_eq, true_and]
    rw [hknown hchannels]
    by_cases hnone : events = kNoneEvent
    · rw [if_pos hnone, if_pos hnone, if_pos hnone, update_del hinterest]
    · rw [if_neg hnone, if_neg hnone, if_neg hnone, update_mod hinterest]

theorem Mirrors.removeChannel_eq {p : Eepoller} {c : Channel} (h : p.Mirrors c) :
    p.removeChannel c =
      ({ p with
        channels_ := Function.update p.channels_ c.fd_ none
        interest := Function.update p.interest c.fd_ none },
      { c with index_ := .kNew }) := by
  have hinterest := h.interest
  by_cases hindex : c.index_ = .kAdded
  · rw [if_pos hindex] at hinterest
    rw [Eepoller.removeChannel, if_pos hindex]
    exact congrArg (·, _) (update_del hinterest)
  · rw [if_neg hindex] at hinterest
    rw [Eepoller.removeChannel, if_neg hindex, ← hinterest, Function.update_eq_self]

theorem Mirrors.updateChannel {p : Eepoller} {c : Channel} (h : Mirrors p c) (events : Events) :
    Mirrors (p.updateChannel { c with events_ := events }).1
      (p.updateChannel { c with events_ := events }).2 := by
  rw [h.updateChannel_eq]
  refine ⟨?_, ?_⟩
  · simp only [Function.update_self]
    split
    · rfl
    · rfl
  · simp only [Function.update_self]
    split
    · rfl
    · rfl

theorem Mirrors.removeChannel {p : Eepoller} {c : Channel} (h : Mirrors p c) :
    Mirrors (p.removeChannel c).1 (p.removeChannel c).2 := by
  rw [h.removeChannel_eq]
  exact ⟨Function.update_self .., Function.update_self ..⟩

theorem updateChannel_index (p : Eepoller) (c : Channel) :
    (p.updateChannel c).2.index_ ≠ .kNew := by
  rw [updateChannel]
  split
  · nofun
  · nofun
  · rename_i hindex
    split
    · nofun
    · rw [hindex]
      nofun

@[simp] theorem updateChannel_events (p : Eepoller) (c : Channel) :
    (p.updateChannel c).2.events_ = c.events_ := by
  rw [updateChannel]
  split
  · rfl
  · rfl
  · split <;> rfl

end Eepoller
end MuduoStudy
