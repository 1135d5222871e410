import MuduoStudy.Poller
import MuduoStudy.Rotation

namespace MuduoStudy
open Transition
set_option autoImplicit true

def POLLERR : Events := 0x008

/-- `epoll_event`, with the pointer of its `data` -/
structure EpollEvent where
  events : Events := 0
  ptr : Nat := 0
  deriving DecidableEq, Repr

def kInitEventListSize : Nat := 16

/-- The channels of one loop with the loop's poller, the kernel's side of it, and what `loop` has
got from the last `poll`. -/
structure Polling (ι : Type u) where
  channels : Channels ι
  /-- the vector that `epoll_wait` fills -/
  events_ : List EpollEvent := List.replicate kInitEventListSize {}
  /-- what the file behind each descriptor is ready for -/
  level : Nat → Events := fun _ => 0
  /-- the kernel's ready list: descriptors that have had an event, in the order of these -/
  rdllist : List Nat := []
  activeChannels_ : List Nat := []
  /-- `revents_` of the channel at each address -/
  revents_ : Nat → Events := fun _ => 0

namespace Polling
variable {ι : Type u}

def init (self fd : ι → Nat) : Polling ι where
  channels := Channels.init self fd

/-- What the kernel has to report of a descriptor. Errors and hang-ups need no registration. -/
def event (s : Polling ι) (fd : Nat) : EpollEvent :=
  match s.channels.poller_.interest fd with
  | some (mask, ptr) => ⟨s.level fd &&& (mask ||| POLLERR ||| POLLHUP), ptr⟩
  | none => {}

def ready (s : Polling ι) (fd : Nat) : Bool := (s.event fd).events ≠ 0

/-- The kernel looks at a descriptor whose registration or file has changed. -/
def relist (s : Polling ι) (fd : Nat) : Polling ι :=
  { s with
    rdllist :=
      if s.channels.poller_.interest fd = none then s.rdllist.erase fd
      else if s.ready fd ∧ fd ∉ s.rdllist then s.rdllist ++ [fd]
      else s.rdllist }

/-- `epoll_wait` for as many events as the vector has room for. Without any it ends after the
timeout or at a signal. A descriptor that has been reported goes to the back of the ready list. -/
def epollWait (s : Polling ι) (signal : Bool) : Polling ι × Int :=
  let served := (Rotation.serve s.ready s.rdllist s.events_.length).1
  ({ s with
    events_ := served.map s.event ++ s.events_.drop served.length
    rdllist := Rotation.turn s.ready s.rdllist s.events_.length },
  if served = [] ∧ signal then -1 else served.length)

/-- `fillActiveChannels` for one event -/
def activate (s : Polling ι) (e : EpollEvent) : Polling ι :=
  { s with
    revents_ := Function.update s.revents_ e.ptr e.events
    activeChannels_ := s.activeChannels_ ++ [e.ptr] }

def fillActiveChannels (s : Polling ι) (numEvents : Nat) : Polling ι :=
  (s.events_.take numEvents).foldl activate s

/-- `Eepoller::poll`. A negative result is only logged. -/
def poll (s : Polling ι) (signal : Bool) : Polling ι :=
  let (s, numEvents) := s.epollWait signal
  if 0 < numEvents then
    let s := s.fillActiveChannels numEvents.toNat
    if numEvents.toNat = s.events_.length then
      { s with events_ := s.events_ ++ List.replicate s.events_.length {} }
    else s
  else s

inductive Action (ι : Type u) where
  -- an operation of a channel, in a handler or a functor
  | op (i : ι) (op : Channel.Op)
  -- the file behind a descriptor gets ready for other events
  | level (fd : Nat) (events : Events)
  -- `activeChannels_.clear()` and `poll`; the flag says that a signal may end the wait
  | poll (signal : Bool)
  deriving DecidableEq

def Action.isPoll : Action ι → Bool
  | .poll _ => true
  | _ => false

def step [DecidableEq ι] (s : Polling ι) : Action ι → Option (Polling ι)
  | .op i op => (s.channels.step (i, op)).map fun c =>
      ({ s with channels := c } : Polling ι).relist (c.channel i).fd_
  | .level fd events =>
    some (({ s with level := Function.update s.level fd events } : Polling ι).relist fd)
  | .poll signal => some (({ s with activeChannels_ := [] } : Polling ι).poll signal)

/-- The descriptors that the next `poll` reports. -/
def served (s : Polling ι) : List Nat :=
  (Rotation.serve s.ready s.rdllist s.events_.length).1

theorem length_served (s : Polling ι) : s.served.length ≤ s.events_.length := by
  rw [served, Rotation.length_serve]
  exact Nat.min_le_left _ _

theorem foldl_activate (s : Polling ι) (es : List EpollEvent) :
    es.foldl activate s = { s with
      revents_ := es.foldl (fun r e => Function.update r e.ptr e.events) s.revents_
      activeChannels_ := s.activeChannels_ ++ es.map EpollEvent.ptr } := by
  induction es generalizing s with
  | nil => simp
  | cons e es ih => simp [ih, activate]

/-- The vector doubles when there was no room to spare. -/
def grown (s : Polling ι) : Nat :=
  if s.served.length = s.events_.length ∧ s.served ≠ [] then 2 * s.events_.length
  else s.events_.length

/-- What `poll` does with the members that the next steps look at. -/
structure Polled (s s' : Polling ι) : Prop where
  channels : s'.channels = s.channels
  level : s'.level = s.level
  rdllist : s'.rdllist = Rotation.turn s.ready s.rdllist s.events_.length
  length : s'.events_.length = s.grown
  active : s'.activeChannels_ = s.activeChannels_ ++ (s.served.map s.event).map EpollEvent.ptr
  revents : s'.revents_ =
    (s.served.map s.event).foldl (fun r e => Function.update r e.ptr e.events) s.revents_

theorem Polled.of_nothing (s : Polling ι) (signal : Bool) (hnone : s.served = []) :
    Polled s (s.poll signal) := by
  have hserved : (Rotation.serve s.ready s.rdllist s.events_.length).1 = s.served := rfl
  have hneg : ¬ (0 < (s.epollWait signal).2) := by
    simp only [epollWait, hserved, hnone]
    split
    · nofun
    · exact Int.lt_irrefl 0
  have hpoll : s.poll signal = (s.epollWait signal).1 := if_neg hneg
  have hlength : s.grown = s.events_.length := if_neg fun h => h.2 hnone
  rw [hpoll]
  refine ⟨rfl, rfl, rfl, ?_, ?_, ?_⟩
  · rw [hlength]
    simp only [epollWait, hserved, hnone, List.map_nil, List.nil_append, List.length_nil,
      List.drop_zero]
  · rw [hnone]
    exact (List.append_nil _).symm
  · rw [hnone]
    rfl

theorem Polled.of_events (s : Polling ι) (signal : Bool) (hsome : s.served ≠ []) :
    Polled s (s.poll signal) := by
  have hserved : (Rotation.serve s.ready s.rdllist s.events_.length).1 = s.served := rfl
  have hnum : (s.epollWait signal).2 = s.served.length := if_neg fun h => hsome h.1
  have hpos : 0 < (s.epollWait signal).2 := by
    rw [hnum]
    exact Int.natCast_pos.2 (List.length_pos_iff.2 hsome)
  have hevents : (s.epollWait signal).1.events_.length = s.events_.length := by
    simp only [epollWait, hserved, List.length_append, List.length_map, List.length_drop]
    exact Nat.add_sub_cancel' s.length_served
  have htake : (s.epollWait signal).1.events_.take s.served.length = s.served.map s.event :=
    List.take_left' (List.length_map ..)
  have hfill : (s.epollWait signal).1.fillActiveChannels s.served.length =
      { (s.epollWait signal).1 with
        revents_ := (s.served.map s.event).foldl
          (fun r e => Function.update r e.ptr e.events) s.revents_
        activeChannels_ := s.activeChannels_ ++ (s.served.map s.event).map EpollEvent.ptr } := by
    rw [fillActiveChannels, htake, foldl_activate]
    rfl
  have hpoll (n : Nat) (hn : (s.epollWait signal).2.toNat = n) : s.poll signal =
      let s' := (s.epollWait signal).1.fillActiveChannels n
      if n = s'.events_.length then
        { s' with events_ := s'.events_ ++ List.replicate s'.events_.length {} }
      else s' := by
    subst n
    exact if_pos hpos
  rw [hpoll s.served.length (by rw [hnum, Int.toNat_natCast]), hfill]
  by_cases hfull : s.served.length = s.events_.length
  · have hgrown : s.grown = 2 * s.events_.length := if_pos ⟨hfull, hsome⟩
    simp only [hevents, if_pos hfull]
    refine ⟨rfl, rfl, rfl, ?_, rfl, rfl⟩
    rw [List.length_append, List.length_replicate, hevents, hgrown, Nat.two_mul]
  · have hgrown : s.grown = s.events_.length := if_neg fun h => hfull h.1
    simp only [hevents, if_neg hfull]
    exact ⟨rfl, rfl, rfl, hevents.trans hgrown.symm, rfl, rfl⟩

theorem polled (s : Polling ι) (signal : Bool) : Polled s (s.poll signal) := by
  by_cases hnone : s.served = []
  · exact .of_nothing s signal hnone
  · exact .of_events s signal hnone

end Polling
end MuduoStudy
