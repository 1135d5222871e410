import MuduoStudy.Descriptors
import MuduoStudy.Transition

namespace MuduoStudy
open Transition Descriptors
set_option autoImplicit true

namespace Acceptor

inductive AcceptErrno where
  | EAGAIN
  | EMFILE
  | other
  deriving DecidableEq, Repr

/-- What a descriptor of the process stands for. Connections are numbered as they arrive. -/
inductive File where
  | listenSocket
  | devNull
  | conn (k : Nat)
  -- opened by other code
  | foreign
  deriving DecidableEq, Repr

/-- The statement of `handleRead` or of the destructor that runs next. -/
inductive Pc where
  -- outside both
  | ready
  | accept
  | ifCallback (connfd k : Nat)
  | logError
  | ifEmfile
  | closeIdleFd
  | acceptIdleFd
  -- `close` of what the second `accept` has returned
  | closeAccepted (k : Option Nat)
  | openIdleFd
  | destroyIdleFd
  | destroySocket
  | destroyed
  deriving DecidableEq, Repr

/-- What became of a connection taken from the backlog. -/
inductive Fate where
  -- given to `newConnectionCallback_`
  | handed (k connfd : Nat)
  | closed (k : Nat)
  deriving DecidableEq, Repr

def Fate.conn : Fate → Nat
  | .handed k _ | .closed k => k

end Acceptor

open Acceptor

/-- An `Acceptor` and the descriptors of its process. A descriptor of -1 is `none`. -/
structure Acceptor where
  table : List (Option File)
  acceptFd : Nat
  idleFd_ : Option Nat
  hasCallback : Bool := true
  errno : AcceptErrno := .EAGAIN
  pc : Pc := .ready
  /-- the connections that wait to be accepted, oldest first -/
  backlog : List Nat := []
  arrivals : Nat := 0
  fates : List Fate := []
  /-- the connections that their owners have closed -/
  ended : List Nat := []

namespace Acceptor

/-- The constructor, in a process whose descriptors belong to other code. A failure of `socket`
ends the process at `bindAddress`, a failure of `open` goes unnoticed. -/
def construct (others : List Bool) (hasCallback : Bool) : Option Acceptor :=
  let table := others.map fun o => if o then some File.foreign else none
  (openFile table .listenSocket).map fun (acceptFd, table) =>
    match openFile table .devNull with
    | some (fd, table) => { table, acceptFd, idleFd_ := some fd, hasCallback }
    | none => { table, acceptFd, idleFd_ := none, hasCallback }

/-- `close` of -1 fails and changes nothing. -/
def closeFd (s : Acceptor) (fd : Option Nat) : Acceptor :=
  { s with table := match fd with
      | some fd => closeFile s.table fd
      | none => s.table }

/-- `accept` on the nonblocking listening socket. The kernel reserves a descriptor before it looks
for a connection, and may also fail for reasons of its own. -/
def kernelAccept (s : Acceptor) (fails : Bool) : Except AcceptErrno (Nat × Nat × Acceptor) :=
  if fails then .error .other else
  match s.backlog with
  | [] => .error (if Full s.table then .EMFILE else .EAGAIN)
  | k :: rest =>
    match openFile s.table (.conn k) with
    | none => .error .EMFILE
    | some (fd, table) => .ok (fd, k, { s with table, backlog := rest })

/-- The next statement of `handleRead` or of the destructor. `LOG_ERROR` may change `errno`. -/
def next (s : Acceptor) (fails : Bool) (clobbers : Option AcceptErrno) : Option Acceptor :=
  match s.pc with
  | .ready | .destroyed => none
  | .accept =>
    match s.kernelAccept fails with
    | .ok (connfd, k, s) => some { s with pc := .ifCallback connfd k }
    | .error e => some { s with errno := e, pc := .logError }
  | .ifCallback connfd k =>
    if s.hasCallback then some { s with fates := s.fates ++ [.handed k connfd], pc := .ready }
    else some { s with
      table := closeFile s.table connfd, fates := s.fates ++ [.closed k], pc := .ready }
  | .logError => some { s with errno := clobbers.getD s.errno, pc := .ifEmfile }
  | .ifEmfile => some { s with pc := if s.errno = .EMFILE then .closeIdleFd else .ready }
  | .closeIdleFd => some { s.closeFd s.idleFd_ with pc := .acceptIdleFd }
  | .acceptIdleFd =>
    match s.kernelAccept fails with
    | .ok (fd, k, s) => some { s with idleFd_ := some fd, pc := .closeAccepted (some k) }
    | .error e => some { s with errno := e, idleFd_ := none, pc := .closeAccepted none }
  | .closeAccepted k => some { s.closeFd s.idleFd_ with
      fates := s.fates ++ (k.map Fate.closed).toList, pc := .openIdleFd }
  | .openIdleFd =>
    match openFile s.table .devNull with
    | some (fd, table) => some { s with table, idleFd_ := some fd, pc := .ready }
    | none => some { s with errno := .EMFILE, idleFd_ := none, pc := .ready }
  | .destroyIdleFd => some { s.closeFd s.idleFd_ with pc := .destroySocket }
  | .destroySocket => some { s with table := closeFile s.table s.acceptFd, pc := .destroyed }

inductive Action where
  | handleRead
  | next (fails : Bool) (clobbers : Option AcceptErrno)
  | destroy
  | arrive
  -- another part of the process, on any thread
  | openOther
  | closeOther (fd : Nat)

def step (s : Acceptor) : Action → Option Acceptor
  | .handleRead => if s.pc = .ready then some { s with pc := .accept } else none
  | .next fails clobbers => s.next fails clobbers
  | .destroy => if s.pc = .ready then some { s with pc := .destroyIdleFd } else none
  | .arrive => some { s with backlog := s.backlog ++ [s.arrivals], arrivals := s.arrivals + 1 }
  | .openOther => (openFile s.table .foreign).map fun (_, table) => { s with table }
  | .closeOther fd =>
    match file s.table fd with
    | some .foreign => some { s with table := closeFile s.table fd }
    | some (.conn k) =>
      if .handed k fd ∈ s.fates then
        some { s with table := closeFile s.table fd, ended := k :: s.ended }
      else none
    | _ => none

/-- Everything a step can do. What becomes of `errno` is left open. -/
inductive Step (s : Acceptor) : Action → Acceptor → Prop where
  | handleRead : s.pc = .ready → Step s .handleRead { s with pc := .accept }
  | accepted : s.pc = .accept → s.backlog = k :: rest →
      openFile s.table (.conn k) = some (fd, slots) → Step s (.next fails clobbers) { s with
        table := slots, backlog := rest, pc := .ifCallback fd k }
  | acceptFails : s.pc = .accept →
      Step s (.next fails clobbers) { s with errno := e, pc := .logError }
  | hands : s.pc = .ifCallback fd k → s.hasCallback = true → Step s (.next fails clobbers) { s with
      fates := s.fates ++ [.handed k fd], pc := .ready }
  | closes : s.pc = .ifCallback fd k → Step s (.next fails clobbers) { s with
      table := closeFile s.table fd, fates := s.fates ++ [.closed k], pc := .ready }
  | logError : s.pc = .logError →
      Step s (.next fails clobbers) { s with errno := e, pc := .ifEmfile }
  | emfile : s.pc = .ifEmfile → Step s (.next fails clobbers) { s with pc := .closeIdleFd }
  | notEmfile : s.pc = .ifEmfile → Step s (.next fails clobbers) { s with pc := .ready }
  | closeIdleFd : s.pc = .closeIdleFd →
      Step s (.next fails clobbers) { s.closeFd s.idleFd_ with pc := .acceptIdleFd }
  | acceptedIdle : s.pc = .acceptIdleFd → s.backlog = k :: rest →
      openFile s.table (.conn k) = some (fd, slots) → Step s (.next fails clobbers) { s with
        table := slots, backlog := rest, idleFd_ := some fd, pc := .closeAccepted (some k) }
  | acceptIdleFails : s.pc = .acceptIdleFd → Step s (.next fails clobbers) { s with
      errno := e, idleFd_ := none, pc := .closeAccepted none }
  | closeAccepted : s.pc = .closeAccepted k → Step s (.next fails clobbers) {
      s.closeFd s.idleFd_ with
        fates := s.fates ++ (k.map Fate.closed).toList, pc := .openIdleFd }
  | openIdleFd : s.pc = .openIdleFd → openFile s.table .devNull = some (fd, slots) →
      Step s (.next fails clobbers) { s with table := slots, idleFd_ := some fd, pc := .ready }
  | openFails : s.pc = .openIdleFd → openFile s.table .devNull = none →
      Step s (.next fails clobbers) { s with errno := .EMFILE, idleFd_ := none, pc := .ready }
  | destroy : s.pc = .ready → Step s .destroy { s with pc := .destroyIdleFd }
  | destroyIdleFd : s.pc = .destroyIdleFd →
      Step s (.next fails clobbers) { s.closeFd s.idleFd_ with pc := .destroySocket }
  | destroySocket : s.pc = .destroySocket → Step s (.next fails clobbers) { s with
      table := closeFile s.table s.acceptFd, pc := .destroyed }
  | arrive : Step s .arrive { s with
      backlog := s.backlog ++ [s.arrivals], arrivals := s.arrivals + 1 }
  | openOther : openFile s.table .foreign = some (fd, slots) →
      Step s .openOther { s with table := slots }
  | closeForeign : file s.table fd = some .foreign →
      Step s (.closeOther fd) { s with table := closeFile s.table fd }
  | closeConn : file s.table fd = some (.conn k) → .handed k fd ∈ s.fates →
      Step s (.closeOther fd) { s with table := closeFile s.table fd, ended := k :: s.ended }

theorem kernelAccept_cases (s : Acceptor) (fails : Bool) : (∃ e, s.kernelAccept fails = .error e) ∨
    ∃ k rest fd slots, s.backlog = k :: rest ∧ openFile s.table (.conn k) = some (fd, slots) ∧
      s.kernelAccept fails = .ok (fd, k, { s with table := slots, backlog := rest }) := by
  cases hf : fails with
  | true => exact .inl ⟨_, rfl⟩
  | false =>
    cases hb : s.backlog with
    | nil =>
      left
      simp only [kernelAccept, hb, Bool.false_eq_true, ↓reduceIte]
      exact ⟨_, rfl⟩
    | cons k rest =>
      cases ho : openFile s.table (.conn k) with
      | none =>
        left
        simp only [kernelAccept, hb, ho, Bool.false_eq_true, ↓reduceIte]
        exact ⟨_, rfl⟩
      | some p =>
        right
        refine ⟨k, rest, p.1, p.2, rfl, ho, ?_⟩
        simp only [kernelAccept, hb, ho, Bool.false_eq_true, ↓reduceIte]

theorem Step.of_next {s t : Acceptor} (h : s.next fails clobbers = some t) :
    Step s (.next fails clobbers) t := by
  cases hpc : s.pc with
  | ready | destroyed => simp [next, hpc] at h
  | accept =>
    rcases kernelAccept_cases s fails with
      ⟨e, he⟩ | ⟨k, rest, fd, slots, hb, ho, hk⟩
    · simp only [next, hpc, he, Option.some.injEq] at h
      exact h ▸ .acceptFails hpc
    · simp only [next, hpc, hk, Option.some.injEq] at h
      exact h ▸ .accepted hpc hb ho
  | ifCallback connfd k =>
    simp only [next, hpc] at h
    split at h
    · rename_i hcallback
      cases h
      exact .hands hpc hcallback
    · cases h
      exact .closes hpc
  | logError => simp only [next, hpc, Option.some.injEq] at h; exact h ▸ .logError hpc
  | ifEmfile =>
    simp only [next, hpc, Option.some.injEq] at h
    subst h
    split
    · exact .emfile hpc
    · exact .notEmfile hpc
  | closeIdleFd => simp only [next, hpc, Option.some.injEq] at h; exact h ▸ .closeIdleFd hpc
  | acceptIdleFd =>
    rcases kernelAccept_cases s fails with
      ⟨e, he⟩ | ⟨k, rest, fd, slots, hb, ho, hk⟩
    · simp only [next, hpc, he, Option.some.injEq] at h
      exact h ▸ .acceptIdleFails hpc
    · simp only [next, hpc, hk, Option.some.injEq] at h
      exact h ▸ .acceptedIdle hpc hb ho
  | closeAccepted k => simp only [next, hpc, Option.some.injEq] at h; exact h ▸ .closeAccepted hpc
  | openIdleFd =>
    cases ho : openFile s.table .devNull with
    | none => simp only [next, hpc, ho, Option.some.injEq] at h; exact h ▸ .openFails hpc ho
    | some p => simp only [next, hpc, ho, Option.some.injEq] at h; exact h ▸ .openIdleFd hpc ho
  | destroyIdleFd => simp only [next, hpc, Option.some.injEq] at h; exact h ▸ .destroyIdleFd hpc
  | destroySocket => simp only [next, hpc, Option.some.injEq] at h; exact h ▸ .destroySocket hpc

theorem Step.of_step {s t : Acceptor} (h : s.step a = some t) : Step s a t := by
  cases a with
  | handleRead =>
    simp only [step, Option.ite_none_right_eq_some, Option.some.injEq] at h
    exact h.2 ▸ .handleRead h.1
  | next => exact .of_next h
  | destroy =>
    simp only [step, Option.ite_none_right_eq_some, Option.some.injEq] at h
    exact h.2 ▸ .destroy h.1
  | arrive =>
    cases h
    exact .arrive
  | openOther =>
    obtain ⟨p, hp, rfl⟩ := Option.map_eq_some_iff.1 h
    exact .openOther hp
  | closeOther fd =>
    simp only [step] at h
    split at h
    · rename_i hf
      cases h
      exact .closeForeign hf
    · rename_i k hf
      simp only [Option.ite_none_right_eq_some, Option.some.injEq] at h
      exact h.2 ▸ .closeConn hf h.1
    · cases h

end Acceptor
end MuduoStudy
