import MuduoStudy.Statement
import MuduoStudy.TcpServer

namespace MuduoStudy
set_option autoImplicit true

namespace World

/-- `baseLoop_`, and the loops of the pool by their place in `loops_`. Other loops that the program
may run come after those of the pool. -/
inductive Loop where
  | base
  | io (k : Nat)
  deriving DecidableEq, Repr

inductive Thread where
  | loop (l : Loop)
  | user (n : Nat)
  deriving DecidableEq, Repr

/-- What a queue holds: a functor of one of the connections or one of the user's. -/
inductive Functor where
  | conn (i : Nat) (f : Server.Functor)
  | other
  deriving DecidableEq

/-- What a thread has entered: a function of one of the connections, or code of the user. -/
inductive Frame where
  | conn (i : Nat) (f : Server.Frame)
  | user
  deriving DecidableEq

inductive Phase where
  | poll
  -- the `for` over `activeChannels_`, with the connections whose events are still to be handled
  | activeChannels (events : List (Nat × Events))
  | swap
  | functors
  deriving DecidableEq

end World

open World

/-- A `TcpServer` with its thread pool and all of its connections. The connections are numbered in
the order in which `newConnection` makes them. -/
structure World where
  /-- `loops_.size()` -/
  numThreads_ : Nat
  name_ : List Char
  next_ : Nat := 0
  nextConnId_ : BitVec 32 := 1
  connections_ : List Char → Option Nat := fun _ => none
  created : Nat := 0
  /-- the `loop_` of each connection -/
  ioLoop : Nat → World.Loop
  connName : Nat → List Char := fun _ => []
  /-- each connection with its record; what its phases, queues and stacks say is not used -/
  conns : Nat → Server
  phase : World.Loop → World.Phase := fun _ => .poll
  queue : World.Loop → BatchQueue World.Functor := fun _ => {}
  stack : World.Thread → List World.Frame := fun _ => []
  /-- the calls of `removeConnectionInLoop`, with the connection and the calling thread -/
  removals : List (Nat × World.Thread) := []

namespace World

def goto (w : World) (t : Thread) (frames : List Frame) : World :=
  { w with stack := Function.update w.stack t frames }

/-- `queueInloop` -/
def post (w : World) (l : Loop) (f : Functor) : World :=
  { w with queue := Function.update w.queue l ((w.queue l).push f) }

def setPhase (w : World) (l : Loop) (p : Phase) : World :=
  { w with phase := Function.update w.phase l p }

def setQueue (w : World) (l : Loop) (q : BatchQueue Functor) : World :=
  { w with queue := Function.update w.queue l q }

/-- The user's code, or a callback of the user's that a connection has called. -/
def Frame.isUser : Frame → Bool
  | .user | .conn _ .user => true
  | .conn _ _ => false

/-- The thread is in the user's code. -/
def inUserCode (w : World) : Thread → Bool
  | .loop l => (w.stack (.loop l)).head?.any Frame.isUser
  | .user n => w.stack (.user n) = []

def Phase.outside : Phase → Bool
  | .poll | .activeChannels _ => true
  | .swap | .functors => false

/-- The loop that a connection knows as its server's or as its own. -/
def place (w : World) (i : Nat) : Server.Loop → Loop
  | .base => .base
  | .io =>
    match w.ioLoop i with
    | .io k => .io k
    -- the connection is on the base loop and has nothing to do with the others
    | .base => .io 0

/-- As what a connection knows the loop. -/
def seen (w : World) (i : Nat) (l : Loop) : Option Server.Loop :=
  if l = .base then some .base else if l = w.place i .io then some .io else none

/-- As what a connection knows the thread: the loops that it does not know are threads of the user,
and its thread 0 is none of the others. -/
def role (w : World) (i : Nat) : Thread → Server.Thread
  | .loop l =>
    match w.seen i l, l with
    | some l', _ => .loop l'
    | none, .io k => .user (2 * k + 1)
    | none, .base => .loop .base
  | .user n => .user (2 * n + 2)

/-- A connection with its record, as far as it is its own. -/
def record (w : World) (i : Nat) : Server :=
  { w.conns i with
    loop_ := if w.ioLoop i = .base then .base else .io
    created := decide (i < w.created)
    registered := decide (w.connections_ (w.connName i) = some i) }

/-- What a statement of a connection has queued on the loop. -/
def posted (s : Server) : Option Server.Loop → List Server.Functor
  | some l => (s.queue l).pending
  | none => []

/-- What a statement of a connection leaves behind, the thread's stack apart. -/
def after (w : World) (t : Thread) (i : Nat) (f : Server.Frame) (s : Server) : World :=
  { w with
    conns := Function.update w.conns i s
    queue := fun l => (w.queue l).pushAll ((posted s (w.seen i l)).map (.conn i))
    -- `connections_.erase(conn->name())`
    connections_ :=
      if f = .exec .removeConnectionInLoop then
        Function.update w.connections_ (w.connName i) none
      else w.connections_
    removals :=
      if f = .exec .removeConnectionInLoop then w.removals ++ [(i, t)] else w.removals }

/-- The next statement of a function that the thread has entered. -/
def go (w : World) (t : Thread) (k : Server.Answer) : Option World :=
  match w.stack t with
  | [] | .user :: _ => none
  | .conn i f :: rest =>
    ((w.record i).statement (w.role i t) f k).map fun s =>
      (w.after t i f s).goto t ((s.stack (w.role i t)).map (.conn i) ++ rest)

def Functor.frame : Functor → Frame
  | .conn i f => .conn i (.exec f)
  | .other => .user

/-- The next statement of `EventLoop::loop` or `doPendingFunctors`. -/
def loop (w : World) (l : Loop) : Option World :=
  match w.phase l with
  | .poll => none
  | .activeChannels ((i, revents) :: events) =>
    some ((w.setPhase l (.activeChannels events)).goto (.loop l) [.conn i (.handleEvent revents)])
  | .activeChannels [] => some (w.setPhase l .swap)
  | .swap => some ((w.setQueue l (w.queue l).swap).setPhase l .functors)
  | .functors =>
    match (w.queue l).pop with
    | none => some (w.setPhase l .poll)
    | some (f, q) => some ((w.setQueue l q).goto (.loop l) [f.frame])

/-- `EventLoopThreadPool::getNextLoop`: the loop and the new `next_` -/
def getNextLoop (w : World) : Loop × Nat :=
  if w.numThreads_ = 0 then (.base, w.next_)
  else (.io w.next_, if w.numThreads_ ≤ w.next_ + 1 then 0 else w.next_ + 1)

/-- `TcpServer::newConnection` makes the connection and enters it into `connections_`. -/
def addConnection (w : World) : World :=
  let connName := TcpServer.connName w.name_ w.nextConnId_
  { w with
    next_ := w.getNextLoop.2
    nextConnId_ := w.nextConnId_ + 1
    created := w.created + 1
    ioLoop := Function.update w.ioLoop w.created w.getNextLoop.1
    connName := Function.update w.connName w.created connName
    connections_ := Function.update w.connections_ connName (some w.created) }

/-- `TcpServer::newConnection`, up to its call of `runInloop` -/
def newConnection (w : World) : World :=
  w.addConnection.goto (.loop .base) [.conn w.created (.runInloop .connectEstablished)]

def called (w : World) (i : Nat) (calls : List Server.Sent) : World :=
  { w with conns := Function.update w.conns i { w.record i with called := calls } }

def call (w : World) (t : Thread) (i : Nat) (a : Server.Api) : World :=
  (w.called i (a.record (w.record i) (w.role i t))).goto t
    (.conn i (a.frame (w.record i) (w.role i t)) :: w.stack t)

inductive Action where
  | go (t : Thread) (k : Server.Answer)
  | loop (l : Loop)
  -- `poll` returns, with the given events of connections' channels
  | poll (l : Loop) (events : List (Nat × Events))
  -- the loop's thread enters some other code of the user: the handler of another channel, or what
  -- runs before and after `loop`
  | enter (l : Loop)
  | leave (l : Loop)
  | call (t : Thread) (i : Nat) (a : Server.Api)
  -- the user's code queues a functor of its own
  | post (t : Thread) (l : Loop)
  -- `Acceptor` calls `TcpServer::newConnection`
  | newConnection
  deriving DecidableEq

/-- The poller of the loop can report the event. -/
def reports (w : World) (l : Loop) (event : Nat × Events) : Bool :=
  let c := (w.conns event.1).conn
  w.ioLoop event.1 = l ∧ (c.poller_.interest c.channel_.fd_).isSome

/-- One atomic step of one thread. -/
def step (w : World) : Action → Option World
  | .go t k => w.go t k
  | .loop l => if w.stack (.loop l) = [] then w.loop l else none
  | .poll l events =>
    if w.stack (.loop l) = [] ∧ w.phase l = .poll ∧ (events.map Prod.fst).Nodup ∧
        events.all (w.reports l) then
      some (w.setPhase l (.activeChannels events))
    else none
  | .enter l =>
    if w.stack (.loop l) = [] ∧ (w.phase l).outside then some (w.goto (.loop l) [.user]) else none
  | .leave l =>
    match w.stack (.loop l) with
    | f :: rest => if f.isUser then some (w.goto (.loop l) rest) else none
    | [] => none
  | .call t i a => if w.inUserCode t ∧ (w.conns i).exposed then some (w.call t i a) else none
  | .post t l => if w.inUserCode t then some (w.post l .other) else none
  | .newConnection =>
    match w.phase .base with
    | .activeChannels _ => if w.stack (.loop .base) = [] then some w.newConnection else none
    | _ => none

structure Config where
  numThreads_ : Nat
  name_ : List Char
  /-- what is chosen for each connection; the pool chooses its loop -/
  conn : Nat → Server.Config

/-- The pool deals its loops one after another. -/
def Config.ioLoop (config : Config) (i : Nat) : Loop :=
  if config.numThreads_ = 0 then .base else .io (i % config.numThreads_)

def init (config : Config) : World where
  numThreads_ := config.numThreads_
  name_ := config.name_
  ioLoop := config.ioLoop
  conns i := Server.init (config.conn i)

end World
end MuduoStudy
