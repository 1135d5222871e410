import MuduoStudy.BatchQueue
import MuduoStudy.TcpConnection
import MuduoStudy.Transition

namespace MuduoStudy
set_option autoImplicit true

namespace Server

/-- The loop of the `TcpServer` and, where the pool gives the connection another loop, that one. -/
inductive Loop where
  | base
  | io
  deriving DecidableEq, Repr

/-- The threads of the two loops, and all other threads. -/
inductive Thread where
  | loop (l : Loop)
  | user (n : Nat)
  deriving DecidableEq, Repr

/-- A call of `send`: its number among all calls, the calling thread and the message. -/
structure Sent where
  id : Nat
  thread : Thread
  message : Block
  deriving DecidableEq

/-- What the queues of the two loops hold, as far as it concerns the connection. -/
inductive Functor where
  | connectEstablished
  | sendInLoop (m : Sent)
  | shutdownInLoop
  | forceCloseInLoop
  | startReadInLoop
  | stopReadInLoop
  | connectDestroyed
  | removeConnectionInLoop
  | notice (n : Notice)
  | other
  deriving DecidableEq

/-- The functions that call the user's connection callback. -/
inductive Caller where
  | connectEstablished
  | handleClose
  | connectDestroyed
  deriving DecidableEq, Repr

/-- What a thread still has to do in the functions it has entered. -/
inductive Frame where
  -- a callback or another piece of the user's code
  | user
  | handleEvent (revents : Events)
  | handleRead
  | handleWrite
  -- `handleWrite` behind its `if(writeCompleteCallback_)`
  | ifDisconnecting
  | handleClose
  | connectionCallback (caller : Caller)
  | closeCallback
  -- the body of the `if` in `connectDestroyed`
  | setDisconnected
  -- `channel_->remove()` in `connectDestroyed`
  | remove
  | send (m : Sent)
  | shutdown
  | setDisconnecting
  | forceClose
  -- `loop_->queueInloop` in `forceClose` and for the user's callbacks
  | queueForceClose
  | queueNotice (n : Notice)
  -- `loop_->runInloop`
  | runInloop (f : Functor)
  | exec (f : Functor)
  deriving DecidableEq

/-- Where a loop stands in `EventLoop::loop`. -/
inductive Phase where
  | poll
  -- the `for` over `activeChannels_`, with the event of the connection's channel if it has one
  | activeChannels (revents : Option Events)
  | swap
  | functors
  deriving DecidableEq

/-- Other code of the user can run: not in `doPendingFunctors`. -/
def Phase.outside : Phase → Bool
  | .poll | .activeChannels _ => true
  | .swap | .functors => false

/-- The public operations of a connection. -/
inductive Api where
  | send (message : Block)
  | shutdown
  | forceClose
  | startRead
  | stopRead
  deriving DecidableEq

/-- The result of `readFd`, as far as `handleRead` looks at it. -/
inductive ReadResult where
  | data
  | eof
  | error
  deriving DecidableEq, Repr

/-- What the kernel answers to the `::write` or `::readv` of a step that makes one. -/
structure Answer where
  write : WriteResult := .error .EWOULDBLOCK
  read : ReadResult := .error
  deriving DecidableEq

end Server

open Server

/-- A server with one of its connections, seen from all threads. -/
structure Server where
  /-- the connection's `loop_` -/
  loop_ : Loop
  conn : TcpConnection
  phase : Loop → Phase := fun _ => .poll
  queue : Loop → BatchQueue Functor := fun _ => {}
  stack : Thread → List Frame := fun _ => []
  /-- `newConnection` has made the connection -/
  created : Bool := false
  /-- `connections_` holds the connection -/
  registered : Bool := false
  /-- the `TcpServer` has not been destroyed -/
  alive : Bool := true
  /-- the user has been handed the connection -/
  exposed : Bool := false
  /-- how often `connectEstablished` has been called -/
  established : Nat := 0
  /-- the calls of `send` -/
  called : List Sent := []
  /-- those that found `state_` to be `kConnected` -/
  accepted : List Sent := []
  /-- those whose `sendInLoop` found `state_` not to be `kDisconnected` -/
  executed : List Sent := []
  /-- the calls of the connection callback, with what `connected()` said -/
  callbacks : List (Caller × Bool) := []
  /-- how often `handleClose` has been called -/
  closes : Nat := 0
  closeCallbacks : Nat := 0
  /-- how often `connectDestroyed` has been queued -/
  destroyQueued : Nat := 0
  /-- how often `connectDestroyed` has been called -/
  destroys : Nat := 0
  /-- how often `connectDestroyed` has finished -/
  destroyed : Nat := 0

namespace Server

def goto (s : Server) (t : Thread) (frames : List Frame) : Server :=
  { s with stack := Function.update s.stack t frames }

/-- `queueInloop` -/
def post (s : Server) (l : Loop) (f : Functor) : Server :=
  { s with queue := Function.update s.queue l ((s.queue l).push f) }

def setPhase (s : Server) (l : Loop) (p : Phase) : Server :=
  { s with phase := Function.update s.phase l p }

def setQueue (s : Server) (l : Loop) (q : BatchQueue Functor) : Server :=
  { s with queue := Function.update s.queue l q }

/-- The thread is in the user's code. -/
def inUserCode (s : Server) : Thread → Bool
  | .loop l => (s.stack (.loop l)).head? = some .user
  | .user n => s.stack (.user n) = []

/-- `handleEventWithGuard`. `handleError` only reads `SO_ERROR`. -/
def dispatch (revents : Events) : List Frame :=
  (if revents &&& POLLHUP ≠ 0 ∧ revents &&& POLLIN = 0 then [.handleClose] else []) ++
  (if revents &&& (POLLIN ||| POLLPRI ||| POLLRDHUP) ≠ 0 then [.handleRead] else []) ++
  (if revents &&& POLLOUT ≠ 0 then [.handleWrite] else [])

def call (s : Server) (t : Thread) (rest : List Frame) (k : Answer) : Functor → Option Server
  | .connectEstablished =>
    some (({ s with
      conn := s.conn.connectEstablished
      established := s.established + 1 } : Server).goto t
      (.connectionCallback .connectEstablished :: rest))
  | .sendInLoop m =>
    (s.conn.sendInLoop m.message.bytes k.write).map fun r =>
      ({ s with
        conn := r.1
        executed := if s.conn.state_ = .kDisconnected then s.executed
          else s.executed ++ [m] } : Server).goto t
      (r.2.map .queueNotice ++ rest)
  | .shutdownInLoop => some (({ s with conn := s.conn.shutdownInLoop } : Server).goto t rest)
  | .forceCloseInLoop =>
    if s.conn.state_ = .kConnected ∨ s.conn.state_ = .kDisconnecting then
      some (s.goto t (.handleClose :: rest))
    else some (s.goto t rest)
  | .startReadInLoop => some (({ s with conn := s.conn.startReadInLoop } : Server).goto t rest)
  | .stopReadInLoop => some (({ s with conn := s.conn.stopReadInLoop } : Server).goto t rest)
  | .connectDestroyed =>
    some (({ s with destroys := s.destroys + 1 } : Server).goto t
      (if s.conn.state_ = .kConnected then .setDisconnected :: .remove :: rest
        else .remove :: rest))
  | .removeConnectionInLoop =>
    if s.alive then
      some ((({ s with
        registered := false
        destroyQueued := s.destroyQueued + 1 } : Server).post s.loop_ .connectDestroyed).goto t
        rest)
    else none
  | .notice _ | .other => some (s.goto t (.user :: rest))

/-- The next statement of a function that the thread has entered. Nothing is said of what a
destroyed `TcpServer` does. -/
def go (s : Server) (t : Thread) (k : Answer) : Option Server :=
  match s.stack t with
  | [] | .user :: _ => none
  | .handleEvent revents :: rest => some (s.goto t (dispatch revents ++ rest))
  | .handleRead :: rest =>
    match k.read with
    | .data => some (s.goto t (.user :: rest))
    | .eof => some (s.goto t (.handleClose :: rest))
    | .error => some (s.goto t rest)
  | .handleWrite :: rest =>
    (s.conn.handleWrite k.write).map fun r =>
      ({ s with conn := r.1 } : Server).goto t
        (if r.2 then
          (if r.1.writeCompleteCallback_ then [.queueNotice .writeComplete] else []) ++
            .ifDisconnecting :: rest
        else rest)
  | .ifDisconnecting :: rest =>
    some (({ s with
      conn := if s.conn.state_ = .kDisconnecting then s.conn.shutdownInLoop
        else s.conn } : Server).goto t rest)
  | .handleClose :: rest =>
    some (({ s with conn := s.conn.disableAll, closes := s.closes + 1 } : Server).goto t
      (.connectionCallback .handleClose :: .closeCallback :: rest))
  | .connectionCallback caller :: rest =>
    some (({ s with
      callbacks := s.callbacks ++ [(caller, decide (s.conn.state_ = .kConnected))]
      exposed := true } : Server).goto t (.user :: rest))
  | .closeCallback :: rest =>
    if s.alive then
      let s := { s with closeCallbacks := s.closeCallbacks + 1 }
      if t = .loop .base then some (s.goto t (.exec .removeConnectionInLoop :: rest))
      else some ((s.post .base .removeConnectionInLoop).goto t rest)
    else none
  | .setDisconnected :: rest =>
    some (({ s with conn := s.conn.setDisconnected } : Server).goto t
      (.connectionCallback .connectDestroyed :: rest))
  | .remove :: rest =>
    some (({ s with conn := s.conn.remove, destroyed := s.destroyed + 1 } : Server).goto t rest)
  | .send m :: rest =>
    if s.conn.state_ = .kConnected then
      some (({ s with accepted := s.accepted ++ [m] } : Server).goto t
        (.runInloop (.sendInLoop m) :: rest))
    else some (s.goto t rest)
  | .shutdown :: rest =>
    if s.conn.state_ = .kConnected then some (s.goto t (.setDisconnecting :: rest))
    else some (s.goto t rest)
  | .setDisconnecting :: rest =>
    some (({ s with conn := { s.conn with state_ := .kDisconnecting } } : Server).goto t
      (.runInloop .shutdownInLoop :: rest))
  | .forceClose :: rest =>
    if s.conn.state_ = .kConnected ∨ s.conn.state_ = .kDisconnecting then
      some (s.goto t (.queueForceClose :: rest))
    else some (s.goto t rest)
  | .runInloop f :: rest =>
    if t = .loop s.loop_ then some (s.goto t (.exec f :: rest))
    else some ((s.post s.loop_ f).goto t rest)
  | .queueForceClose :: rest => some ((s.post s.loop_ .forceCloseInLoop).goto t rest)
  | .queueNotice n :: rest => some ((s.post s.loop_ (.notice n)).goto t rest)
  | .exec f :: rest => s.call t rest k f

/-- The next statement of `EventLoop::loop` or `doPendingFunctors`. -/
def loop (s : Server) (l : Loop) : Option Server :=
  match s.phase l with
  | .poll => none
  | .activeChannels (some revents) =>
    some ((s.setPhase l (.activeChannels none)).goto (.loop l) [.handleEvent revents])
  | .activeChannels none => some (s.setPhase l .swap)
  | .swap => some ((s.setQueue l (s.queue l).swap).setPhase l .functors)
  | .functors =>
    match (s.queue l).pop with
    | none => some (s.setPhase l .poll)
    | some (f, q) => some ((s.setQueue l q).goto (.loop l) [.exec f])

def Api.frame (s : Server) (t : Thread) : Api → Frame
  | .send message => .send ⟨s.called.length, t, message⟩
  | .shutdown => .shutdown
  | .forceClose => .forceClose
  | .startRead => .runInloop .startReadInLoop
  | .stopRead => .runInloop .stopReadInLoop

def Api.record (s : Server) (t : Thread) : Api → List Sent
  | .send message => s.called ++ [⟨s.called.length, t, message⟩]
  | .shutdown | .forceClose | .startRead | .stopRead => s.called

inductive Action where
  | go (t : Thread) (k : Answer)
  | loop (l : Loop)
  -- `poll` returns, with the given event of the connection's channel or without one
  | poll (l : Loop) (revents : Option Events)
  -- the loop's thread enters some other code of the user: the handler of another channel, or what
  -- runs before and after `loop`
  | enter (l : Loop)
  | leave (l : Loop)
  | call (t : Thread) (a : Api)
  -- the user's code queues a functor of its own
  | post (t : Thread) (l : Loop)
  -- `Acceptor` calls `TcpServer::newConnection`
  | newConnection
  -- the user's code destroys the `TcpServer`
  | destroy
  deriving DecidableEq

/-- `TcpServer::~TcpServer`, on the thread of its loop. -/
def destroy (s : Server) : Server :=
  let s' : Server := { s with alive := false, registered := false }
  if s.registered then
    if s.loop_ = .base then
      s'.goto (.loop .base) (.exec .connectDestroyed :: s.stack (.loop .base))
    else ({ s' with destroyQueued := s.destroyQueued + 1 } : Server).post s.loop_ .connectDestroyed
  else s'

/-- One atomic step of one thread. -/
def step (s : Server) : Action → Option Server
  | .go t k => s.go t k
  | .loop l => if s.stack (.loop l) = [] then s.loop l else none
  | .poll l revents =>
    if s.stack (.loop l) = [] ∧ s.phase l = .poll ∧ (revents.isSome = true →
        l = s.loop_ ∧ (s.conn.poller_.interest s.conn.channel_.fd_).isSome = true) then
      some (s.setPhase l (.activeChannels revents))
    else none
  | .enter l =>
    if s.stack (.loop l) = [] ∧ (s.phase l).outside then
      some (s.goto (.loop l) [.user])
    else none
  | .leave l =>
    match s.stack (.loop l) with
    | .user :: rest => some (s.goto (.loop l) rest)
    | _ => none
  | .call t a =>
    if s.inUserCode t ∧ s.exposed then
      some (({ s with called := a.record s t } : Server).goto t (a.frame s t :: s.stack t))
    else none
  | .post t l => if s.inUserCode t then some (s.post l .other) else none
  | .newConnection =>
    match s.phase .base with
    | .activeChannels _ =>
      if s.stack (.loop .base) = [] ∧ s.alive ∧ !s.created then
        some (({ s with created := true, registered := true } : Server).goto (.loop .base)
          [.runInloop .connectEstablished])
      else none
    | _ => none
  | .destroy => if s.inUserCode (.loop .base) ∧ s.alive then some s.destroy else none

structure Config where
  loop_ : Loop
  self : Nat
  fd_ : Nat
  highWaterMark_ : Nat
  writeCompleteCallback_ : Bool
  highWaterCallback_ : Bool

def init (config : Config) : Server where
  loop_ := config.loop_
  conn := {
    channel_ := { self := config.self, fd_ := config.fd_ }
    highWaterMark_ := config.highWaterMark_
    writeCompleteCallback_ := config.writeCompleteCallback_
    highWaterCallback_ := config.highWaterCallback_ }

end Server
end MuduoStudy
