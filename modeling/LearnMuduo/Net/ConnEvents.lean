/-
  LearnMuduo.Net.ConnEvents

  What a connection does on its loop: `Channel::handleEvent` (Net/Channel.cc) and
  the handlers of `TcpConnection` it calls, `connectEstablished` and
  `connectDestoryed` (Net/TcpConnection.cc).

  User code runs inside callbacks.  A callback is what it does with the connection
  it is given, and `ConnLoop` keeps a record of the callbacks that were invoked.
  The functions that make system calls take the outcomes as arguments.
-/
import LearnMuduo.Net.TcpConnection

namespace LearnMuduo

open Lib

/-- What user code may do with a connection and its input Buffer. -/
inductive UserAction where
  | send (message : Bytes) (w : WriteResult)
  | shutdown
  | retrieve (len : Nat)
  deriving DecidableEq, Repr

inductive Callback where
  | connectioncb_
  | messagecb_
  | closecb_
  deriving DecidableEq, Repr

/-- A callback, the connection as it was given to it, and what it did. -/
structure Invocation where
  callback : Callback
  conn : TcpConnection
  script : List UserAction

/-- What the callback does that is invoked after `n` others. -/
abbrev UserCode := Nat → Callback → List UserAction

/-- The branch `handleRead` takes. -/
inductive ReadHandler where
  | messagecb_
  | handleClose
  | handleError
  deriving DecidableEq, Repr

structure ConnLoop where
  conn : TcpConnection
  calls : List Invocation
  /-- `connectDestoryed` has run. -/
  destroyed : Bool

/-- What is handed to the connection on its loop: a report of `epoll_wait` with the
    outcomes of the calls it leads to (`ret` is what `handleRead` finds as the result
    of `readFd`), or the functor that ends the connection. -/
inductive LoopInput where
  | event (revents : Events) (r : ReadvResult) (ret : Int) (w : WriteResult)
  | connectDestoryed
  deriving DecidableEq, Repr

namespace UserAction

def act (conn : TcpConnection) : UserAction → Except Fault TcpConnection
  | .send message w => conn.send message w
  | .shutdown => .ok conn.shutdown
  | .retrieve len => .ok { conn with inputBuffer_ := conn.inputBuffer_.retrieve len }

end UserAction

/-- The test on `n` in `handleRead`. -/
def ReadHandler.of (n : Int) : ReadHandler :=
  if 0 < n then .messagecb_ else if n = 0 then .handleClose else .handleError

/-- `handleRead` up to the handler it calls: the input Buffer, `saveErrno` and that
    handler.  `readFd` returns no value, so `n` is whatever `ret` stands in its place. -/
def Buffer.readInput (b : Buffer) (r : ReadvResult) (ret : Int) :
    Except Fault (Buffer × Errno × ReadHandler) :=
  b.readFd r 0 >>= fun p => .ok (p.1, p.2, ReadHandler.of ret)

namespace ConnLoop

/-- User code is given the connection. -/
def invoke (user : UserCode) (cb : Callback) (s : ConnLoop) : Except Fault ConnLoop :=
  let script := user s.calls.length cb
  run UserAction.act s.conn script >>= fun conn =>
    .ok { s with conn := conn, calls := s.calls ++ [⟨cb, s.conn, script⟩] }

/-- `closecb_`, which is `TcpServer::removeConnection`: it only hands the connection
    to the main loop. -/
def closecb (s : ConnLoop) : ConnLoop :=
  { s with calls := s.calls ++ [⟨.closecb_, s.conn, []⟩] }

def connectEstablished (user : UserCode) (s : ConnLoop) : Except Fault ConnLoop :=
  { s with conn := s.conn.established }.invoke user .connectioncb_

/-- `handleClose` up to the callbacks. -/
def closing (conn : TcpConnection) : TcpConnection :=
  { conn with state_ := .kdisConnected, channel_ := conn.channel_.disableAll }

def handleClose (user : UserCode) (s : ConnLoop) : Except Fault ConnLoop :=
  { s with conn := closing s.conn }.invoke user .connectioncb_ >>= fun s => .ok s.closecb

/-- `handleError` reads `SO_ERROR` and prints it. -/
def handleError (s : ConnLoop) : ConnLoop := s

def withInput (s : ConnLoop) (b : Buffer) : ConnLoop :=
  { s with conn := { s.conn with inputBuffer_ := b } }

def handleRead (user : UserCode) (r : ReadvResult) (ret : Int) (s : ConnLoop) :
    Except Fault ConnLoop :=
  s.conn.inputBuffer_.readInput r ret >>= fun p =>
    match p.2.2 with
    | .messagecb_ => (s.withInput p.1).invoke user .messagecb_
    | .handleClose => (s.withInput p.1).handleClose user
    | .handleError => .ok (s.withInput p.1).handleError

/-- `Channel::handleEvent`. -/
def handleEvent (user : UserCode) (revents : Events) (r : ReadvResult) (ret : Int)
    (w : WriteResult) (s : ConnLoop) : Except Fault ConnLoop :=
  (if revents.EPOLLHUP && !revents.EPOLLIN then s.handleClose user else .ok s) >>= fun s =>
    (if revents.EPOLLIN || revents.EPOLLPRI then s.handleRead user r ret else .ok s) >>= fun s =>
      .ok (if revents.EPOLLOUT then { s with conn := s.conn.handleWrite w } else s)

def connectDestoryed (user : UserCode) (s : ConnLoop) : Except Fault ConnLoop :=
  (if s.conn.state_ = .kConnected then
    { s with conn := closing s.conn }.invoke user .connectioncb_
  else .ok s) >>= fun s =>
    .ok { s with
      conn := { s.conn with channel_ := s.conn.channel_.remove }
      destroyed := true }

/-- One turn of the loop for this connection: `epoll_wait` reports a descriptor only
    while the kernel watches it. -/
def step (user : UserCode) (s : ConnLoop) : LoopInput → Except Fault ConnLoop
  | .event revents r ret w =>
    if !s.destroyed && s.conn.channel_.interest.isSome then s.handleEvent user revents r ret w
    else .ok s
  | .connectDestoryed => if s.destroyed then .ok s else s.connectDestoryed user

/-- A connection just constructed. -/
def new (now : Nat) : ConnLoop :=
  { conn := TcpConnection.new now, calls := [], destroyed := false }

/-- `connectEstablished`, and then the inputs in their order. -/
def live (user : UserCode) (now : Nat) (inputs : List LoopInput) : Except Fault ConnLoop :=
  (new now).connectEstablished user >>= fun s => run (step user) s inputs

end ConnLoop

end LearnMuduo
