/-
  LearnMuduo.Server.Loops

  A running `HttpServer` (Net/TcpServer.cc, Net/EventLoop.cc, Http/httpServer.cc) as its
  main loop and its IO loops, and the references they hold to the connections.  The
  number of IO loops is a parameter; an `HttpServer` has `kThreaNums` of them.

  Each loop takes its steps in its own order, and the loops interleave: a step ends where
  another thread can see what it did, at a store to `state_` or at a push to another
  loop's queue.  A connection is known by the number in its name.  The message callback
  is any code that sends, reads the input Buffer and calls `shutdown`; the time decides
  which way `HandleIdleConnection` goes.  `holders` lists the connections that a
  `shared_ptr` points to, and `destroyedIn` records where `connectDestoryed` has run.
-/
import Mathlib.Data.Fintype.Basic
import Mathlib.Logic.Function.Basic
import LearnMuduo.Lib.Reach
import LearnMuduo.Net.ConnEvents

namespace LearnMuduo

open Lib

def kThreaNums : Nat := 4

/-- An IO loop of the thread pool of an `HttpServer`. -/
abbrev LoopId := Fin kThreaNums

def firstLoop : LoopId := ⟨0, by decide⟩

/-- `EventLoopThreadPool::getNextLoop` goes round. -/
def getNextLoop {n : Nat} (i : Fin n) : Fin n := ⟨(i.val + 1) % n, Nat.mod_lt _ i.pos⟩

/-- A functor in the queue of an IO loop; the first and the last are bound to a
    `TcpConnectionPtr`, the second to the raw `this`. -/
inductive Kind where
  | connectEstablished
  | shutdownInloop
  | connectDestoryed
  deriving DecidableEq, Repr

structure IoFunctor where
  kind : Kind
  conn : Nat
  deriving DecidableEq, Repr

/-- The connection the functor owns a part of. -/
def IoFunctor.owned (f : IoFunctor) : Option Nat :=
  if f.kind = .shutdownInloop then none else some f.conn

/-- Where an IO loop is in `Channel::handleEvent` of a connection. -/
inductive Stage where
  /-- At the test for a hang-up. -/
  | hangup
  /-- In `handleClose`, before `closecb_`; the handler goes on at the next stage. -/
  | closing (reads : Bool)
  /-- At the test for input. -/
  | input
  /-- In `messagecb_`. -/
  | message
  /-- At the test for output. -/
  | output
  deriving DecidableEq, Repr

inductive IoPc where
  | polling
  /-- Between two entries of `activeChannels_`. -/
  | handling
  | handler (conn : Nat) (revents : Events) (stage : Stage)
  /-- In `doPendingFunctors`. -/
  | functors
  deriving DecidableEq, Repr

structure IoLoop where
  pc : IoPc
  activeChannels_ : List (Nat × Events)
  pendingFunctors_ : List IoFunctor
  localFunctors : List IoFunctor
  /-- Those of `localFunctors` that have not run. -/
  todo : List IoFunctor
  deriving DecidableEq, Repr

/-- Where the main loop is; a connection named is in the `TcpConnectionPtr` of
    `HandleIdleConnection`. -/
inductive MainPc where
  | handling
  | locked (conn : Nat)
  /-- In `shutdown`, behind the test of `state_`. -/
  | shutting (conn : Nat)
  /-- In `shutdown`, behind the store to `state_`. -/
  | queueing (conn : Nat)
  | releasing (conn : Nat)
  | functors
  deriving DecidableEq, Repr

structure MainLoop where
  pc : MainPc
  /-- The queued functors `removeConnectionInLoop`, each bound to a connection. -/
  pendingFunctors_ : List Nat
  localFunctors : List Nat
  todo : List Nat
  deriving DecidableEq, Repr

structure ServerConn (n : Nat := kThreaNums) where
  tcp : TcpConnection
  loop_ : Fin n
  /-- The loop that has run `connectDestoryed`. -/
  destroyedIn : Option (Fin n)

/-- `connectDestoryed` on the loop `i`. -/
def ServerConn.connectDestoryed {n : Nat} (conn : ServerConn n) (i : Fin n) : ServerConn n :=
  let tcp := if conn.tcp.state_ = .kConnected then ConnLoop.closing conn.tcp else conn.tcp
  { conn with tcp := { tcp with channel_ := tcp.channel_.remove }, destroyedIn := some i }

structure HttpServerLoops (n : Nat := kThreaNums) where
  conns : Nat → ServerConn n
  nextConnId_ : Nat
  next_ : Fin n
  connections_ : List Nat
  auto_close_idleconnection_ : Bool
  /-- The timers `HandleIdleConnection`, each bound to a `weak_ptr`. -/
  idleTimers : List Nat
  main : MainLoop
  io : Fin n → IoLoop

inductive MainAction where
  | newConnection (now : Nat)
  | HandleIdleConnection (conn : Nat)
  | testIdle (expired : Bool)
  | setState
  | queueShutdown
  | release
  | swap
  | removeConnectionInLoop
  | batchDone
  deriving DecidableEq, Repr

inductive IoAction where
  | poll (events : List (Nat × Events))
  | handleEvent
  | hangup
  | closecb
  | handleRead (r : ReadvResult) (ret : Int)
  | act (a : UserAction)
  | messageDone
  | handleWrite (w : WriteResult)
  | swap
  | functor
  | batchDone
  deriving DecidableEq, Repr

inductive LoopsAction (n : Nat := kThreaNums) where
  | main (a : MainAction)
  | io (i : Fin n) (a : IoAction)
  deriving DecidableEq, Repr

def MainPc.temporary : MainPc → Option Nat
  | .locked c => some c
  | .shutting c => some c
  | .queueing c => some c
  | .releasing c => some c
  | _ => none

/-- `connPtr` of `handleClose`, or the argument of `messagecb_`. -/
def IoPc.temporary : IoPc → Option Nat
  | .handler c _ (.closing _) => some c
  | .handler c _ .message => some c
  | _ => none

def IoLoop.new : IoLoop :=
  { pc := .polling, activeChannels_ := [], pendingFunctors_ := [], localFunctors := []
    todo := [] }

def IoLoop.holders (l : IoLoop) : List Nat :=
  (l.pendingFunctors_ ++ l.localFunctors).filterMap IoFunctor.owned ++ l.pc.temporary.toList

namespace HttpServerLoops

variable {n : Nat}

/-- No connection has been accepted; the first one goes to the loop `first`. -/
def start (first : Fin n) (closeIdleConn : Bool) : HttpServerLoops n :=
  { conns := fun _ =>
      { tcp := TcpConnection.new 0, loop_ := first, destroyedIn := none }
    nextConnId_ := 1
    next_ := first
    connections_ := []
    auto_close_idleconnection_ := closeIdleConn
    idleTimers := []
    main := { pc := .handling, pendingFunctors_ := [], localFunctors := [], todo := [] }
    io := fun _ => IoLoop.new }

def new (closeIdleConn : Bool) : HttpServerLoops := start firstLoop closeIdleConn

/-- The connections some `shared_ptr` points to. -/
def holders (s : HttpServerLoops n) : List Nat :=
  s.connections_ ++ (s.main.pendingFunctors_ ++ s.main.localFunctors ++
    s.main.pc.temporary.toList ++ (List.finRange n).flatMap fun i => (s.io i).holders)

def tcp (s : HttpServerLoops n) (c : Nat) : TcpConnection := (s.conns c).tcp

def setTcp (s : HttpServerLoops n) (c : Nat) (tcp : TcpConnection) : HttpServerLoops n :=
  { s with conns := Function.update s.conns c { s.conns c with tcp := tcp } }

def setIo (s : HttpServerLoops n) (i : Fin n) (l : IoLoop) : HttpServerLoops n :=
  { s with io := Function.update s.io i l }

def setIoPc (s : HttpServerLoops n) (i : Fin n) (pc : IoPc) : HttpServerLoops n :=
  s.setIo i { s.io i with pc := pc }

def setMainPc (s : HttpServerLoops n) (pc : MainPc) : HttpServerLoops n :=
  { s with main := { s.main with pc := pc } }

/-- `queueInLoop` of the loop of the functor's connection. -/
def queueInLoop (s : HttpServerLoops n) (f : IoFunctor) : HttpServerLoops n :=
  let i := (s.conns f.conn).loop_
  s.setIo i { s.io i with pendingFunctors_ := (s.io i).pendingFunctors_ ++ [f] }

/-! ## The main loop -/

/-- `TcpServer::newConnection`; the object is constructed at the time `now`. -/
def newConnection (s : HttpServerLoops n) (now : Nat) : HttpServerLoops n :=
  let c := s.nextConnId_
  { s with
    conns := Function.update s.conns c
      { tcp := TcpConnection.new now, loop_ := s.next_, destroyedIn := none }
    nextConnId_ := c + 1
    next_ := getNextLoop s.next_
    connections_ := c :: s.connections_ }.queueInLoop ⟨.connectEstablished, c⟩

def removeConnectionInLoop (s : HttpServerLoops n) (c : Nat) : HttpServerLoops n :=
  { s with connections_ := s.connections_.filter (· ≠ c) }.queueInLoop ⟨.connectDestoryed, c⟩

def mainStep (s : HttpServerLoops n) : MainAction → Option (HttpServerLoops n)
  | .newConnection now =>
    if s.main.pc = .handling ∧ s.nextConnId_ < 2 ^ 31 then some (s.newConnection now) else none
  | .HandleIdleConnection c =>
    if s.main.pc = .handling ∧ c ∈ s.idleTimers then
      let s := { s with idleTimers := s.idleTimers.erase c }
      -- `weak_ptr::lock` succeeds while some `shared_ptr` is left
      some (if c ∈ s.holders then s.setMainPc (.locked c) else s)
    else none
  | .testIdle expired =>
    match s.main.pc with
    | .locked c =>
      -- an idle connection is shut down, for another one the timer is set again
      if expired then
        some (s.setMainPc (if (s.tcp c).state_ = .kConnected then .shutting c else .releasing c))
      else some ({ s with idleTimers := s.idleTimers ++ [c] }.setMainPc (.releasing c))
    | _ => none
  | .setState =>
    match s.main.pc with
    | .shutting c =>
      some ((s.setTcp c { s.tcp c with state_ := .kDisConnecting }).setMainPc (.queueing c))
    | _ => none
  | .queueShutdown =>
    match s.main.pc with
    | .queueing c => some ((s.queueInLoop ⟨.shutdownInloop, c⟩).setMainPc (.releasing c))
    | _ => none
  | .release =>
    match s.main.pc with
    | .releasing _ => some (s.setMainPc .handling)
    | _ => none
  | .swap =>
    if s.main.pc = .handling then
      some { s with main :=
        { pc := .functors, pendingFunctors_ := [], localFunctors := s.main.pendingFunctors_
          todo := s.main.pendingFunctors_ } }
    else none
  | .removeConnectionInLoop =>
    match s.main.pc, s.main.todo with
    | .functors, c :: rest =>
      some ({ s with main := { s.main with todo := rest } }.removeConnectionInLoop c)
    | _, _ => none
  | .batchDone =>
    if s.main.pc = .functors ∧ s.main.todo = [] then
      some { s with main := { s.main with pc := .handling, localFunctors := [] } }
    else none

/-! ## An IO loop -/

/-- Entry to `handleClose`, up to the callbacks. -/
def enterClose (s : HttpServerLoops n) (i : Fin n) (c : Nat) (revents : Events)
    (reads : Bool) : HttpServerLoops n :=
  (s.setTcp c (ConnLoop.closing (s.tcp c))).setIoPc i (.handler c revents (.closing reads))

/-- `handleRead` up to its callback. -/
def handleRead (s : HttpServerLoops n) (i : Fin n) (c : Nat) (revents : Events)
    (r : ReadvResult) (ret : Int) : Option (HttpServerLoops n) :=
  match (s.tcp c).inputBuffer_.readInput r ret with
  | .ok (b, _, h) =>
    let s := s.setTcp c { s.tcp c with inputBuffer_ := b }
    match h with
    | .messagecb_ => some (s.setIoPc i (.handler c revents .message))
    | .handleClose => some (s.enterClose i c revents false)
    | .handleError => some (s.setIoPc i (.handler c revents .output))
  | .error _ => none

/-- What the functor does on the loop `i`; the connection callback registers the timer of
    an established connection. -/
def runFunctor (s : HttpServerLoops n) (i : Fin n) (f : IoFunctor) : HttpServerLoops n :=
  match f.kind with
  | .connectEstablished =>
    let s := s.setTcp f.conn (s.tcp f.conn).established
    if s.auto_close_idleconnection_ then { s with idleTimers := s.idleTimers ++ [f.conn] } else s
  | .shutdownInloop => s.setTcp f.conn (s.tcp f.conn).shutdownInloop
  | .connectDestoryed =>
    { s with conns := Function.update s.conns f.conn ((s.conns f.conn).connectDestoryed i) }

def ioStep (s : HttpServerLoops n) (i : Fin n) : IoAction → Option (HttpServerLoops n)
  | .poll events =>
    -- `epoll_wait` reports the descriptors that this loop's kernel object watches
    if (s.io i).pc = .polling ∧ ∀ e ∈ events,
        (s.conns e.1).loop_ = i ∧ (s.tcp e.1).channel_.interest.isSome = true then
      some (s.setIo i { s.io i with pc := .handling, activeChannels_ := events })
    else none
  | .handleEvent =>
    match (s.io i).pc, (s.io i).activeChannels_ with
    | .handling, (c, revents) :: rest =>
      some (s.setIo i { s.io i with
        pc := .handler c revents .hangup, activeChannels_ := rest })
    | _, _ => none
  | .hangup =>
    match (s.io i).pc with
    | .handler c revents .hangup =>
      some (if revents.EPOLLHUP && !revents.EPOLLIN then s.enterClose i c revents true
        else s.setIoPc i (.handler c revents .input))
    | _ => none
  | .closecb =>
    match (s.io i).pc with
    | .handler c revents (.closing reads) =>
      some ({ s with main := { s.main with
          pendingFunctors_ := s.main.pendingFunctors_ ++ [c] } }.setIoPc i
        (.handler c revents (if reads then .input else .output)))
    | _ => none
  | .handleRead r ret =>
    match (s.io i).pc with
    | .handler c revents .input =>
      -- the events are those reported, whatever `handleClose` has disabled by now
      if revents.EPOLLIN || revents.EPOLLPRI then s.handleRead i c revents r ret
      else some (s.setIoPc i (.handler c revents .output))
    | _ => none
  | .act a =>
    match (s.io i).pc with
    | .handler c _ .message =>
      match a.act (s.tcp c) with
      | .ok tcp => some (s.setTcp c tcp)
      | .error _ => none
    | _ => none
  | .messageDone =>
    match (s.io i).pc with
    | .handler c revents .message => some (s.setIoPc i (.handler c revents .output))
    | _ => none
  | .handleWrite w =>
    match (s.io i).pc with
    | .handler c revents .output =>
      some ((if revents.EPOLLOUT then s.setTcp c ((s.tcp c).handleWrite w) else s).setIoPc i
        .handling)
    | _ => none
  | .swap =>
    if (s.io i).pc = .handling ∧ (s.io i).activeChannels_ = [] then
      some (s.setIo i { s.io i with
        pc := .functors
        pendingFunctors_ := []
        localFunctors := (s.io i).pendingFunctors_
        todo := (s.io i).pendingFunctors_ })
    else none
  | .functor =>
    match (s.io i).pc, (s.io i).todo with
    | .functors, f :: rest => some ((s.setIo i { s.io i with todo := rest }).runFunctor i f)
    | _, _ => none
  | .batchDone =>
    if (s.io i).pc = .functors ∧ (s.io i).todo = [] then
      some (s.setIo i { s.io i with pc := .polling, localFunctors := [] })
    else none

def step (s : HttpServerLoops n) : LoopsAction n → Option (HttpServerLoops n)
  | .main a => s.mainStep a
  | .io i a => s.ioStep i a

end HttpServerLoops

end LearnMuduo
