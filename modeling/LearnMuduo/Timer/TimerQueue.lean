/-
  LearnMuduo.Timer.TimerQueue

  `bing::TimerQueue` and `bing::Timer` (Timer/TimerQueue.cc, Timer/Timer.h), with the
  functions of `EventLoop` that register a callback.

  Timers are objects on the heap behind raw pointers; `timers_` orders their entries by
  expiration and then by address.  What lies outside is a `World`: the readings of the
  clock, the addresses `operator new` returns, and the calls of `AddTimer` that happen
  while a callback runs.  Clock readings are numbered in the order they are taken; the
  kernel's (when the timerfd is armed or read) and the time of a run count as readings.
-/
import Mathlib.Data.Prod.Lex
import Mathlib.Logic.Function.Basic
import LearnMuduo.Base.TimeStamp
import LearnMuduo.Lib.OrderedSet

namespace LearnMuduo

open Lib

/-- The greatest address; no object lies there. -/
def UINTPTR_MAX : Nat := 2 ^ 64 - 1

structure Timer where
  /-- Which call of `AddTimer` made it, in the place of the callback. -/
  serial : Nat
  expiration_ : TimeStamp
  interval_ : ℚ
  repeat_ : Bool
  deriving DecidableEq, Repr

def Timer.new (serial : Nat) (expiration : TimeStamp) (interval : ℚ) : Timer :=
  { serial := serial, expiration_ := expiration, interval_ := interval, repeat_ := 0 < interval }

def Timer.Restart (timer : Timer) (now : TimeStamp) : Except Fault Timer :=
  AddTime now timer.interval_ >>= fun expiration => .ok { timer with expiration_ := expiration }

/-- `std::pair<TimeStamp, Timer*>`. -/
abbrev TimerEntry := Int ×ₗ Nat

def TimerEntry.expiration (e : TimerEntry) : TimeStamp := (ofLex e).1

def TimerEntry.timer (e : TimerEntry) : Nat := (ofLex e).2

/-- The ways of `EventLoop` to register a callback. -/
inductive AddCall where
  | RunAt (timestamp : TimeStamp)
  | RunAfter (wait_time : ℚ)
  | RunEvery (interval : ℚ)
  deriving DecidableEq, Repr

structure World where
  clock : Nat → TimeStamp
  malloc : Nat → Nat
  /-- The registrations made while the callback of a timer runs, the `n`-th run of all;
      whether on the loop thread, by the callback itself, or by another thread. -/
  during : Nat → Nat → List (AddCall × Bool)

structure Itimerspec where
  tv_sec : Int
  tv_nsec : Int
  deriving DecidableEq, Repr

/-- An armed timerfd: the reading `ResetTimer` took, the time the kernel armed it, and
    the time it expires or has expired, if it has not been read since. -/
structure Timerfd where
  readAt : TimeStamp
  armedAt : TimeStamp
  expiry : TimeStamp
  deriving DecidableEq, Repr

/-- A callback was run. -/
structure TimerRun where
  serial : Nat
  due : TimeStamp
  time : TimeStamp
  deriving DecidableEq, Repr

structure TimerQueue where
  /-- The `Timer` objects, by address. -/
  heap : Nat → Option Timer
  timers_ : List TimerEntry
  activeTimers_ : List TimerEntry
  /-- The queued functors `AddTimerInloop`. -/
  functors : List Nat
  timerfd : Option Timerfd
  /-- How many readings of the clock were taken. -/
  readings : Nat
  /-- The registrations, each with the reading it took (0 for `RunAt`). -/
  calls : List (AddCall × TimeStamp)
  runs : List TimerRun
  freed : List Nat
  settings : List Itimerspec

namespace TimerQueue

def new : TimerQueue :=
  { heap := fun _ => none, timers_ := [], activeTimers_ := [], functors := [], timerfd := none
    readings := 0, calls := [], runs := [], freed := [], settings := [] }

/-- A reading was taken. -/
def tick (q : TimerQueue) : TimerQueue := { q with readings := q.readings + 1 }

/-- `TimeStamp::now()`. -/
def now (q : TimerQueue) (w : World) : TimeStamp := w.clock q.readings

def deref (q : TimerQueue) (timer : Nat) : Except Fault Timer :=
  match q.heap timer with
  | some t => .ok t
  | none => .error .dangling

/-- `::timerfd_settime` with a relative time; `EINVAL` fails the assertion. -/
def timerfd_settime (newtime : Itimerspec) (readAt t : TimeStamp) :
    Except Fault (Option Timerfd) :=
  if 0 ≤ newtime.tv_sec ∧ 0 ≤ newtime.tv_nsec ∧ newtime.tv_nsec < 1000000000 then
    if newtime.tv_sec = 0 ∧ newtime.tv_nsec = 0 then .ok none
    else .ok (some
      { readAt := readAt, armedAt := t
        expiry := t + newtime.tv_sec * kMicroSecond2Second + newtime.tv_nsec / 1000 })
  else .error .assertion

def ResetTimer (q : TimerQueue) (w : World) (timer : Nat) : Except Fault TimerQueue :=
  q.deref timer >>= fun t =>
    int64 (t.expiration_ - q.now w) >>= fun diff =>
      let seconds_diff := if diff < 100 then 100 else diff
      let newtime : Itimerspec :=
        { tv_sec := seconds_diff / kMicroSecond2Second
          tv_nsec := seconds_diff % kMicroSecond2Second * 1000 }
      timerfd_settime newtime (q.now w) (q.tick.now w) >>= fun fd =>
        .ok { q.tick.tick with timerfd := fd, settings := q.settings ++ [newtime] }

/-- The first component says that the timer is the first to expire. -/
def Insert (q : TimerQueue) (timer : Nat) : Except Fault (Bool × TimerQueue) :=
  q.deref timer >>= fun t =>
    let reset_instantly := match q.timers_ with
      | [] => true
      | e :: _ => decide (t.expiration_ < e.expiration)
    .ok (reset_instantly, { q with timers_ := emplace (toLex (t.expiration_, timer)) q.timers_ })

def AddTimerInloop (q : TimerQueue) (w : World) (timer : Nat) : Except Fault TimerQueue :=
  q.Insert timer >>= fun r => if r.1 then r.2.ResetTimer w timer else .ok r.2

/-- `new Timer`, registered by `call` at the reading `t`. -/
def newTimer (q : TimerQueue) (w : World) (timestamp : TimeStamp) (interval : ℚ) (call : AddCall)
    (t : TimeStamp) : Except Fault (Nat × TimerQueue) :=
  let serial := q.calls.length
  let timer := w.malloc serial
  if q.heap timer = none ∧ timer < UINTPTR_MAX then
    .ok (timer, { q with
      heap := Function.update q.heap timer (some (Timer.new serial timestamp interval))
      calls := q.calls ++ [(call, t)] })
  else .error .badAlloc

/-- `AddTimer`: on the loop thread `runInLoop` calls at once. -/
def AddTimer (q : TimerQueue) (w : World) (timestamp : TimeStamp) (interval : ℚ)
    (isInLoopThread : Bool) (call : AddCall) (t : TimeStamp) : Except Fault TimerQueue :=
  q.newTimer w timestamp interval call t >>= fun p =>
    if isInLoopThread then p.2.AddTimerInloop w p.1
    else .ok { p.2 with functors := p.2.functors ++ [p.1] }

/-- `RunAt`, `RunAfter` or `RunEvery` of `EventLoop`. -/
def register (q : TimerQueue) (w : World) (isInLoopThread : Bool) (call : AddCall) :
    Except Fault TimerQueue :=
  match call with
  | .RunAt timestamp => q.AddTimer w timestamp 0 isInLoopThread call 0
  | .RunAfter wait_time =>
    AddTime (q.now w) wait_time >>= fun timestamp =>
      q.tick.AddTimer w timestamp 0 isInLoopThread call (q.now w)
  | .RunEvery interval =>
    AddTime (q.now w) interval >>= fun timestamp =>
      q.tick.AddTimer w timestamp interval isInLoopThread call (q.now w)

/-- `it.second->Run()`, and what happens meanwhile. -/
def Run (w : World) (q : TimerQueue) (it : TimerEntry) : Except Fault TimerQueue :=
  q.deref it.timer >>= fun t =>
    run (fun q (c : AddCall × Bool) => q.register w c.2 c.1)
      { q.tick with runs := q.runs ++ [⟨t.serial, it.expiration, q.now w⟩] }
      (w.during q.runs.length t.serial)

/-- The body of the loop in `ResetTimers`. -/
def restart (w : World) (q : TimerQueue) (it : TimerEntry) : Except Fault TimerQueue :=
  q.deref it.timer >>= fun t =>
    if t.repeat_ then
      t.Restart (q.now w) >>= fun t' =>
        { q.tick with heap := Function.update q.heap it.timer (some t') }.Insert it.timer
          >>= fun r => .ok r.2
    else
      .ok { q with
        heap := Function.update q.heap it.timer none
        freed := q.freed ++ [t.serial] }

def ResetTimers (q : TimerQueue) (w : World) : Except Fault TimerQueue :=
  run (restart w) q q.activeTimers_ >>= fun q =>
    match q.timers_ with
    | [] => .ok q
    | e :: _ => q.ResetTimer w e.timer

/-- The read disarms an expired timerfd; before its expiry it is refused. -/
def ReadFromFd (q : TimerQueue) (w : World) : TimerQueue :=
  { q.tick with
    timerfd := q.timerfd.filter fun fd => decide (q.now w < fd.expiry) }

/-- The expired entries move from `timers_` to `activeTimers_`. -/
def expire (q : TimerQueue) (w : World) : TimerQueue :=
  let sentinel : TimerEntry := toLex (q.now w, UINTPTR_MAX)
  { q.tick with
    activeTimers_ := q.timers_.takeWhile (· < sentinel)
    timers_ := q.timers_.dropWhile (· < sentinel) }

def HandleRead (q : TimerQueue) (w : World) : Except Fault TimerQueue :=
  let q := (q.ReadFromFd w).expire w
  run (Run w) q q.activeTimers_ >>= fun q => q.ResetTimers w

/-- What reaches the queue while none of its handlers runs. -/
inductive Op where
  | register (call : AddCall) (isInLoopThread : Bool)
  /-- The loop runs the next queued `AddTimerInloop`. -/
  | functor
  | HandleRead
  deriving DecidableEq, Repr

def step (w : World) (q : TimerQueue) : Op → Except Fault TimerQueue
  | .register call isInLoopThread => q.register w isInLoopThread call
  | .functor =>
    match q.functors with
    | [] => .ok q
    | timer :: rest => { q with functors := rest }.AddTimerInloop w timer
  | .HandleRead => q.HandleRead w

end TimerQueue

end LearnMuduo
