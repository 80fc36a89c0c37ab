/-
  LearnMuduo.Net.StartLoop

  `EventLoopThread::startLoop` (Net/EventLoopThread.cc) with the two waits in it: the one for
  the latch in `Thread::start` (Base/Thread.cc), and the one for `loop_`.

  The thread that `start` creates stores `tid_`, counts the latch down and calls `func_`,
  which is `threadFunc`.  What it does from there, and what the owner does with the loop, are
  the steps of Net/EventLoopThread: they are the operations of the monitor of `loop_`.
-/
import LearnMuduo.Base.CountDownLatch
import LearnMuduo.Net.EventLoopThread

namespace LearnMuduo

open Lib

/-- Where the new thread is in the function given to `std::thread`. -/
inductive ChildPc where
  | none
  | begun
  /-- Behind `tid_ = currentThread::tid()`. -/
  | stored
  /-- Behind `latch_->countDown()`, in `func_`. -/
  | running
  deriving DecidableEq, Repr

/-- Where the owner is in `startLoop`. -/
inductive StartPc where
  | fresh
  /-- In `thread_.start()`, in `latch_->wait()`. -/
  | starting
  /-- In `while (loop_ == NULL) cond_.wait()`. -/
  | waiting
  /-- At `return loop_`, which is behind the lock. -/
  | unlocked
  /-- `loop_` was returned: whether it was not NULL. -/
  | returned (loop_ : Bool)
  deriving DecidableEq, Repr

inductive StartStep (F T : Type*) where
  | start
  | storeTid (tid : Nat)
  | countDown
  | latchTest
  | latchWakes
  | condTest
  | condWakes
  | returns
  | other (i : ThreadStep F T) (pick : Option Unit)
  deriving DecidableEq, Repr

structure StartLoop (F T : Type*) where
  cond : Waiters (EventLoopThread F T) Unit
  latch : Waiters Int Unit
  running_ : Bool
  tid_ : Nat
  child : ChildPc
  owner : StartPc

/-! ## Threads of which nobody has asked the loop to quit -/

theorem EventLoop.loopStep_unasked {F T : Type*} {s s' : EventLoop F T} {a : LoopAction F}
    (hs : s.loopStep a = some s') (hquit : s.quit_ = false) (hpc : s.pc ≠ .returned) :
    s'.quit_ = false ∧ s'.pc ≠ .returned := by
  cases a with
  | enter | pollReturns | swap =>
    obtain ⟨-, heq⟩ := Option.ite_none_right_eq_some.mp hs
    obtain rfl := Option.some.inj heq
    grind
  | leave =>
    obtain ⟨⟨-, hset⟩, -⟩ := Option.ite_none_right_eq_some.mp hs
    rw [hquit] at hset
    cases hset
  | runNext =>
    simp only [EventLoop.loopStep] at hs
    split at hs
    · cases hs
    · obtain ⟨-, heq⟩ := Option.ite_none_right_eq_some.mp hs
      obtain rfl := Option.some.inj heq
      exact ⟨hquit, LoopPc.noConfusion⟩
  | wakeupTest =>
    obtain ⟨-, heq⟩ := Option.ite_none_right_eq_some.mp hs
    obtain rfl := Option.some.inj heq
    grind [EventLoop.wakeup]
  | poll | handleRead | push | callPending | functorReturns | donePending =>
    obtain ⟨⟨-, -⟩, heq⟩ := Option.ite_none_right_eq_some.mp hs
    obtain rfl := Option.some.inj heq
    grind [EventLoop.pushFunctor]

theorem EventLoop.threadStep_unasked {F T : Type*} [DecidableEq T] {s s' : EventLoop F T} {t : T}
    {a : ThreadAction F} (hs : s.threadStep t a = some s') (hne : a ≠ .quit)
    (hquit : s.quit_ = false) (hpc : s.pc ≠ .returned) : s'.quit_ = false ∧ s'.pc ≠ .returned := by
  obtain ⟨hpc', -, hquit'⟩ := threadStep_frame hs
  refine ⟨Bool.eq_false_iff.mpr fun hset => ?_, by rw [hpc']; exact hpc⟩
  rcases hquit'.mp hset with hbefore | hnow
  · exact absurd (hquit.symm.trans hbefore) Bool.false_ne_true
  · exact hne hnow

namespace EventLoopThread

variable {F T : Type*} {s s' : EventLoopThread F T} {i : ThreadStep F T}

/-- The thread is in `threadFunc` from `start` on, and the loop is there as long as nobody has
    asked it to quit. -/
structure Unasked (s : EventLoopThread F T) : Prop where
  fresh : s.func = .notStarted ↔ s.owner = .fresh
  quit : s.requested = false → s.loop.quit_ = false ∧ s.loop.pc ≠ .returned
  stays : s.requested = false → s.func ≠ .leaving ∧ s.func ≠ .finished
  there : s.requested = false → s.func = .looping → s.loop_ = true

theorem new_unasked : (new : EventLoopThread F T).Unasked :=
  ⟨by simp [new], fun _ => by simp [new, EventLoop.new], fun _ => by simp [new], fun _ => nofun⟩

variable [DecidableEq T]

theorem loop_of_not_publish (hne : i ≠ .publish) (hs : s.step i = some s')
    (hset : s'.loop_ = true) : s.loop_ = true := by
  cases i with
  | publish => exact absurd rfl hne
  | startLoop | startLoopReturns | destroy | join | clear =>
    obtain ⟨⟨-, -⟩, heq⟩ := Option.ite_none_right_eq_some.mp hs
    obtain rfl := Option.some.inj heq
    first | exact hset | cases hset
  | testLoop | construct | exit =>
    obtain ⟨-, heq⟩ := Option.ite_none_right_eq_some.mp hs
    obtain rfl := Option.some.inj heq
    exact hset
  | quit | destroyQuit | destroyWakeup | thread =>
    obtain ⟨-, heq⟩ := Option.ite_none_right_eq_some.mp hs
    obtain ⟨m, hm, rfl⟩ := Option.map_eq_some_iff.mp heq
    obtain ⟨loop, -, rfl⟩ := onLoop_ok hm
    exact hset
  | quitWakeup =>
    obtain ⟨-, heq⟩ := Option.ite_none_right_eq_some.mp hs
    obtain ⟨loop, -, rfl⟩ := onLoop_ok heq
    exact hset
  | loop a =>
    obtain ⟨-, heq⟩ := Option.ite_none_right_eq_some.mp hs
    obtain ⟨loop, -, rfl⟩ := Option.map_eq_some_iff.mp heq
    exact hset

theorem unrequested {requested : Bool} {a : ThreadAction F}
    (h : (requested || (a matches .quit)) = false) : requested = false ∧ a ≠ .quit := by
  obtain ⟨hbefore, hnow⟩ := Bool.or_eq_false_iff.mp h
  refine ⟨hbefore, ?_⟩
  rintro rfl
  cases hnow

theorem Unasked.step (h : s.Unasked) (hs : s.step i = some s') : s'.Unasked := by
  obtain ⟨hfresh, hquit, hstays, hthere⟩ := h
  cases i with
  | startLoop | startLoopReturns | destroy | clear | join =>
    obtain ⟨⟨h1, h2⟩, heq⟩ := Option.ite_none_right_eq_some.mp hs
    obtain rfl := Option.some.inj heq
    constructor <;> grind
  | testLoop | construct | publish | exit =>
    obtain ⟨h1, heq⟩ := Option.ite_none_right_eq_some.mp hs
    obtain rfl := Option.some.inj heq
    constructor <;> grind [EventLoop.new]
  | quit =>
    obtain ⟨-, heq⟩ := Option.ite_none_right_eq_some.mp hs
    obtain ⟨m, hm, rfl⟩ := Option.map_eq_some_iff.mp heq
    obtain ⟨loop, -, rfl⟩ := onLoop_ok hm
    exact ⟨hfresh, Bool.noConfusion, Bool.noConfusion, Bool.noConfusion⟩
  | destroyQuit =>
    obtain ⟨⟨howner, -⟩, heq⟩ := Option.ite_none_right_eq_some.mp hs
    obtain ⟨m, hm, rfl⟩ := Option.map_eq_some_iff.mp heq
    obtain ⟨loop, -, rfl⟩ := onLoop_ok hm
    refine ⟨iff_of_false (fun hfunc => ?_) OwnerPc.noConfusion, Bool.noConfusion,
      Bool.noConfusion, Bool.noConfusion⟩
    exact OwnerPc.noConfusion (howner.symm.trans (hfresh.mp hfunc))
  | quitWakeup =>
    obtain ⟨-, heq⟩ := Option.ite_none_right_eq_some.mp hs
    obtain ⟨loop, hloop, rfl⟩ := onLoop_ok heq
    refine ⟨hfresh, fun hreq => ?_, hstays, hthere⟩
    exact EventLoop.threadStep_unasked hloop (by simp) (hquit hreq).1 (hquit hreq).2
  | destroyWakeup =>
    obtain ⟨howner, heq⟩ := Option.ite_none_right_eq_some.mp hs
    obtain ⟨m, hm, rfl⟩ := Option.map_eq_some_iff.mp heq
    obtain ⟨loop, hloop, rfl⟩ := onLoop_ok hm
    refine ⟨iff_of_false (fun hfunc => ?_) OwnerPc.noConfusion, fun hreq => ?_, hstays, hthere⟩
    · exact OwnerPc.noConfusion (howner.symm.trans (hfresh.mp hfunc))
    · exact EventLoop.threadStep_unasked hloop (by simp) (hquit hreq).1 (hquit hreq).2
  | thread u a =>
    obtain ⟨-, heq⟩ := Option.ite_none_right_eq_some.mp hs
    obtain ⟨m, hm, rfl⟩ := Option.map_eq_some_iff.mp heq
    obtain ⟨loop, hloop, rfl⟩ := onLoop_ok hm
    refine ⟨hfresh, fun hreq => ?_, fun hreq => hstays (unrequested hreq).1,
      fun hreq => hthere (unrequested hreq).1⟩
    obtain ⟨hbefore, hne⟩ := unrequested hreq
    exact EventLoop.threadStep_unasked hloop hne (hquit hbefore).1 (hquit hbefore).2
  | loop a =>
    obtain ⟨h1, heq⟩ := Option.ite_none_right_eq_some.mp hs
    obtain ⟨loop, hloop, rfl⟩ := Option.map_eq_some_iff.mp heq
    refine ⟨hfresh, fun hreq => ?_, hstays, hthere⟩
    exact EventLoop.loopStep_unasked hloop (hquit hreq).1 (hquit hreq).2

/-- What a step leaves as it is that is not one of `startLoop`. -/
structure Keeps (i : ThreadStep F T) (s s' : EventLoopThread F T) : Prop where
  func : s'.func = .notStarted ↔ s.func = .notStarted
  constructing : i ≠ .construct → s.func = .constructing → s'.func = .constructing
  owner : s.owner = .waiting → s'.owner = .waiting
  requested : s.requested = true → s'.requested = true
  there : s.loop_ = true → s'.requested = true ∨ s'.loop_ = true

theorem Unasked.keeps (h : s.Unasked) (hs : s.step i = some s') (hstart : i ≠ .startLoop)
    (hreturns : i ≠ .startLoopReturns) : Keeps i s s' := by
  obtain ⟨hfresh, hquit, hstays, hthere⟩ := h
  cases i with
  | startLoop => exact absurd rfl hstart
  | startLoopReturns => exact absurd rfl hreturns
  | destroy | clear | join =>
    obtain ⟨⟨h1, h2⟩, heq⟩ := Option.ite_none_right_eq_some.mp hs
    obtain rfl := Option.some.inj heq
    constructor <;> grind
  | testLoop | construct | publish | exit =>
    obtain ⟨h1, heq⟩ := Option.ite_none_right_eq_some.mp hs
    obtain rfl := Option.some.inj heq
    constructor <;> grind
  | quit =>
    obtain ⟨-, heq⟩ := Option.ite_none_right_eq_some.mp hs
    obtain ⟨m, hm, rfl⟩ := Option.map_eq_some_iff.mp heq
    obtain ⟨loop, -, rfl⟩ := onLoop_ok hm
    exact ⟨Iff.rfl, fun _ => id, id, fun _ => rfl, Or.inr⟩
  | destroyQuit =>
    obtain ⟨⟨howner, -⟩, heq⟩ := Option.ite_none_right_eq_some.mp hs
    obtain ⟨m, hm, rfl⟩ := Option.map_eq_some_iff.mp heq
    obtain ⟨loop, -, rfl⟩ := onLoop_ok hm
    exact ⟨Iff.rfl, fun _ => id, fun hwaiting => OwnerPc.noConfusion (howner.symm.trans hwaiting),
      fun _ => rfl, Or.inr⟩
  | destroyWakeup =>
    obtain ⟨howner, heq⟩ := Option.ite_none_right_eq_some.mp hs
    obtain ⟨m, hm, rfl⟩ := Option.map_eq_some_iff.mp heq
    obtain ⟨loop, -, rfl⟩ := onLoop_ok hm
    exact ⟨Iff.rfl, fun _ => id, fun hwaiting => OwnerPc.noConfusion (howner.symm.trans hwaiting),
      id, Or.inr⟩
  | thread u a =>
    obtain ⟨-, heq⟩ := Option.ite_none_right_eq_some.mp hs
    obtain ⟨m, hm, rfl⟩ := Option.map_eq_some_iff.mp heq
    obtain ⟨loop, -, rfl⟩ := onLoop_ok hm
    exact ⟨Iff.rfl, fun _ => id, id, fun hrequested => by simp [hrequested], Or.inr⟩
  | quitWakeup =>
    obtain ⟨-, heq⟩ := Option.ite_none_right_eq_some.mp hs
    obtain ⟨loop, -, rfl⟩ := onLoop_ok heq
    exact ⟨Iff.rfl, fun _ => id, id, id, Or.inr⟩
  | loop a =>
    obtain ⟨-, heq⟩ := Option.ite_none_right_eq_some.mp hs
    obtain ⟨loop, -, rfl⟩ := Option.map_eq_some_iff.mp heq
    exact ⟨Iff.rfl, fun _ => id, id, id, Or.inr⟩

end EventLoopThread

namespace StartLoop

variable {F T : Type*}

/-- `Thread` begins with a latch of 1. -/
def new : StartLoop F T :=
  { cond := .new .new, latch := .new 1, running_ := false, tid_ := 0, child := .none
    owner := .fresh }

def isPublish : ThreadStep F T → Bool
  | .publish => true
  | _ => false

/-- A step of the new thread before it is in `func_`, or one of `startLoop` itself. -/
def tooEarly (s : StartLoop F T) : ThreadStep F T → Bool
  | .startLoop | .startLoopReturns => true
  | .construct => s.child != .running
  | _ => false

variable [DecidableEq T]

/-- The condition that `loop_` is there; the publication notifies one. -/
def loopThere : Monitor (EventLoopThread F T) (ThreadStep F T) where
  ready thread := thread.loop_
  op thread i := (thread.step i).map fun thread => (thread, if isPublish i then .one else .nobody)

def step (s : StartLoop F T) : StartStep F T → Option (StartLoop F T)
  | .start =>
    if s.owner = .fresh then
      (s.cond.step loopThere (.op .startLoop none)).bind fun cond =>
        (s.latch.step CountDownLatch.latch (.call ())).map fun latch =>
          { s with cond := cond, latch := latch, running_ := true, child := .begun
                   owner := .starting }
    else none
  | .storeTid tid =>
    if s.child = .begun ∧ 0 < tid then some { s with tid_ := tid, child := .stored } else none
  | .countDown =>
    if s.child = .stored then
      (s.latch.step CountDownLatch.latch (.op () none)).map fun latch =>
        { s with latch := latch, child := .running }
    else none
  | .latchTest =>
    if s.owner = .starting then
      (s.latch.step CountDownLatch.latch (.test ())).bind fun latch =>
        if latch.place () = .outside then
          (s.cond.step loopThere (.call ())).map fun cond =>
            { s with cond := cond, latch := latch, owner := .waiting }
        else some { s with latch := latch }
    else none
  | .latchWakes =>
    (s.latch.step CountDownLatch.latch (.spurious ())).map fun latch => { s with latch := latch }
  | .condTest =>
    (s.cond.step loopThere (.test ())).map fun cond =>
      { s with cond := cond, owner := if cond.place () = .outside then .unlocked else .waiting }
  | .condWakes => (s.cond.step loopThere (.spurious ())).map fun cond => { s with cond := cond }
  | .returns =>
    if s.owner = .unlocked then
      if s.cond.data.loop_ = true then
        (s.cond.step loopThere (.op .startLoopReturns none)).map fun cond =>
          { s with cond := cond, owner := .returned true }
      else some { s with owner := .returned false }
    else none
  | .other i pick =>
    if tooEarly s i = false then
      (s.cond.step loopThere (.op i pick)).map fun cond => { s with cond := cond }
    else none

/-! ## What a step does -/

/-- What a step finds and what it leaves. -/
inductive Effect (s : StartLoop F T) : StartStep F T → StartLoop F T → Prop
  | start {cond latch} (fresh : s.owner = .fresh)
      (hcond : s.cond.step loopThere (.op .startLoop none) = some cond)
      (hlatch : s.latch.step CountDownLatch.latch (.call ()) = some latch) :
      Effect s .start { s with
        cond := cond, latch := latch, running_ := true, child := .begun, owner := .starting }
  | storeTid {tid} (begun : s.child = .begun) (hpos : 0 < tid) :
      Effect s (.storeTid tid) { s with tid_ := tid, child := .stored }
  | countDown {latch} (stored : s.child = .stored)
      (hlatch : s.latch.step CountDownLatch.latch (.op () none) = some latch) :
      Effect s .countDown { s with latch := latch, child := .running }
  | latchPassed {cond latch} (starting : s.owner = .starting)
      (hlatch : s.latch.step CountDownLatch.latch (.test ()) = some latch)
      (hout : latch.place () = .outside)
      (hcond : s.cond.step loopThere (.call ()) = some cond) :
      Effect s .latchTest { s with cond := cond, latch := latch, owner := .waiting }
  | latchFailed {latch} (starting : s.owner = .starting)
      (hlatch : s.latch.step CountDownLatch.latch (.test ()) = some latch)
      (hout : latch.place () ≠ .outside) : Effect s .latchTest { s with latch := latch }
  | latchWakes {latch} (hlatch : s.latch.step CountDownLatch.latch (.spurious ()) = some latch) :
      Effect s .latchWakes { s with latch := latch }
  | condTest {cond} (hcond : s.cond.step loopThere (.test ()) = some cond) :
      Effect s .condTest { s with
        cond := cond, owner := if cond.place () = .outside then .unlocked else .waiting }
  | condWakes {cond} (hcond : s.cond.step loopThere (.spurious ()) = some cond) :
      Effect s .condWakes { s with cond := cond }
  | returns {cond} (unlocked : s.owner = .unlocked) (hloop : s.cond.data.loop_ = true)
      (hcond : s.cond.step loopThere (.op .startLoopReturns none) = some cond) :
      Effect s .returns { s with cond := cond, owner := .returned true }
  | returnsNull (unlocked : s.owner = .unlocked) (hloop : s.cond.data.loop_ ≠ true) :
      Effect s .returns { s with owner := .returned false }
  | other {cond i pick} (hearly : tooEarly s i = false)
      (hcond : s.cond.step loopThere (.op i pick) = some cond) :
      Effect s (.other i pick) { s with cond := cond }

variable {s s' : StartLoop F T} {a : StartStep F T}

theorem step_effect (hs : s.step a = some s') : s.Effect a s' := by
  cases a with
  | start =>
    obtain ⟨hfresh, heq⟩ := Option.ite_none_right_eq_some.mp hs
    obtain ⟨cond, hcond, heq⟩ := Option.bind_eq_some_iff.mp heq
    obtain ⟨latch, hlatch, rfl⟩ := Option.map_eq_some_iff.mp heq
    exact .start hfresh hcond hlatch
  | storeTid tid =>
    obtain ⟨⟨hbegun, hpos⟩, heq⟩ := Option.ite_none_right_eq_some.mp hs
    obtain rfl := Option.some.inj heq
    exact .storeTid hbegun hpos
  | countDown =>
    obtain ⟨hstored, heq⟩ := Option.ite_none_right_eq_some.mp hs
    obtain ⟨latch, hlatch, rfl⟩ := Option.map_eq_some_iff.mp heq
    exact .countDown hstored hlatch
  | latchTest =>
    obtain ⟨hstarting, heq⟩ := Option.ite_none_right_eq_some.mp hs
    obtain ⟨latch, hlatch, heq⟩ := Option.bind_eq_some_iff.mp heq
    split at heq
    · rename_i hout
      obtain ⟨cond, hcond, rfl⟩ := Option.map_eq_some_iff.mp heq
      exact .latchPassed hstarting hlatch hout hcond
    · rename_i hout
      obtain rfl := Option.some.inj heq
      exact .latchFailed hstarting hlatch hout
  | latchWakes =>
    obtain ⟨latch, hlatch, rfl⟩ := Option.map_eq_some_iff.mp hs
    exact .latchWakes hlatch
  | condTest =>
    obtain ⟨cond, hcond, rfl⟩ := Option.map_eq_some_iff.mp hs
    exact .condTest hcond
  | condWakes =>
    obtain ⟨cond, hcond, rfl⟩ := Option.map_eq_some_iff.mp hs
    exact .condWakes hcond
  | returns =>
    obtain ⟨hunlocked, heq⟩ := Option.ite_none_right_eq_some.mp hs
    split at heq
    · rename_i hloop
      obtain ⟨cond, hcond, rfl⟩ := Option.map_eq_some_iff.mp heq
      exact .returns hunlocked hloop hcond
    · rename_i hloop
      obtain rfl := Option.some.inj heq
      exact .returnsNull hunlocked hloop
  | other i pick =>
    obtain ⟨hearly, heq⟩ := Option.ite_none_right_eq_some.mp hs
    obtain ⟨cond, hcond, rfl⟩ := Option.map_eq_some_iff.mp heq
    exact .other hearly hcond

/-- A step is one of the monitor of `loop_`, or leaves that alone. -/
theorem Effect.cond (h : s.Effect a s') :
    s'.cond = s.cond ∨ ∃ b, s.cond.step loopThere b = some s'.cond := by
  cases h with
  | start _ hcond | latchPassed _ _ _ hcond | condTest hcond | condWakes hcond
  | returns _ _ hcond | other _ hcond => exact Or.inr ⟨_, hcond⟩
  | _ => exact Or.inl rfl

theorem Effect.latch (h : s.Effect a s') :
    s'.latch = s.latch ∨ ∃ b, s.latch.step CountDownLatch.latch b = some s'.latch := by
  cases h with
  | start _ _ hlatch | countDown _ hlatch | latchPassed _ hlatch | latchFailed _ hlatch
  | latchWakes hlatch => exact Or.inr ⟨_, hlatch⟩
  | _ => exact Or.inl rfl

/-! ## Refinement -/

theorem loopThere_op {m m' : EventLoopThread F T} {i : ThreadStep F T} {n : Notify}
    (h : loopThere.op m i = some (m', n)) :
    m.step i = some m' ∧ n = if isPublish i then .one else .nobody := by
  obtain ⟨x, hx, heq⟩ := Option.map_eq_some_iff.mp h
  cases heq
  exact ⟨hx, rfl⟩

/-- A step of the monitor of `loop_` is a step of the threads, or leaves them where they are. -/
theorem cond_data {w w' : Waiters (EventLoopThread F T) Unit}
    {b : MonitorStep (ThreadStep F T) Unit} (h : w.step loopThere b = some w') :
    w'.data = w.data ∨ ∃ i pick, b = .op i pick ∧ w.data.step i = some w'.data := by
  cases b with
  | op i pick =>
    obtain ⟨n, hop, -⟩ := Waiters.step_op h
    exact Or.inr ⟨i, pick, rfl, (loopThere_op hop).1⟩
  | _ =>
    obtain ⟨-, heq⟩ := Option.ite_none_right_eq_some.mp h
    obtain rfl := Option.some.inj heq
    exact Or.inl rfl

/-- Only the publication sets `loop_`, and it wakes the owner. -/
theorem loopThere_wakes : Waiters.Wakes Unit (loopThere : Monitor (EventLoopThread F T) _) := by
  intro m i m' n hop hbefore hafter
  obtain ⟨hstep, rfl⟩ := loopThere_op hop
  have hnot : m.loop_ = false := hbefore
  have hset : m'.loop_ = true := hafter
  have hpublish : i = .publish := by
    by_contra hne
    have hkept := EventLoopThread.loop_of_not_publish hne hstep
    rw [hkept hset] at hnot
    cases hnot
  rw [hpublish]
  exact Or.inr ⟨rfl, inferInstance⟩

/-! ## The invariant -/

/-- What holds between two steps, whatever was asked of the loop. -/
structure Inv (s : StartLoop F T) : Prop where
  latchAwake : s.latch.Awake CountDownLatch.latch
  condAwake : s.cond.Awake loopThere
  reached : Reachable EventLoopThread.step .new s.cond.data
  count : s.latch.data = if s.child = .running then 0 else 1
  tid : s.child = .stored ∨ s.child = .running → 0 < s.tid_
  created : s.child = .none ↔ s.owner = .fresh
  fresh : s.owner = .fresh ↔ s.cond.data.func = .notStarted
  early : s.child ≠ .running → s.cond.data.func = .notStarted ∨ s.cond.data.func = .constructing
  past : s.owner ≠ .fresh → s.owner ≠ .starting → s.child = .running
  inLatch : s.owner = .starting ↔ s.latch.place () ≠ .outside
  inCond : s.owner = .waiting ↔ s.cond.place () ≠ .outside
  owner : s.owner = .starting ∨ s.owner = .waiting ∨ s.owner = .unlocked →
    s.cond.data.owner = .waiting
  seen : s.owner = .unlocked → s.cond.data.requested = true ∨ s.cond.data.loop_ = true
  null : s.owner = .returned false → s.cond.data.requested = true

theorem new_inv : (new : StartLoop F T).Inv where
  latchAwake := nofun
  condAwake := nofun
  reached := .refl
  count := rfl
  tid := by simp [new]
  created := by simp [new]
  fresh := by simp [new, Waiters.new, EventLoopThread.new]
  early := by simp [new, Waiters.new, EventLoopThread.new]
  past := by simp [new]
  inLatch := by simp [new, Waiters.new]
  inCond := by simp [new, Waiters.new]
  owner := by simp [new]
  seen := nofun
  null := nofun

theorem Effect.awake (h : s.Effect a s') (hinv : s.Inv) :
    s'.latch.Awake CountDownLatch.latch ∧ s'.cond.Awake loopThere := by
  constructor
  · rcases h.latch with hsame | ⟨b, hb⟩
    · rw [hsame]
      exact hinv.latchAwake
    · exact hinv.latchAwake.step CountDownLatch.wakes hb
  · rcases h.cond with hsame | ⟨b, hb⟩
    · rw [hsame]
      exact hinv.condAwake
    · exact hinv.condAwake.step loopThere_wakes hb

theorem Effect.reached (h : s.Effect a s') (hinv : s.Inv) :
    Reachable EventLoopThread.step .new s'.cond.data := by
  rcases h.cond with hsame | ⟨b, hb⟩
  · rw [hsame]
    exact hinv.reached
  · rcases cond_data hb with hsame | ⟨i, -, -, hi⟩
    · rw [hsame]
      exact hinv.reached
    · exact hinv.reached.tail trivial hi

theorem Inv.unasked (h : s.Inv) : s.cond.data.Unasked :=
  h.reached.invariant EventLoopThread.new_unasked fun _ _ _ hx _ hs => hx.step hs

theorem Effect.inv (h : s.Effect a s') (hinv : s.Inv) : s'.Inv := by
  obtain ⟨hlatchAwake, hcondAwake⟩ := h.awake hinv
  have hreached := h.reached hinv
  have hunasked := hinv.unasked
  obtain ⟨-, -, -, hcount, htid, hcreated, hfresh, hearly, hpast, hinLatch, hinCond, howner, hseen,
    hnull⟩ := hinv
  cases h with
  | start hisFresh hcond hlatch =>
    obtain ⟨n, hop, -⟩ := Waiters.step_op hcond
    have hout := @Waiters.op_outside _ _ _ _ _ _ _ _ () _ _ hcond
    obtain ⟨-, hdata, hplace⟩ := Waiters.step_call hlatch
    obtain ⟨hstep, -⟩ := loopThere_op hop
    obtain ⟨-, heq⟩ := Option.ite_none_right_eq_some.mp hstep
    have hthread := (Option.some.inj heq).symm
    constructor <;> grind
  | storeTid hbegun hpos => constructor <;> grind
  | countDown hstored hlatch =>
    obtain ⟨n, hop, -⟩ := Waiters.step_op hlatch
    have hout := @Waiters.op_outside _ _ _ _ _ _ _ _ () _ _ hlatch
    obtain ⟨hdata, -⟩ := CountDownLatch.countDown_some hop
    constructor <;> grind
  | latchPassed hstarting hlatch hlatchOut hcond =>
    obtain ⟨-, hldata, hlplace⟩ := Waiters.step_test hlatch
    obtain ⟨-, hdata, hplace⟩ := Waiters.step_call hcond
    have hzero : s.latch.data ≤ 0 := by
      rw [← CountDownLatch.ready_iff, ← Waiters.test_returns hlatch]
      exact hlatchOut
    have hrunning : s.child = .running := by
      by_contra hnot
      rw [hcount, if_neg hnot] at hzero
      omega
    constructor <;> grind
  | latchFailed hstarting hlatch hlatchOut =>
    obtain ⟨-, hldata, hlplace⟩ := Waiters.step_test hlatch
    constructor <;> grind
  | latchWakes hlatch =>
    obtain ⟨hasleep, hldata, hlplace⟩ := Waiters.step_spurious hlatch
    constructor <;> grind
  | condTest hcond =>
    obtain ⟨hplace, hdata, hplace'⟩ := Waiters.step_test hcond
    have hready := Waiters.test_returns hcond
    constructor <;> grind [loopThere]
  | condWakes hcond =>
    obtain ⟨hasleep, hdata, hplace⟩ := Waiters.step_spurious hcond
    constructor <;> grind
  | returns hunlocked hloop hcond =>
    obtain ⟨n, hop, -⟩ := Waiters.step_op hcond
    have hout := @Waiters.op_outside _ _ _ _ _ _ _ _ () _ _ hcond
    obtain ⟨hstep, -⟩ := loopThere_op hop
    obtain ⟨-, heq⟩ := Option.ite_none_right_eq_some.mp hstep
    have hthread := (Option.some.inj heq).symm
    constructor <;> grind
  | returnsNull hunlocked hloop => constructor <;> grind
  | @other cond i pick hearlyStep hcond =>
    obtain ⟨n, hop, -⟩ := Waiters.step_op hcond
    have hout := @Waiters.op_outside _ _ _ _ _ _ _ _ () _ _ hcond
    obtain ⟨hstep, -⟩ := loopThere_op hop
    have hstart : i ≠ .startLoop := by
      rintro rfl
      cases hearlyStep
    have hreturns : i ≠ .startLoopReturns := by
      rintro rfl
      cases hearlyStep
    obtain ⟨hfunc, hconstructing, howner', hrequested, hthere⟩ :=
      hunasked.keeps hstep hstart hreturns
    have hconstruct : s.child ≠ .running → i ≠ .construct := by
      rintro hnot rfl
      simp [tooEarly, hnot] at hearlyStep
    constructor <;> grind

theorem reaches_inv (h : Reachable step new s) : s.Inv :=
  h.invariant new_inv fun _ _ _ hx _ hs => (step_effect hs).inv hx

/-! ## Progress -/

/-- The steps of the new thread up to the publication, and of the owner from `start` to the
    return. -/
def isOwn : StartStep F T → Bool
  | .storeTid _ | .countDown | .latchTest | .condTest | .returns => true
  | .other .construct _ | .other .publish _ => true
  | _ => false

def isSpurious : StartStep F T → Bool
  | .latchWakes | .condWakes => true
  | _ => false

def Place.left : Place → Nat
  | .testing => 1
  | _ => 0

def ChildPc.left : ChildPc → Nat
  | .none | .begun => 3
  | .stored => 2
  | .running => 0

def FuncPc.left : FuncPc → Nat
  | .notStarted | .constructing => 3
  | .publishing => 2
  | _ => 0

def ownerLeft (s : StartLoop F T) : Nat :=
  match s.owner with
  | .fresh => 5
  | .starting => 4 + Place.left (s.latch.place ())
  | .waiting => 2 + Place.left (s.cond.place ())
  | .unlocked => 1
  | .returned _ => 0

/-- An upper bound on the steps that are left up to the return. -/
def left (s : StartLoop F T) : Nat :=
  ChildPc.left s.child + FuncPc.left s.cond.data.func + s.ownerLeft

theorem Place.left_le (p : Place) : Place.left p ≤ 1 := by cases p <;> decide

/-- How much closer a step of the threads brings the publication. -/
def gain : ThreadStep F T → Nat
  | .construct => 1
  | .publish => 2
  | _ => 0

/-- A step of the threads brings the publication closer, or leaves it where it is. -/
theorem funcLeft_le {m m' : EventLoopThread F T} {i : ThreadStep F T} (hs : m.step i = some m')
    (hstart : i ≠ .startLoop) :
    FuncPc.left m'.func + gain i ≤ FuncPc.left m.func := by
  cases i with
  | startLoop => exact absurd rfl hstart
  | startLoopReturns | destroy | clear | join =>
    obtain ⟨⟨h1, h2⟩, heq⟩ := Option.ite_none_right_eq_some.mp hs
    obtain rfl := Option.some.inj heq
    simp [gain, FuncPc.left]
  | testLoop | construct | publish | exit =>
    obtain ⟨h1, heq⟩ := Option.ite_none_right_eq_some.mp hs
    obtain rfl := Option.some.inj heq
    simp [gain, FuncPc.left, *]
  | quit | destroyQuit | destroyWakeup | thread =>
    obtain ⟨h1, heq⟩ := Option.ite_none_right_eq_some.mp hs
    obtain ⟨m, hm, rfl⟩ := Option.map_eq_some_iff.mp heq
    obtain ⟨loop, -, rfl⟩ := EventLoopThread.onLoop_ok hm
    simp [gain]
  | quitWakeup =>
    obtain ⟨h1, heq⟩ := Option.ite_none_right_eq_some.mp hs
    obtain ⟨loop, -, rfl⟩ := EventLoopThread.onLoop_ok heq
    simp [gain]
  | loop a =>
    obtain ⟨h1, heq⟩ := Option.ite_none_right_eq_some.mp hs
    obtain ⟨loop, -, rfl⟩ := Option.map_eq_some_iff.mp heq
    simp [gain]

theorem Effect.left_le (h : s.Effect a s') (hinv : s.Inv) :
    s'.left + (isOwn a).toNat ≤ s.left + (isSpurious a).toNat := by
  cases h with
  | @start cond latch hisFresh hcond hlatch =>
    obtain ⟨n, hop, -⟩ := Waiters.step_op hcond
    obtain ⟨hstep, -⟩ := loopThere_op hop
    obtain ⟨⟨-, hfunc⟩, heq⟩ := Option.ite_none_right_eq_some.mp hstep
    have hthread := (Option.some.inj heq).symm
    have hnone := hinv.created.mpr hisFresh
    have hle := Place.left_le (latch.place ())
    simp [left, ownerLeft, isOwn, isSpurious, hisFresh, hnone, hthread, hfunc, ChildPc.left,
      FuncPc.left]
    omega
  | storeTid hbegun hpos =>
    simp only [left, ownerLeft, isOwn, isSpurious, hbegun, ChildPc.left, Bool.toNat_true,
      Bool.toNat_false]
    omega
  | @countDown latch hstored hlatch =>
    have hle := Place.left_le (latch.place ())
    simp [left, ownerLeft, isOwn, isSpurious, hstored, ChildPc.left]
    split <;> omega
  | @latchPassed cond latch hstarting hlatch hlatchOut hcond =>
    obtain ⟨-, hdata, -⟩ := Waiters.step_call hcond
    obtain ⟨htesting, -⟩ := Waiters.step_test hlatch
    have hle := Place.left_le (cond.place ())
    simp [left, ownerLeft, isOwn, isSpurious, hstarting, hdata, htesting, Place.left] at hle ⊢
    split <;> omega
  | @latchFailed latch hstarting hlatch hlatchOut =>
    obtain ⟨htesting, -, hplace⟩ := Waiters.step_test hlatch
    have hasleep : latch.place () = .asleep := by
      rw [hplace] at hlatchOut ⊢
      exact if_neg fun hready => hlatchOut (if_pos hready)
    simp [left, ownerLeft, isOwn, isSpurious, hstarting, htesting, hasleep, Place.left]
  | @latchWakes latch hlatch =>
    have hle := Place.left_le (latch.place ())
    simp [left, ownerLeft, isOwn, isSpurious]
    split <;> omega
  | @condTest cond hcond =>
    obtain ⟨htesting, hdata, hplace⟩ := Waiters.step_test hcond
    have hwaiting : s.owner = .waiting := hinv.inCond.mpr (by rw [htesting]; nofun)
    by_cases hout : cond.place () = .outside
    · simp [left, ownerLeft, isOwn, isSpurious, hwaiting, htesting, hdata, hout, Place.left]
    · have hasleep : cond.place () = .asleep := by
        rw [hplace] at hout ⊢
        exact if_neg fun hready => hout (if_pos hready)
      simp [left, ownerLeft, isOwn, isSpurious, hwaiting, htesting, hdata, hasleep, Place.left]
  | @condWakes cond hcond =>
    obtain ⟨-, hdata, -⟩ := Waiters.step_spurious hcond
    have hle := Place.left_le (cond.place ())
    simp [left, ownerLeft, isOwn, isSpurious, hdata]
    split <;> omega
  | returns hunlocked hloop hcond =>
    obtain ⟨n, hop, -⟩ := Waiters.step_op hcond
    obtain ⟨hstep, -⟩ := loopThere_op hop
    have hgain := funcLeft_le hstep nofun
    simp [left, ownerLeft, isOwn, isSpurious, hunlocked]
    omega
  | returnsNull hunlocked hloop => simp [left, ownerLeft, isOwn, isSpurious, hunlocked]
  | @other cond i pick hearlyStep hcond =>
    obtain ⟨n, hop, hwake⟩ := Waiters.step_op hcond
    obtain ⟨hstep, rfl⟩ := loopThere_op hop
    have hgain := funcLeft_le hstep (by rintro rfl; cases hearlyStep)
    have hle := Place.left_le (cond.place ())
    -- only the publication wakes anybody
    have hplace : i ≠ .publish → cond.place = s.cond.place := by
      intro hne
      have hnot : isPublish i = false := by
        cases i <;> first | rfl | exact absurd rfl hne
      rw [hnot] at hwake
      exact (Option.some.inj hwake).symm
    by_cases hpublish : i = .publish
    · subst hpublish
      simp [left, ownerLeft, isOwn, isSpurious, gain] at hgain ⊢
      split <;> omega
    · have hown : (isOwn (.other i pick)).toNat ≤ gain i := by
        cases i with
        | publish => exact absurd rfl hpublish
        | construct => exact Nat.le_refl 1
        | _ => exact Nat.zero_le _
      simp only [left, ownerLeft, hplace hpublish, isSpurious, Bool.toNat_false]
      split <;> omega

/-! ## The whole of startLoop -/

def ownSteps (as : List (StartStep F T)) : Nat := as.countP isOwn

def spurious (as : List (StartStep F T)) : Nat := as.countP isSpurious

theorem walk_left {as : List (StartStep F T)} (hinv : s.Inv) (h : walk step s as = some s') :
    s'.left + ownSteps as ≤ s.left + spurious as := by
  induction as generalizing s with
  | nil =>
    obtain rfl := Option.some.inj h
    exact Nat.le_refl _
  | cons a as ih =>
    rw [walk] at h
    split at h
    · cases h
    · rename_i m hm
      have heffect := step_effect hm
      have hfirst := heffect.left_le hinv
      have hrest := ih (heffect.inv hinv) h
      rw [ownSteps, spurious] at hrest ⊢
      rw [List.countP_cons, List.countP_cons]
      cases hown : isOwn a <;> cases hspurious : isSpurious a <;>
        simp [hown, hspurious] at hfirst ⊢ <;> omega

theorem test_enabled {σ ι : Type*} {m : Monitor σ ι} {w : Waiters σ Unit}
    (h : w.place () = .testing) : ∃ w', w.step m (.test ()) = some w' :=
  ⟨_, if_pos h⟩

/-- The thread in front of its publication can go on. -/
theorem thread_enabled (hrunning : s.child = .running)
    (hfunc : s.cond.data.func = .constructing ∨ s.cond.data.func = .publishing) :
    ∃ a, isOwn a = true ∧ (s.step a).isSome = true := by
  rcases hfunc with hfunc | hfunc
  · refine ⟨.other .construct none, rfl, ?_⟩
    simp [step, tooEarly, hrunning, Waiters.step, loopThere, EventLoopThread.step, hfunc, isPublish,
      wake]
  · by_cases hasleep : s.cond.place () = .asleep
    · refine ⟨.other .publish (some ()), rfl, ?_⟩
      simp [step, tooEarly, Waiters.step, loopThere, EventLoopThread.step, hfunc, isPublish, wake,
        hasleep]
    · refine ⟨.other .publish none, rfl, ?_⟩
      simp [step, tooEarly, Waiters.step, loopThere, EventLoopThread.step, hfunc, isPublish, wake,
        hasleep]

/-- The owner is in `startLoop`, and nobody has asked the loop to quit: the owner or the new
    thread can go on. -/
theorem Inv.goes_on (h : s.Inv)
    (hin : s.owner = .starting ∨ s.owner = .waiting ∨ s.owner = .unlocked)
    (hrequested : s.cond.data.requested = false) :
    ∃ a, isOwn a = true ∧ (s.step a).isSome = true := by
  obtain ⟨hfresh, -, hstays, hthere⟩ := h.unasked
  rcases hin with howner | howner | howner
  · cases hplace : s.latch.place () with
    | outside => exact absurd hplace (h.inLatch.mp howner)
    | testing =>
      obtain ⟨latch, hlatch⟩ := @test_enabled _ _ CountDownLatch.latch _ hplace
      have hcond : s.cond.place () = .outside := by
        by_contra hne
        rw [h.inCond.mpr hne] at howner
        cases howner
      refine ⟨.latchTest, rfl, ?_⟩
      simp only [step, howner, if_true, hlatch, Option.bind_some]
      split
      · simp [Waiters.step, hcond]
      · rfl
    | asleep =>
      -- the latch is not counted down yet
      have hnot : s.child ≠ .running := by
        intro hrunning
        have hzero : s.latch.data = 0 := by rw [h.count, if_pos hrunning]
        exact h.latchAwake (CountDownLatch.ready_iff.mpr (by omega)) () hplace
      cases hchild : s.child with
      | none =>
        rw [h.created.mp hchild] at howner
        cases howner
      | begun => exact ⟨.storeTid 1, rfl, by simp [step, hchild]⟩
      | stored =>
        have hone : s.latch.data = 1 := by rw [h.count, if_neg hnot]
        refine ⟨.countDown, rfl, ?_⟩
        simp [step, hchild, Waiters.step, CountDownLatch.latch, CountDownLatch.countDown, hone,
          wake]
      | running => exact absurd hchild hnot
  · have hrunning := h.past (by rw [howner]; exact StartPc.noConfusion)
      (by rw [howner]; exact StartPc.noConfusion)
    cases hplace : s.cond.place () with
    | outside => exact absurd hplace (h.inCond.mp howner)
    | testing =>
      obtain ⟨cond, hcond⟩ :=
        @test_enabled _ _ (loopThere : Monitor (EventLoopThread F T) _) _ hplace
      exact ⟨.condTest, rfl, by simp only [step, hcond, Option.map_some, Option.isSome_some]⟩
    | asleep =>
      -- the loop is not published yet
      have hnot : s.cond.data.loop_ ≠ true := fun hloop => h.condAwake hloop () hplace
      apply thread_enabled hrunning
      cases hfunc : s.cond.data.func with
      | notStarted =>
        rw [h.fresh.mpr hfunc] at howner
        cases howner
      | constructing => exact Or.inl rfl
      | publishing => exact Or.inr rfl
      | looping => exact absurd (hthere hrequested hfunc) hnot
      | leaving => exact absurd hfunc (hstays hrequested).1
      | finished => exact absurd hfunc (hstays hrequested).2
  · have hloop : s.cond.data.loop_ = true := by
      rcases h.seen howner with hreq | hloop
      · rw [hrequested] at hreq
        cases hreq
      · exact hloop
    have hwaiting := h.owner (Or.inr (Or.inr howner))
    refine ⟨.returns, rfl, ?_⟩
    simp [step, howner, hloop, Waiters.step, loopThere, EventLoopThread.step, hwaiting, isPublish,
      wake]

/-- `startLoop` in any interleaving.  The new thread and the owner take 11 steps at most, and
    one for each wakeup for no reason; as long as nobody asks the loop to quit one of them can
    go on until `startLoop` returns, and it returns the loop.  By then `tid_` is stored, and
    the threads have taken steps of the plain model only. -/
theorem startLoop_returns {as : List (StartStep F T)} (h : walk step new as = some s) :
    ownSteps as ≤ 11 + spurious as ∧
      Reachable EventLoopThread.step .new s.cond.data ∧
      (s.cond.data.requested = false →
        (s.owner ≠ .fresh → (∀ b, s.owner ≠ .returned b) →
          ∃ a, isOwn a = true ∧ (s.step a).isSome = true) ∧
        s.owner ≠ .returned false) ∧
      (∀ b, s.owner = .returned b → 0 < s.tid_ ∧ s.latch.data = 0) := by
  have hinv := reaches_inv (Reachable.of_walk h)
  have hleft := walk_left new_inv h
  have hnew : (new : StartLoop F T).left = 11 := rfl
  refine ⟨by omega, hinv.reached, fun hrequested => ⟨fun hfresh hreturned => ?_, fun hnull => ?_⟩,
    fun b hb => ?_⟩
  · apply hinv.goes_on _ hrequested
    cases howner : s.owner with
    | fresh => exact absurd howner hfresh
    | starting => exact Or.inl rfl
    | waiting => exact Or.inr (Or.inl rfl)
    | unlocked => exact Or.inr (Or.inr rfl)
    | returned b => exact absurd howner (hreturned b)
  · rw [hinv.null hnull] at hrequested
    cases hrequested
  · have hrunning := hinv.past (by rw [hb]; exact StartPc.noConfusion)
      (by rw [hb]; exact StartPc.noConfusion)
    exact ⟨hinv.tid (Or.inr hrunning), by rw [hinv.count, if_pos hrunning]⟩

/-- The owner asleep in both waits. -/
theorem startLoop_returns_woken :
    let as : List (StartStep Unit Unit) := [.start, .latchTest, .storeTid 7, .countDown, .latchTest,
      .condTest, .other .construct none, .other .publish (some ()), .condTest, .returns]
    ∃ s, walk step new as = some s ∧ ownSteps as ≤ 11 + spurious as ∧ s.owner = .returned true ∧
      0 < s.tid_ ∧ s.latch.data = 0 := by
  intro as
  obtain ⟨s, hs, howner⟩ : ∃ s, walk step new as = some s ∧ s.owner = .returned true :=
    ⟨_, rfl, rfl⟩
  obtain ⟨hsteps, -, -, hreturned⟩ := startLoop_returns hs
  exact ⟨s, hs, hsteps, howner, hreturned true howner⟩

end StartLoop

end LearnMuduo
