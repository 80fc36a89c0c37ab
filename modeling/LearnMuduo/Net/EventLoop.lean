/-
  LearnMuduo.Net.EventLoop

  `bing::EventLoop` (Net/EventLoop.cc): the loop, the functors other threads and the
  loop itself queue for it, and the eventfd that wakes it from `poll`.

  The loop thread and any number of other threads take their steps in any order; a
  step is what runs under `mutex_` or one access to a shared variable or descriptor.
  `runInLoop` calls at once on the loop thread and is `queueInLoop` on any other.
  `queued` and `executed` record what was pushed and what was run.
-/
import Mathlib.Logic.Function.Basic
import LearnMuduo.Base.CTypes
import LearnMuduo.Lib.Reach

namespace LearnMuduo

open Lib

/-- The largest value of an eventfd's counter. -/
def kEventfdMax : Nat := 2 ^ 64 - 2

/-- `::write` of 1 to the eventfd: refused with `EAGAIN` when the counter would overflow. -/
def eventfdWrite (counter : Nat) : Nat :=
  if counter + 1 ≤ kEventfdMax then counter + 1 else counter

theorem eventfdWrite_pos (counter : Nat) : 0 < eventfdWrite counter := by
  unfold eventfdWrite kEventfdMax
  split <;> omega

/-- Where the loop thread is in `EventLoop::loop`. -/
inductive LoopPc where
  /-- Before the call of `loop`. -/
  | entering
  /-- At the test of `quit_`. -/
  | test
  | polling
  /-- In the handlers of `activeChannels_`. -/
  | handling
  /-- In `doPendingFunctors` before the swap. -/
  | swapping
  /-- Between two functors of `localFunctors`. -/
  | running
  /-- In a functor. -/
  | inFunctor
  | returned
  deriving DecidableEq, Repr

/-- What another thread is about to do. -/
inductive ThreadPc where
  | idle
  /-- It has pushed a functor and has not yet written to `wakeupFd_`. -/
  | pushed
  /-- It has set `quit_` and has not yet written to `wakeupFd_`. -/
  | quitting
  deriving DecidableEq, Repr

/-- A step of the loop thread. -/
inductive LoopAction (F : Type*) where
  | enter
  | poll
  | leave
  | pollReturns
  | handleRead
  | push (cb : F)
  | wakeupTest
  | callPending
  | swap
  | runNext
  | functorReturns
  | donePending
  deriving DecidableEq, Repr

/-- A step of another thread. -/
inductive ThreadAction (F : Type*) where
  | push (cb : F)
  | quit
  | wakeup
  deriving DecidableEq, Repr

inductive LoopStep (F T : Type*) where
  | loop (a : LoopAction F)
  | thread (t : T) (a : ThreadAction F)
  deriving DecidableEq, Repr

structure EventLoop (F T : Type*) where
  pc : LoopPc
  quit_ : Bool
  callingPengdingChannel_ : Bool
  pendingFunctors_ : List F
  localFunctors : List F
  /-- The counter of `wakeupFd_`. -/
  wakeups : Nat
  /-- The loop thread is in `queueInLoop` behind the push. -/
  queueing : Bool
  threads : T → ThreadPc
  queued : List F
  executed : List F

namespace EventLoop

variable {F T : Type*}

def new : EventLoop F T :=
  { pc := .entering, quit_ := false, callingPengdingChannel_ := false, pendingFunctors_ := []
    localFunctors := [], wakeups := 0, queueing := false, threads := fun _ => .idle
    queued := [], executed := [] }

/-- The push of `queueInLoop`. -/
def pushFunctor (s : EventLoop F T) (cb : F) : EventLoop F T :=
  { s with pendingFunctors_ := s.pendingFunctors_ ++ [cb], queued := s.queued ++ [cb] }

def wakeup (s : EventLoop F T) : EventLoop F T := { s with wakeups := eventfdWrite s.wakeups }

/-- The test of `queueInLoop` behind the push. -/
def needsWakeup (s : EventLoop F T) (isInLoopThread : Bool) : Bool :=
  !isInLoopThread || s.callingPengdingChannel_

def loopStep (s : EventLoop F T) : LoopAction F → Option (EventLoop F T)
  | .enter => if s.pc = .entering then some { s with pc := .test, quit_ := false } else none
  | .poll => if s.pc = .test ∧ s.quit_ = false then some { s with pc := .polling } else none
  | .leave => if s.pc = .test ∧ s.quit_ = true then some { s with pc := .returned } else none
  | .pollReturns => if s.pc = .polling then some { s with pc := .handling } else none
  | .handleRead =>
    if s.pc = .handling ∧ s.queueing = false then some { s with wakeups := 0 } else none
  | .push cb =>
    -- the loop thread enqueues from event handlers and from functors
    if (s.pc = .handling ∨ s.pc = .inFunctor) ∧ s.queueing = false then
      some { s.pushFunctor cb with queueing := true }
    else none
  | .wakeupTest =>
    if s.queueing = true then
      let s := if s.needsWakeup true then s.wakeup else s
      some { s with queueing := false }
    else none
  | .callPending =>
    if s.pc = .handling ∧ s.queueing = false then
      some { s with pc := .swapping, callingPengdingChannel_ := true }
    else none
  | .swap =>
    if s.pc = .swapping then
      some { s with pc := .running, localFunctors := s.pendingFunctors_, pendingFunctors_ := [] }
    else none
  | .runNext =>
    match s.localFunctors with
    | [] => none
    | cb :: rest =>
      if s.pc = .running then
        some { s with pc := .inFunctor, localFunctors := rest, executed := s.executed ++ [cb] }
      else none
  | .functorReturns =>
    if s.pc = .inFunctor ∧ s.queueing = false then some { s with pc := .running } else none
  | .donePending =>
    if s.pc = .running ∧ s.localFunctors.isEmpty = true then
      some { s with pc := .test, callingPengdingChannel_ := false }
    else none

section Threads

variable [DecidableEq T]

def threadStep (s : EventLoop F T) (t : T) : ThreadAction F → Option (EventLoop F T)
  | .push cb =>
    if s.threads t = .idle then
      some { s.pushFunctor cb with
        threads := Function.update s.threads t (if s.needsWakeup false then .pushed else .idle) }
    else none
  | .quit =>
    if s.threads t = .idle then
      some { s with quit_ := true, threads := Function.update s.threads t .quitting }
    else none
  | .wakeup =>
    if s.threads t = .idle then none
    else some { s.wakeup with threads := Function.update s.threads t .idle }

def step (s : EventLoop F T) : LoopStep F T → Option (EventLoop F T)
  | .loop a => s.loopStep a
  | .thread t a => s.threadStep t a

end Threads

/-! ## The invariant -/

/-- What the phase of the loop thread says about its other variables. -/
structure Phases (s : EventLoop F T) : Prop where
  calling : s.callingPengdingChannel_ = true ↔
    s.pc = .swapping ∨ s.pc = .running ∨ s.pc = .inFunctor
  localEmpty : s.pc ≠ .running → s.pc ≠ .inFunctor → s.localFunctors = []
  queueing : s.queueing = true → s.pc = .handling ∨ s.pc = .inFunctor

/-- Every functor pushed was run, or is still to be run, in the order of the pushes. -/
def Ordered (s : EventLoop F T) : Prop :=
  s.queued = s.executed ++ s.localFunctors ++ s.pendingFunctors_

/-- The loop will look at `pendingFunctors_` before it blocks: it is still to swap, or
    it is awake already, or a wakeup is under way. -/
def Awake (s : EventLoop F T) : Prop :=
  s.pc = .handling ∨ s.pc = .swapping ∨ 0 < s.wakeups ∨ s.queueing = true ∨
    ∃ t, s.threads t = .pushed

structure Inv (s : EventLoop F T) : Prop where
  phases : s.Phases
  ordered : s.Ordered
  awake : s.pendingFunctors_ ≠ [] → s.Awake

theorem new_inv : (new : EventLoop F T).Inv :=
  { phases :=
      { calling := by simp [new]
        localEmpty := fun _ _ => rfl
        queueing := fun h => absurd h Bool.false_ne_true }
    ordered := rfl
    awake := fun h => absurd rfl h }

section LoopThread

variable {s s' : EventLoop F T} {a : LoopAction F}

/-- What a step of the loop thread does: it moves on, pushes, drains the eventfd, tests
    for a wakeup, swaps, or runs the next functor. -/
theorem loopStep_phases (hs : s.loopStep a = some s') (h : s.Phases) : s'.Phases := by
  have hcalling := h.calling
  have hlocal := h.localEmpty
  have hqueueing := h.queueing
  cases a with
  | runNext =>
    simp only [loopStep] at hs
    split at hs
    · cases hs
    · obtain ⟨hpc, heq⟩ := Option.ite_none_right_eq_some.mp hs
      obtain rfl := Option.some.inj heq
      constructor <;> grind
  | swap | enter | pollReturns | wakeupTest =>
    obtain ⟨hpc, heq⟩ := Option.ite_none_right_eq_some.mp hs
    obtain rfl := Option.some.inj heq
    constructor <;> grind [wakeup]
  | poll | leave | handleRead | push | callPending | functorReturns | donePending =>
    obtain ⟨⟨hpc, hmore⟩, heq⟩ := Option.ite_none_right_eq_some.mp hs
    obtain rfl := Option.some.inj heq
    constructor <;> grind [pushFunctor]

theorem loopStep_ordered (hs : s.loopStep a = some s') (hp : s.Phases) (h : s.Ordered) :
    s'.Ordered := by
  unfold Ordered at h ⊢
  cases a with
  | push cb =>
    obtain ⟨-, heq⟩ := Option.ite_none_right_eq_some.mp hs
    obtain rfl := Option.some.inj heq
    show s.queued ++ [cb] = s.executed ++ s.localFunctors ++ (s.pendingFunctors_ ++ [cb])
    rw [h, List.append_assoc _ s.pendingFunctors_]
  | swap =>
    obtain ⟨hpc, heq⟩ := Option.ite_none_right_eq_some.mp hs
    obtain rfl := Option.some.inj heq
    have hempty := hp.localEmpty (by rw [hpc]; decide) (by rw [hpc]; decide)
    show s.queued = s.executed ++ s.pendingFunctors_ ++ []
    rw [h, hempty, List.append_nil, List.append_nil]
  | runNext =>
    simp only [loopStep] at hs
    split at hs
    · cases hs
    · rename_i cb rest hl
      obtain ⟨-, heq⟩ := Option.ite_none_right_eq_some.mp hs
      obtain rfl := Option.some.inj heq
      show s.queued = s.executed ++ [cb] ++ rest ++ s.pendingFunctors_
      rw [h, hl, List.append_cons s.executed cb rest]
  | wakeupTest =>
    obtain ⟨-, heq⟩ := Option.ite_none_right_eq_some.mp hs
    obtain rfl := Option.some.inj heq
    by_cases hw : s.needsWakeup true = true
    · simp only [hw, if_true]
      exact h
    · simp only [hw, Bool.false_eq_true, if_false]
      exact h
  | enter | poll | leave | pollReturns | handleRead | callPending | functorReturns | donePending =>
    obtain ⟨-, heq⟩ := Option.ite_none_right_eq_some.mp hs
    obtain rfl := Option.some.inj heq
    exact h

/-- Only the step into `poll` ends a phase in which the loop is sure to swap, and a push
    from a functor is followed by a wakeup. -/
theorem loopStep_awake (hs : s.loopStep a = some s') (hp : s.Phases)
    (h : s.pendingFunctors_ ≠ [] → s.Awake) : s'.pendingFunctors_ ≠ [] → s'.Awake := by
  intro hne
  cases a with
  | push cb =>
    obtain ⟨-, heq⟩ := Option.ite_none_right_eq_some.mp hs
    obtain rfl := Option.some.inj heq
    exact Or.inr (Or.inr (Or.inr (Or.inl rfl)))
  | wakeupTest =>
    obtain ⟨hq, heq⟩ := Option.ite_none_right_eq_some.mp hs
    obtain rfl := Option.some.inj heq
    rcases hp.queueing hq with hpc | hpc
    · -- a handler: the loop swaps before it polls again
      apply Or.inl
      simp only
      split <;> exact hpc
    · -- a functor: the flag is set
      have hcall : s.needsWakeup true = true := hp.calling.mpr (Or.inr (Or.inr hpc))
      refine Or.inr (Or.inr (Or.inl ?_))
      simp only [hcall, if_true]
      exact eventfdWrite_pos _
  | swap =>
    obtain ⟨-, heq⟩ := Option.ite_none_right_eq_some.mp hs
    obtain rfl := Option.some.inj heq
    exact absurd rfl hne
  | handleRead =>
    obtain ⟨⟨hpc, -⟩, heq⟩ := Option.ite_none_right_eq_some.mp hs
    obtain rfl := Option.some.inj heq
    exact Or.inl hpc
  | runNext =>
    simp only [loopStep] at hs
    split at hs
    · cases hs
    · obtain ⟨hpc, heq⟩ := Option.ite_none_right_eq_some.mp hs
      obtain rfl := Option.some.inj heq
      have haw := h hne
      grind [Awake]
  | enter | pollReturns =>
    obtain ⟨hpc, heq⟩ := Option.ite_none_right_eq_some.mp hs
    obtain rfl := Option.some.inj heq
    have haw := h hne
    grind [Awake]
  | poll | leave | callPending | functorReturns | donePending =>
    obtain ⟨⟨hpc, -⟩, heq⟩ := Option.ite_none_right_eq_some.mp hs
    obtain rfl := Option.some.inj heq
    have haw := h hne
    grind [Awake]

theorem loopStep_inv (hs : s.loopStep a = some s') (h : s.Inv) : s'.Inv :=
  ⟨loopStep_phases hs h.phases, loopStep_ordered hs h.phases h.ordered,
    loopStep_awake hs h.phases h.awake⟩

end LoopThread

section OtherThreads

variable [DecidableEq T] {s s' : EventLoop F T} {t : T} {a : ThreadAction F}

theorem threadStep_inv (hs : s.threadStep t a = some s') (h : s.Inv) : s'.Inv := by
  obtain ⟨hphases, hordered, hawake⟩ := h
  cases a with
  | push cb =>
    obtain ⟨-, heq⟩ := Option.ite_none_right_eq_some.mp hs
    obtain rfl := Option.some.inj heq
    refine ⟨⟨hphases.calling, hphases.localEmpty, hphases.queueing⟩, ?_, fun _ => ?_⟩
    · show s.queued ++ [cb] = s.executed ++ s.localFunctors ++ (s.pendingFunctors_ ++ [cb])
      rw [hordered, List.append_assoc _ s.pendingFunctors_]
    · refine Or.inr (Or.inr (Or.inr (Or.inr ⟨t, ?_⟩)))
      exact Function.update_self t _ s.threads
  | quit =>
    obtain ⟨hidle, heq⟩ := Option.ite_none_right_eq_some.mp hs
    obtain rfl := Option.some.inj heq
    refine ⟨⟨hphases.calling, hphases.localEmpty, hphases.queueing⟩, hordered, fun hne => ?_⟩
    rcases hawake hne with hpc | hpc | hw | hq | ⟨u, hu⟩
    · exact Or.inl hpc
    · exact Or.inr (Or.inl hpc)
    · exact Or.inr (Or.inr (Or.inl hw))
    · exact Or.inr (Or.inr (Or.inr (Or.inl hq)))
    · -- another thread than t, which was idle
      refine Or.inr (Or.inr (Or.inr (Or.inr ⟨u, ?_⟩)))
      have hut : u ≠ t := by
        rintro rfl
        rw [hidle] at hu
        cases hu
      exact (Function.update_of_ne hut _ _).trans hu
  | wakeup =>
    simp only [threadStep] at hs
    split at hs
    · cases hs
    · obtain rfl := Option.some.inj hs
      exact ⟨⟨hphases.calling, hphases.localEmpty, hphases.queueing⟩, hordered,
        fun _ => Or.inr (Or.inr (Or.inl (eventfdWrite_pos _)))⟩

/-- Another thread never runs a functor. -/
theorem threadStep_executed (hs : s.threadStep t a = some s') : s'.executed = s.executed := by
  cases a with
  | push | quit =>
    obtain ⟨-, heq⟩ := Option.ite_none_right_eq_some.mp hs
    obtain rfl := Option.some.inj heq
    rfl
  | wakeup =>
    simp only [threadStep] at hs
    split at hs
    · cases hs
    · obtain rfl := Option.some.inj hs
      rfl

theorem step_inv {i : LoopStep F T} (hs : s.step i = some s') (h : s.Inv) : s'.Inv := by
  cases i with
  | loop a => exact loopStep_inv hs h
  | thread t a => exact threadStep_inv hs h

/-- **The queue and its wakeup.**  In every state that any interleaving reaches: the
    functors pushed are those run so far, followed by those the loop has taken and
    those still queued, in the order of the pushes; no other thread runs one; and when
    the loop is in `poll` with functors queued, the eventfd is readable or some thread
    has pushed and is about to write to it. -/
theorem no_lost_wakeup (h : Reachable step (new : EventLoop F T) s) :
    s.queued = s.executed ++ s.localFunctors ++ s.pendingFunctors_ ∧
      (∀ t a s', s.step (.thread t a) = some s' → s'.executed = s.executed) ∧
      (s.pc = .polling → s.localFunctors = [] ∧
        (s.pendingFunctors_ ≠ [] → 0 < s.wakeups ∨ ∃ t, s.threads t = .pushed)) := by
  have hinv : s.Inv := h.invariant new_inv fun _ _ _ hx _ hs => step_inv hs hx
  refine ⟨hinv.ordered, fun t a s' hs => threadStep_executed hs, fun hpc => ⟨?_, fun hne => ?_⟩⟩
  · exact hinv.phases.localEmpty (by rw [hpc]; decide) (by rw [hpc]; decide)
  · rcases hinv.awake hne with hh | hh | hw | hq | hp
    · rw [hpc] at hh
      cases hh
    · rw [hpc] at hh
      cases hh
    · exact Or.inl hw
    · have hh := hinv.phases.queueing hq
      simp [hpc] at hh
    · exact Or.inr hp

end OtherThreads

/-- A thread pushes a functor while the loop is in its handlers, the loop runs it, and
    the wakeup comes afterwards; a second functor is pushed while the loop is in `poll`. -/
theorem no_lost_wakeup_example :
    ∃ s : EventLoop Nat Bool,
      walk step new [.loop .enter, .loop .poll, .loop .pollReturns, .thread true (.push 1),
        .loop .callPending, .loop .swap, .loop .runNext, .loop .functorReturns, .loop .donePending,
        .loop .poll, .thread false (.push 2)] = some s ∧
      s.queued = s.executed ++ s.localFunctors ++ s.pendingFunctors_ ∧
      (∀ t a s', s.step (.thread t a) = some s' → s'.executed = s.executed) ∧
      (s.pc = .polling → s.localFunctors = [] ∧
        (s.pendingFunctors_ ≠ [] → 0 < s.wakeups ∨ ∃ t, s.threads t = .pushed)) := by
  have hsome : (walk step (new : EventLoop Nat Bool) [.loop .enter, .loop .poll,
      .loop .pollReturns, .thread true (.push 1), .loop .callPending, .loop .swap, .loop .runNext,
      .loop .functorReturns, .loop .donePending, .loop .poll,
      .thread false (.push 2)]).isSome = true := by decide
  obtain ⟨s, hs⟩ := Option.isSome_iff_exists.mp hsome
  exact ⟨s, hs, no_lost_wakeup (Reachable.of_walk hs)⟩

end EventLoop

end LearnMuduo
