/-
  LearnMuduo.Net.EventLoopThread

  `bing::EventLoopThread` (Net/EventLoopThread.cc): the thread that owns an EventLoop,
  the owner that starts it, asks the loop to quit and joins the thread, and any number
  of other threads that use the loop once it is published.

  The EventLoop is the one of Net/EventLoop; the owner is the thread `none` in it.  The
  loop is published before `EventLoop::loop` executes its `quit_ = false`, and a request
  stored in between is forgotten (`quit_forgotten`).  Stored later it stays
  (`quit_remembered`).  What a call on an EventLoop that is destroyed already does is
  left out: there is no such step.
-/
import LearnMuduo.Net.EventLoop

namespace LearnMuduo

open Lib

/-- Where the thread is in `threadFunc`. -/
inductive FuncPc where
  | notStarted
  /-- Before the constructor of the EventLoop. -/
  | constructing
  /-- The EventLoop is there, `loop_` is still NULL. -/
  | publishing
  | looping
  /-- Behind `loop_ = NULL`. -/
  | leaving
  | finished
  deriving DecidableEq, Repr

/-- Where the owner is. -/
inductive OwnerPc where
  | fresh
  /-- In `startLoop`, behind `thread_.start()`. -/
  | waiting
  /-- `startLoop` has returned. -/
  | started
  /-- In the destructor, at the test of `loop_`. -/
  | exiting
  /-- In the destructor, at `loop_->quit()`. -/
  | quitting
  /-- In that `quit`, behind `quit_ = true`. -/
  | waking
  | joining
  | destroyed
  deriving DecidableEq, Repr

inductive ThreadStep (F T : Type*) where
  | startLoop
  | startLoopReturns
  /-- `quit()` on the loop that `startLoop` returned: the store and the wakeup. -/
  | quit
  | quitWakeup
  | destroy
  | testLoop
  | destroyQuit
  | destroyWakeup
  | join
  | construct
  | publish
  | loop (a : LoopAction F)
  | clear
  | exit
  | thread (t : T) (a : ThreadAction F)
  deriving DecidableEq, Repr

structure EventLoopThread (F T : Type*) where
  loop : EventLoop F (Option T)
  /-- `loop_` is not NULL. -/
  loop_ : Bool
  exiting_ : Bool
  func : FuncPc
  owner : OwnerPc
  /-- `quit_ = true` was executed. -/
  requested : Bool

namespace EventLoopThread

variable {F T : Type*}

def new : EventLoopThread F T :=
  { loop := .new, loop_ := false, exiting_ := false, func := .notStarted, owner := .fresh
    requested := false }

/-- The step executes `quit_ = true`. -/
def quits : ThreadStep F T → Bool
  | .quit | .destroyQuit | .thread _ .quit => true
  | _ => false

variable [DecidableEq T]

/-- A step of the thread `t` on the loop. -/
def onLoop (s : EventLoopThread F T) (t : Option T) (a : ThreadAction F) :
    Option (EventLoopThread F T) :=
  (s.loop.threadStep t a).map fun loop => { s with loop := loop }

def step (s : EventLoopThread F T) : ThreadStep F T → Option (EventLoopThread F T)
  | .startLoop =>
    if s.owner = .fresh ∧ s.func = .notStarted then
      some { s with owner := .waiting, func := .constructing }
    else none
  | .startLoopReturns =>
    if s.owner = .waiting ∧ s.loop_ = true then some { s with owner := .started } else none
  | .quit =>
    if s.owner = .started ∧ s.func = .looping then
      (s.onLoop none .quit).map fun s => { s with requested := true }
    else none
  | .quitWakeup => if s.owner = .started then s.onLoop none .wakeup else none
  | .destroy =>
    if s.owner = .started ∧ s.loop.threads none = .idle then
      some { s with owner := .exiting, exiting_ := true }
    else none
  | .testLoop =>
    if s.owner = .exiting then
      some { s with owner := if s.loop_ then .quitting else .destroyed }
    else none
  | .destroyQuit =>
    if s.owner = .quitting ∧ s.loop_ = true then
      (s.onLoop none .quit).map fun s => { s with requested := true, owner := .waking }
    else none
  | .destroyWakeup =>
    if s.owner = .waking then
      (s.onLoop none .wakeup).map fun s => { s with owner := .joining }
    else none
  | .join =>
    if s.owner = .joining ∧ s.func = .finished then some { s with owner := .destroyed } else none
  | .construct =>
    if s.func = .constructing then some { s with loop := .new, func := .publishing } else none
  | .publish =>
    if s.func = .publishing then some { s with loop_ := true, func := .looping } else none
  | .loop a =>
    if s.func = .looping then (s.loop.loopStep a).map fun loop => { s with loop := loop }
    else none
  | .clear =>
    if s.func = .looping ∧ s.loop.pc = .returned then
      some { s with loop_ := false, func := .leaving }
    else none
  | .exit => if s.func = .leaving then some { s with func := .finished } else none
  | .thread t a =>
    if s.loop_ = true then
      (s.onLoop (some t) a).map fun s => { s with requested := s.requested || a matches .quit }
    else none

/-- The request comes when the loop has executed its `quit_ = false`. -/
def Entered (s : EventLoopThread F T) (i : ThreadStep F T) : Prop :=
  quits i = true → s.loop.pc ≠ .entering

end EventLoopThread

/-! ## What the loop and the other threads write -/

namespace EventLoop

variable {F T : Type*} {s s' : EventLoop F T}

theorem le_eventfdWrite (counter : Nat) : counter ≤ eventfdWrite counter := by
  unfold eventfdWrite
  split <;> omega

/-- A loop that has begun never clears `quit_`, and with `quit_` set does not poll again. -/
theorem loopStep_begun {a : LoopAction F} (hs : s.loopStep a = some s') (hpc : s.pc ≠ .entering)
    (hquit : s.quit_ = true) :
    s'.pc ≠ .entering ∧ s'.quit_ = true ∧
      (s'.pc = .polling → s.pc = .polling ∧ s.wakeups ≤ s'.wakeups) := by
  cases a with
  | enter =>
    obtain ⟨henter, -⟩ := Option.ite_none_right_eq_some.mp hs
    exact absurd henter hpc
  | runNext =>
    simp only [loopStep] at hs
    split at hs
    · cases hs
    · obtain ⟨-, heq⟩ := Option.ite_none_right_eq_some.mp hs
      obtain rfl := Option.some.inj heq
      exact ⟨LoopPc.noConfusion, hquit, LoopPc.noConfusion⟩
  | wakeupTest =>
    obtain ⟨-, heq⟩ := Option.ite_none_right_eq_some.mp hs
    obtain rfl := Option.some.inj heq
    have hle := le_eventfdWrite s.wakeups
    grind [wakeup]
  | pollReturns | swap =>
    obtain ⟨-, heq⟩ := Option.ite_none_right_eq_some.mp hs
    obtain rfl := Option.some.inj heq
    exact ⟨LoopPc.noConfusion, hquit, LoopPc.noConfusion⟩
  | poll | leave | callPending | functorReturns | donePending =>
    obtain ⟨⟨-, hmore⟩, heq⟩ := Option.ite_none_right_eq_some.mp hs
    obtain rfl := Option.some.inj heq
    grind
  | handleRead | push =>
    obtain ⟨⟨hat, -⟩, heq⟩ := Option.ite_none_right_eq_some.mp hs
    obtain rfl := Option.some.inj heq
    grind [pushFunctor]

variable [DecidableEq T] {t : T} {a : ThreadAction F}

theorem threadStep_frame (hs : s.threadStep t a = some s') :
    s'.pc = s.pc ∧ s.wakeups ≤ s'.wakeups ∧ (s'.quit_ = true ↔ s.quit_ = true ∨ a = .quit) := by
  cases a with
  | push | quit =>
    obtain ⟨-, heq⟩ := Option.ite_none_right_eq_some.mp hs
    obtain rfl := Option.some.inj heq
    simp [pushFunctor]
  | wakeup =>
    simp only [threadStep] at hs
    split at hs
    · cases hs
    · obtain rfl := Option.some.inj hs
      exact ⟨rfl, le_eventfdWrite s.wakeups, by simp [wakeup]⟩

theorem threadStep_wakeup (hs : s.threadStep t .wakeup = some s') : 0 < s'.wakeups := by
  simp only [threadStep] at hs
  split at hs
  · cases hs
  · obtain rfl := Option.some.inj hs
    exact eventfdWrite_pos s.wakeups

end EventLoop

/-! ## The request -/

namespace EventLoopThread

variable {F T : Type*} {s s' t : EventLoopThread F T} {i : ThreadStep F T}

/-- `quit_` is set and nothing is left to execute that clears it. -/
structure Remembers (s : EventLoopThread F T) : Prop where
  quit : s.loop.quit_ = true
  begun : s.loop.pc ≠ .entering
  constructed : s.func ≠ .notStarted ∧ s.func ≠ .constructing

/-- The loop is published only while `threadFunc` is in it. -/
def Published (s : EventLoopThread F T) : Prop := s.loop_ = true → s.func = .looping

/-- What holds between two steps when every request comes to a loop that has begun. -/
structure Inv (s : EventLoopThread F T) : Prop where
  published : s.Published
  remembered : s.requested = true → s.Remembers
  asked : s.owner = .waking ∨ s.owner = .joining → s.requested = true
  awake : s.owner = .joining → s.loop.pc = .polling → 0 < s.loop.wakeups

theorem new_inv : (new : EventLoopThread F T).Inv where
  published := nofun
  remembered := nofun
  asked := by simp [new]
  awake := nofun

theorem Published.looping (h : s.Published) (hor : s.loop_ = true ∨ s.func = .looping) :
    s.func = .looping := by
  rcases hor with hloop | hfunc
  · exact h hloop
  · exact hfunc

variable [DecidableEq T]

theorem onLoop_ok {u : Option T} {a : ThreadAction F} (hs : s.onLoop u a = some s') :
    ∃ loop, s.loop.threadStep u a = some loop ∧ s' = { s with loop := loop } := by
  obtain ⟨loop, hloop, heq⟩ := Option.map_eq_some_iff.mp hs
  exact ⟨loop, hloop, heq.symm⟩

/-- What a step that stores `quit_` does. -/
theorem quits_ok (hi : quits i = true) (hs : s.step i = some s') :
    ∃ u loop owner, s.loop.threadStep u .quit = some loop ∧ (s.loop_ = true ∨ s.func = .looping) ∧
      (owner = .joining → s.owner = .joining) ∧
      s' = { s with loop := loop, requested := true, owner := owner } := by
  cases i with
  | quit =>
    obtain ⟨⟨-, hfunc⟩, heq⟩ := Option.ite_none_right_eq_some.mp hs
    obtain ⟨m, hm, rfl⟩ := Option.map_eq_some_iff.mp heq
    obtain ⟨loop, hloop, rfl⟩ := onLoop_ok hm
    exact ⟨none, loop, s.owner, hloop, Or.inr hfunc, id, rfl⟩
  | destroyQuit =>
    obtain ⟨⟨-, hloop_⟩, heq⟩ := Option.ite_none_right_eq_some.mp hs
    obtain ⟨m, hm, rfl⟩ := Option.map_eq_some_iff.mp heq
    obtain ⟨loop, hloop, rfl⟩ := onLoop_ok hm
    exact ⟨none, loop, .waking, hloop, Or.inl hloop_, nofun, rfl⟩
  | thread u a =>
    cases a with
    | quit =>
      obtain ⟨hloop_, heq⟩ := Option.ite_none_right_eq_some.mp hs
      obtain ⟨m, hm, rfl⟩ := Option.map_eq_some_iff.mp heq
      obtain ⟨loop, hloop, rfl⟩ := onLoop_ok hm
      exact ⟨some u, loop, s.owner, hloop, Or.inl hloop_, id, by simp⟩
    | push | wakeup => cases hi
  | _ => cases hi

/-- A request to a loop that has begun. -/
theorem quits_remembers (h : s.Published) (hi : quits i = true) (hpc : s.loop.pc ≠ .entering)
    (hs : s.step i = some s') : s'.Remembers := by
  obtain ⟨u, loop, owner, hloop, hor, -, rfl⟩ := quits_ok hi hs
  obtain ⟨hpc', -, hquit⟩ := EventLoop.threadStep_frame hloop
  have hfunc := h.looping hor
  exact ⟨hquit.mpr (Or.inr rfl), by rw [hpc']; exact hpc, by simp [hfunc]⟩

/-- A request to one that has not is forgotten as soon as it does. -/
theorem quits_forgotten (h : s.Published) (hi : quits i = true) (hpc : s.loop.pc = .entering)
    (hs : s.step i = some s') :
    ∃ t, s'.step (.loop .enter) = some t ∧ t.requested = true ∧ t.loop.quit_ = false := by
  obtain ⟨u, loop, owner, hloop, hor, -, rfl⟩ := quits_ok hi hs
  obtain ⟨hpc', -, -⟩ := EventLoop.threadStep_frame hloop
  have hfunc := h.looping hor
  have henter : loop.pc = .entering := hpc'.trans hpc
  refine ⟨{ s with
    loop := { loop with pc := .test, quit_ := false }
    requested := true
    owner := owner }, ?_, rfl, rfl⟩
  simp [step, EventLoop.loopStep, hfunc, henter]

theorem Published.step (h : s.Published) (hs : s.step i = some s') : s'.Published := by
  unfold Published at h ⊢
  cases i with
  | startLoop | startLoopReturns | destroy | clear | join =>
    obtain ⟨⟨h1, h2⟩, heq⟩ := Option.ite_none_right_eq_some.mp hs
    obtain rfl := Option.some.inj heq
    grind
  | testLoop | construct | publish | exit =>
    obtain ⟨h1, heq⟩ := Option.ite_none_right_eq_some.mp hs
    obtain rfl := Option.some.inj heq
    grind
  | quit | destroyQuit | destroyWakeup | thread =>
    obtain ⟨-, heq⟩ := Option.ite_none_right_eq_some.mp hs
    obtain ⟨m, hm, rfl⟩ := Option.map_eq_some_iff.mp heq
    obtain ⟨loop, -, rfl⟩ := onLoop_ok hm
    exact h
  | quitWakeup =>
    obtain ⟨-, heq⟩ := Option.ite_none_right_eq_some.mp hs
    obtain ⟨loop, -, rfl⟩ := onLoop_ok heq
    exact h
  | loop a =>
    obtain ⟨-, heq⟩ := Option.ite_none_right_eq_some.mp hs
    obtain ⟨loop, -, rfl⟩ := Option.map_eq_some_iff.mp heq
    exact h

theorem Remembers.onLoop {u : Option T} {a : ThreadAction F} (h : s.Remembers)
    (hs : s.onLoop u a = some s') : s'.Remembers := by
  obtain ⟨loop, hloop, rfl⟩ := onLoop_ok hs
  obtain ⟨hpc, -, hquit⟩ := EventLoop.threadStep_frame hloop
  exact ⟨hquit.mpr (Or.inl h.quit), by rw [hpc]; exact h.begun, h.constructed⟩

theorem Remembers.step (h : s.Remembers) (hs : s.step i = some s') : s'.Remembers := by
  obtain ⟨hnot, hconstr⟩ := h.constructed
  cases i with
  | startLoop | startLoopReturns | destroy | clear | join =>
    obtain ⟨⟨h1, h2⟩, heq⟩ := Option.ite_none_right_eq_some.mp hs
    obtain rfl := Option.some.inj heq
    exact ⟨h.quit, h.begun, by grind⟩
  | construct =>
    obtain ⟨hfunc, -⟩ := Option.ite_none_right_eq_some.mp hs
    exact absurd hfunc hconstr
  | testLoop | publish | exit =>
    obtain ⟨h1, heq⟩ := Option.ite_none_right_eq_some.mp hs
    obtain rfl := Option.some.inj heq
    exact ⟨h.quit, h.begun, by grind⟩
  | quit | destroyQuit | destroyWakeup | thread =>
    obtain ⟨-, heq⟩ := Option.ite_none_right_eq_some.mp hs
    obtain ⟨m, hm, rfl⟩ := Option.map_eq_some_iff.mp heq
    have hm := h.onLoop hm
    exact ⟨hm.quit, hm.begun, hm.constructed⟩
  | quitWakeup =>
    obtain ⟨-, heq⟩ := Option.ite_none_right_eq_some.mp hs
    exact h.onLoop heq
  | loop a =>
    obtain ⟨-, heq⟩ := Option.ite_none_right_eq_some.mp hs
    obtain ⟨loop, hloop, rfl⟩ := Option.map_eq_some_iff.mp heq
    obtain ⟨hpc, hquit, -⟩ := EventLoop.loopStep_begun hloop h.begun h.quit
    exact ⟨hquit, hpc, h.constructed⟩

theorem requested_of_not_quits (hi : quits i = false) (hs : s.step i = some s') :
    s'.requested = s.requested := by
  cases i with
  | quit | destroyQuit => cases hi
  | destroyWakeup =>
    obtain ⟨-, heq⟩ := Option.ite_none_right_eq_some.mp hs
    obtain ⟨m, hm, rfl⟩ := Option.map_eq_some_iff.mp heq
    obtain ⟨loop, -, rfl⟩ := onLoop_ok hm
    rfl
  | thread u a =>
    obtain ⟨-, heq⟩ := Option.ite_none_right_eq_some.mp hs
    obtain ⟨m, hm, rfl⟩ := Option.map_eq_some_iff.mp heq
    obtain ⟨loop, -, rfl⟩ := onLoop_ok hm
    cases a with
    | quit => cases hi
    | push | wakeup => exact Bool.or_false _
  | quitWakeup =>
    obtain ⟨-, heq⟩ := Option.ite_none_right_eq_some.mp hs
    obtain ⟨loop, -, rfl⟩ := onLoop_ok heq
    rfl
  | loop a =>
    obtain ⟨-, heq⟩ := Option.ite_none_right_eq_some.mp hs
    obtain ⟨loop, -, rfl⟩ := Option.map_eq_some_iff.mp heq
    rfl
  | _ =>
    obtain ⟨-, heq⟩ := Option.ite_none_right_eq_some.mp hs
    obtain rfl := Option.some.inj heq
    rfl

/-- The owner comes to its wakeup and to `join` behind its request, and the loop that it
    joins is not asleep. -/
theorem Inv.owner (h : s.Inv) (hok : s.Entered i) (hs : s.step i = some s') :
    (s'.owner = .waking ∨ s'.owner = .joining → s'.requested = true) ∧
      (s'.owner = .joining → s'.loop.pc = .polling → 0 < s'.loop.wakeups) := by
  obtain ⟨-, hremembered, hasked, hawake⟩ := h
  cases i with
  | startLoop | startLoopReturns | destroy | clear | join =>
    obtain ⟨⟨h1, h2⟩, heq⟩ := Option.ite_none_right_eq_some.mp hs
    obtain rfl := Option.some.inj heq
    grind
  | testLoop | construct | publish | exit =>
    obtain ⟨h1, heq⟩ := Option.ite_none_right_eq_some.mp hs
    obtain rfl := Option.some.inj heq
    grind [EventLoop.new]
  | quit | destroyQuit =>
    obtain ⟨u, loop, owner, hloop, -, howner, rfl⟩ := quits_ok rfl hs
    obtain ⟨hpc, hle, -⟩ := EventLoop.threadStep_frame hloop
    refine ⟨fun _ => rfl, fun hjoin hpoll => ?_⟩
    exact (hawake (howner hjoin) (hpc ▸ hpoll)).trans_le hle
  | quitWakeup =>
    obtain ⟨h1, heq⟩ := Option.ite_none_right_eq_some.mp hs
    obtain ⟨loop, hloop, rfl⟩ := onLoop_ok heq
    grind
  | destroyWakeup =>
    obtain ⟨h1, heq⟩ := Option.ite_none_right_eq_some.mp hs
    obtain ⟨m, hm, rfl⟩ := Option.map_eq_some_iff.mp heq
    obtain ⟨loop, hloop, rfl⟩ := onLoop_ok hm
    exact ⟨fun _ => hasked (Or.inl h1), fun _ _ => EventLoop.threadStep_wakeup hloop⟩
  | loop a =>
    obtain ⟨h1, heq⟩ := Option.ite_none_right_eq_some.mp hs
    obtain ⟨loop, hloop, rfl⟩ := Option.map_eq_some_iff.mp heq
    refine ⟨hasked, fun hjoin hpoll => ?_⟩
    have hrem := hremembered (hasked (Or.inr hjoin))
    obtain ⟨-, -, hpolling⟩ := EventLoop.loopStep_begun hloop hrem.begun hrem.quit
    obtain ⟨hpc, hle⟩ := hpolling hpoll
    exact (hawake hjoin hpc).trans_le hle
  | thread u a =>
    obtain ⟨h1, heq⟩ := Option.ite_none_right_eq_some.mp hs
    obtain ⟨m, hm, rfl⟩ := Option.map_eq_some_iff.mp heq
    obtain ⟨loop, hloop, rfl⟩ := onLoop_ok hm
    obtain ⟨hpc, hle, -⟩ := EventLoop.threadStep_frame hloop
    refine ⟨fun hor => ?_, fun hjoin hpoll => (hawake hjoin (hpc ▸ hpoll)).trans_le hle⟩
    simp [hasked hor]

theorem Inv.step (h : s.Inv) (hok : s.Entered i) (hs : s.step i = some s') : s'.Inv := by
  obtain ⟨hasked, hawake⟩ := h.owner hok hs
  refine ⟨h.published.step hs, fun hrequested => ?_, hasked, hawake⟩
  by_cases hi : quits i = true
  · exact quits_remembers h.published hi (hok hi) hs
  · rw [requested_of_not_quits (by simpa using hi) hs] at hrequested
    exact (h.remembered hrequested).step hs

/-- In a run whose requests all come to a loop that has begun, `quit_` stays set from the
    first one on, and an owner in `join` waits for a loop that has it set and, when that is
    in `poll`, is about to wake. -/
theorem quit_remembered (h : Reaches step Entered new s) :
    (s.requested = true → s.loop.quit_ = true) ∧
      (s.owner = .joining → s.loop.quit_ = true ∧
        (s.loop.pc = .polling → 0 < s.loop.wakeups)) := by
  have hinv : s.Inv := h.invariant new_inv fun _ _ _ hx hok hs => hx.step hok hs
  have hkept : s.requested = true → s.loop.quit_ = true := fun hr => (hinv.remembered hr).quit
  exact ⟨hkept, fun hjoin => ⟨hkept (hinv.asked (Or.inr hjoin)), hinv.awake hjoin⟩⟩

/-- A request stays set in every state behind it exactly when the loop had begun. -/
theorem quit_remembered_iff (h : Reachable step new s) (hi : quits i = true)
    (hs : s.step i = some s') :
    (∀ t, Reachable step s' t → t.loop.quit_ = true) ↔ s.loop.pc ≠ .entering := by
  have hpub : s.Published :=
    h.invariant new_inv.published fun _ _ _ hx _ hs => Published.step hx hs
  constructor
  · intro hall hpc
    obtain ⟨t, ht, -, hquit⟩ := quits_forgotten hpub hi hpc hs
    have hset := hall t (Reaches.tail .refl trivial ht)
    rw [hquit] at hset
    cases hset
  · intro hpc t ht
    have hrem : s'.Remembers := quits_remembers hpub hi hpc hs
    exact (ht.invariant hrem fun _ _ _ hx _ hs => Remembers.step hx hs).quit

/-- Up to `join`, the request coming to a loop that is in `poll`. -/
theorem quit_remembered_example :
    let s : EventLoopThread Unit Unit := after step new
      [.startLoop, .construct, .publish, .startLoopReturns, .loop .enter, .loop .poll, .destroy,
        .testLoop, .destroyQuit, .destroyWakeup]
    s.loop.quit_ = true ∧ (s.loop.pc = .polling → 0 < s.loop.wakeups) := by
  have hquiet : ∀ as : List (ThreadStep Unit Unit), (∀ i ∈ as, quits i = false) →
      ∀ i ∈ as, ∀ x, Entered x i := by
    intro as has i hi x hq
    rw [has i hi] at hq
    cases hq
  have hpoll : Reaches step Entered (new : EventLoopThread Unit Unit) (after step new
      [.startLoop, .construct, .publish, .startLoopReturns, .loop .enter, .loop .poll, .destroy,
        .testLoop]) :=
    Reaches.after rfl (hquiet _ (by decide))
  have hquit := hpoll.tail (a := .destroyQuit) (fun _ => by decide) rfl
  have hjoin := hquit.tail (a := .destroyWakeup) nofun rfl
  exact (quit_remembered hjoin).2 rfl

/-- The destructor stores its request behind the publication and before the loop's
    `quit_ = false`; the loop drains the wakeup and polls, and the owner waits in `join`. -/
theorem destroyQuit_forgotten :
    ∃ s : EventLoopThread Unit Unit, Reachable step new s ∧ s.owner = .joining ∧
      s.requested = true ∧ s.loop.quit_ = false ∧ s.loop.pc = .polling ∧ s.loop.wakeups = 0 :=
  ⟨after step new
      [.startLoop, .construct, .publish, .startLoopReturns, .destroy, .testLoop, .destroyQuit,
        .loop .enter, .destroyWakeup, .loop .poll, .loop .pollReturns, .loop .handleRead,
        .loop .callPending, .loop .swap, .loop .donePending, .loop .poll],
    Reaches.after rfl fun _ _ _ => trivial, rfl, rfl, rfl, rfl, rfl⟩

end EventLoopThread

end LearnMuduo
