/-
  LearnMuduo.Lib.Monitor

  Threads that wait on a condition variable.

  The data is under a mutex, and what a thread does between lock and unlock is one step.  A
  thread in `while (!ready) cond.wait()` is at the test, or asleep until it is notified or
  wakes up for no reason.  An operation changes the data and notifies nobody, one sleeper or
  all of them.

  When the operations that make the predicate true wake everybody (`Wakes`), nobody is
  asleep while it is true (`Waiters.awake`), and so no wakeup is lost.
-/
import LearnMuduo.Lib.Reach
import Mathlib.Data.Fintype.Card
import Mathlib.Logic.Function.Basic

namespace LearnMuduo.Lib

/-- Where a thread is. -/
inductive Place where
  | outside
  | testing
  | asleep
  deriving DecidableEq, Repr

inductive Notify where
  | nobody
  | one
  | all
  deriving DecidableEq, Repr

/-- The predicate that is waited for, and what the operations do. -/
structure Monitor (σ ι : Type*) where
  ready : σ → Bool
  op : σ → ι → Option (σ × Notify)

structure Waiters (σ T : Type*) where
  data : σ
  place : T → Place

inductive MonitorStep (ι T : Type*) where
  /-- The thread calls the function that waits. -/
  | call (t : T)
  | test (t : T)
  | spurious (t : T)
  /-- An operation; `t` is the sleeper that a single notification wakes, if there is one. -/
  | op (i : ι) (t : Option T)
  deriving DecidableEq, Repr

section Wake

variable {T : Type*} [Fintype T] [DecidableEq T]

/-- The places behind a notification. -/
def wake (place : T → Place) : Notify → Option T → Option (T → Place)
  | .nobody, _ => some place
  | .one, some t =>
    if place t = .asleep then some (Function.update place t .testing) else none
  | .one, none => if ∀ t, place t ≠ .asleep then some place else none
  | .all, _ => some fun t => if place t = .asleep then .testing else place t

variable {place place' : T → Place} {n : Notify} {pick : Option T} {t : T}

/-- A notification changes the place of sleepers only. -/
theorem wake_place (h : wake place n pick = some place') :
    place' t = place t ∨ place t = .asleep ∧ place' t = .testing := by
  match n, pick with
  | .nobody, _ =>
    obtain rfl := Option.some.inj h
    exact Or.inl rfl
  | .one, some u =>
    obtain ⟨hasleep, heq⟩ := Option.ite_none_right_eq_some.mp h
    obtain rfl := Option.some.inj heq
    by_cases htu : t = u
    · subst htu
      exact Or.inr ⟨hasleep, Function.update_self ..⟩
    · exact Or.inl (Function.update_of_ne htu ..)
  | .one, none =>
    obtain ⟨-, heq⟩ := Option.ite_none_right_eq_some.mp h
    obtain rfl := Option.some.inj heq
    exact Or.inl rfl
  | .all, _ =>
    obtain rfl := Option.some.inj h
    show (if place t = .asleep then Place.testing else place t) = _ ∨ _
    split
    · rename_i hasleep
      exact Or.inr ⟨hasleep, if_pos hasleep⟩
    · exact Or.inl rfl

/-- Nobody sleeps behind a notification of all, or of one where there is only one. -/
theorem wake_everybody (h : wake place n pick = some place')
    (hn : n = .all ∨ n = .one ∧ Subsingleton T) : place' t ≠ .asleep := by
  rcases hn with rfl | ⟨rfl, hone⟩
  · obtain rfl := Option.some.inj h
    show (if place t = .asleep then Place.testing else place t) ≠ _
    split
    · nofun
    · assumption
  · match pick with
    | some u =>
      obtain ⟨-, heq⟩ := Option.ite_none_right_eq_some.mp h
      obtain rfl := Option.some.inj heq
      obtain rfl := Subsingleton.elim t u
      rw [Function.update_self]
      nofun
    | none =>
      obtain ⟨hnobody, heq⟩ := Option.ite_none_right_eq_some.mp h
      obtain rfl := Option.some.inj heq
      exact hnobody t

end Wake

namespace Waiters

variable {σ ι T : Type*}

def new (d : σ) : Waiters σ T := { data := d, place := fun _ => .outside }

variable [Fintype T] [DecidableEq T]

def step (m : Monitor σ ι) (s : Waiters σ T) : MonitorStep ι T → Option (Waiters σ T)
  | .call t =>
    if s.place t = .outside then some { s with place := Function.update s.place t .testing }
    else none
  | .test t =>
    if s.place t = .testing then
      some { s with
        place := Function.update s.place t (if m.ready s.data then .outside else .asleep) }
    else none
  | .spurious t =>
    if s.place t = .asleep then some { s with place := Function.update s.place t .testing }
    else none
  | .op i pick =>
    match m.op s.data i with
    | none => none
    | some (d, n) => (wake s.place n pick).map fun place => { data := d, place := place }

/-- An operation that makes the predicate true notifies all, or the only one that waits. -/
def Wakes (T : Type*) (m : Monitor σ ι) : Prop :=
  ∀ d i d' n, m.op d i = some (d', n) → m.ready d = false → m.ready d' = true →
    n = .all ∨ n = .one ∧ Subsingleton T

/-- Nobody is asleep while the predicate is true. -/
def Awake (m : Monitor σ ι) (s : Waiters σ T) : Prop :=
  m.ready s.data = true → ∀ t, s.place t ≠ .asleep

variable {m : Monitor σ ι} {s s' : Waiters σ T} {a : MonitorStep ι T} {t : T}
  {ok : Waiters σ T → MonitorStep ι T → Prop}

theorem step_op {i : ι} {pick : Option T} (h : s.step m (.op i pick) = some s') :
    ∃ n, m.op s.data i = some (s'.data, n) ∧ wake s.place n pick = some s'.place := by
  simp only [step] at h
  split at h
  · cases h
  · rename_i d n hop
    obtain ⟨place, hplace, rfl⟩ := Option.map_eq_some_iff.mp h
    exact ⟨n, hop, hplace⟩

theorem step_call (h : s.step m (.call t) = some s') :
    s.place t = .outside ∧ s'.data = s.data ∧ s'.place t = .testing := by
  obtain ⟨hplace, heq⟩ := Option.ite_none_right_eq_some.mp h
  obtain rfl := Option.some.inj heq
  exact ⟨hplace, rfl, Function.update_self ..⟩

theorem step_test (h : s.step m (.test t) = some s') :
    s.place t = .testing ∧ s'.data = s.data ∧
      s'.place t = if m.ready s.data then .outside else .asleep := by
  obtain ⟨hplace, heq⟩ := Option.ite_none_right_eq_some.mp h
  obtain rfl := Option.some.inj heq
  exact ⟨hplace, rfl, Function.update_self ..⟩

theorem step_spurious (h : s.step m (.spurious t) = some s') :
    s.place t = .asleep ∧ s'.data = s.data ∧ s'.place t = .testing := by
  obtain ⟨hplace, heq⟩ := Option.ite_none_right_eq_some.mp h
  obtain rfl := Option.some.inj heq
  exact ⟨hplace, rfl, Function.update_self ..⟩

/-- An operation lets nobody in or out. -/
theorem op_outside {i : ι} {pick : Option T} (h : s.step m (.op i pick) = some s') :
    s'.place t = .outside ↔ s.place t = .outside := by
  obtain ⟨n, -, hwake⟩ := step_op h
  rcases @wake_place _ _ _ _ _ _ _ t hwake with hsame | ⟨hasleep, htesting⟩
  · rw [hsame]
  · rw [hasleep, htesting]
    exact iff_of_false nofun nofun

theorem Awake.step (hw : Wakes T m) (h : s.Awake m) (hs : s.step m a = some s') :
    s'.Awake m := by
  intro hready u
  cases a with
  | call t | spurious t =>
    obtain ⟨-, heq⟩ := Option.ite_none_right_eq_some.mp hs
    obtain rfl := Option.some.inj heq
    show Function.update s.place t .testing u ≠ .asleep
    by_cases hut : u = t
    · rw [hut, Function.update_self]
      nofun
    · rw [Function.update_of_ne hut]
      exact h hready u
  | test t =>
    obtain ⟨-, heq⟩ := Option.ite_none_right_eq_some.mp hs
    obtain rfl := Option.some.inj heq
    have hdata : m.ready s.data = true := hready
    show Function.update s.place t (if m.ready s.data then .outside else .asleep) u ≠ .asleep
    rw [if_pos hdata]
    by_cases hut : u = t
    · rw [hut, Function.update_self]
      nofun
    · rw [Function.update_of_ne hut]
      exact h hready u
  | op i pick =>
    obtain ⟨n, hop, hwake⟩ := step_op hs
    cases hbefore : m.ready s.data with
    | true =>
      rcases @wake_place _ _ _ _ _ _ _ u hwake with hsame | ⟨-, htesting⟩
      · rw [hsame]
        exact h hbefore u
      · rw [htesting]
        nofun
    | false => exact wake_everybody hwake (hw _ _ _ _ hop hbefore hready)

/-- No wakeup is lost. -/
theorem awake {d : σ} (hw : Wakes T m) (h : Reaches (step m) ok (new d) s) : s.Awake m :=
  h.invariant (fun _ _ => nofun) fun _ _ _ hx _ hs => hx.step hw hs

/-- The function returns exactly when the test finds the predicate true. -/
theorem test_returns (hs : s.step m (.test t) = some s') :
    s'.place t = .outside ↔ m.ready s.data = true := by
  obtain ⟨-, -, hplace⟩ := step_test hs
  rw [hplace]
  cases m.ready s.data with
  | true => exact iff_of_true rfl rfl
  | false => exact iff_of_false nofun nofun

end Waiters

end LearnMuduo.Lib
