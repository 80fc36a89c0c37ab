/-
  LearnMuduo.Base.CountDownLatch

  `bing::CountDownLatch` (Base/CountDownLatch.cc): threads in `wait` until the counter was
  counted down to 0.

  `mutex_` makes each call one step, but for the sleep in `condition_.wait()`.  An `int`
  below the smallest is undefined behaviour, and there is no such step.
-/
import LearnMuduo.Base.CTypes
import LearnMuduo.Lib.Monitor

namespace LearnMuduo

open Lib

namespace CountDownLatch

variable {T : Type*}

/-- The body of `countDown`. -/
def countDown (count_ : Int) : Option (Int × Notify) :=
  if -2 ^ 31 < count_ then
    some (count_ - 1, if count_ - 1 = 0 then .all else .nobody)
  else none

/-- `wait` is `while (count_ > 0) condition_.wait()`. -/
def latch : Monitor Int Unit where
  ready count_ := !decide (0 < count_)
  op count_ _ := countDown count_

def isCountDown : MonitorStep Unit T → Bool
  | .op _ _ => true
  | _ => false

/-- The calls of `countDown` among the steps. -/
def countDowns (as : List (MonitorStep Unit T)) : Nat := as.countP isCountDown

theorem ready_iff {count_ : Int} : latch.ready count_ = true ↔ count_ ≤ 0 := by
  show (!decide (0 < count_)) = true ↔ _
  rw [Bool.not_eq_true', decide_eq_false_iff_not, Int.not_lt]

theorem countDown_some {count_ count_' : Int} {notify : Notify}
    (h : countDown count_ = some (count_', notify)) :
    count_' = count_ - 1 ∧ (notify = .all ↔ count_' = 0) := by
  obtain ⟨-, heq⟩ := Option.ite_none_right_eq_some.mp h
  cases heq
  refine ⟨rfl, ?_⟩
  split
  · rename_i hzero
    exact iff_of_true rfl hzero
  · rename_i hzero
    exact iff_of_false nofun hzero

/-- The count passes 0 in a call that broadcasts. -/
theorem wakes : Waiters.Wakes T latch := by
  intro d i d' notify hop hbefore hafter
  obtain ⟨hdata, hall⟩ := countDown_some hop
  have hpos : ¬d ≤ 0 := by
    rw [← ready_iff, hbefore]
    nofun
  have hzero : d' ≤ 0 := ready_iff.mp hafter
  exact Or.inl (hall.mpr (by omega))

variable [Fintype T] [DecidableEq T] {s s' : Waiters Int T} {a : MonitorStep Unit T} {n : Int}

def step (s : Waiters Int T) (a : MonitorStep Unit T) : Option (Waiters Int T) := s.step latch a

theorem step_data (hs : step s a = some s') : s'.data = s.data - (isCountDown a).toNat := by
  cases a with
  | call t | test t | spurious t =>
    obtain ⟨-, heq⟩ := Option.ite_none_right_eq_some.mp hs
    obtain rfl := Option.some.inj heq
    exact (Int.sub_zero _).symm
  | op i pick =>
    obtain ⟨notify, hop, -⟩ := Waiters.step_op hs
    exact (countDown_some hop).1

theorem walk_data {as : List (MonitorStep Unit T)} (h : walk step s as = some s') :
    s'.data = s.data - countDowns as := by
  induction as generalizing s with
  | nil =>
    obtain rfl := Option.some.inj h
    exact (Int.sub_zero _).symm
  | cons a as ih =>
    rw [walk] at h
    split at h
    · cases h
    · rename_i m hm
      have hfirst := step_data hm
      have hrest := ih h
      rw [countDowns] at hrest ⊢
      rw [List.countP_cons]
      cases hdown : isCountDown a <;> simp [hdown] at hfirst ⊢ <;> omega

/-- Whatever the order of the calls, the wakeups for no reason among them: `wait` returns when
    there were as many calls of `countDown` as the latch began with and not before, and then
    nobody is asleep in it. -/
theorem wait_returns_iff {as : List (MonitorStep Unit T)}
    (h : walk step (Waiters.new n) as = some s) :
    (∀ t, s.place t = .asleep → countDowns as < n) ∧
      ∀ t, s.place t = .testing →
        ∃ s', step s (.test t) = some s' ∧ (s'.place t = .outside ↔ n ≤ countDowns as) := by
  have hdata : s.data = n - countDowns as := walk_data h
  refine ⟨fun t hasleep => ?_, fun t htesting => ?_⟩
  · have hreach : Reachable step (Waiters.new n) s := Reachable.of_walk h
    by_contra hdone
    exact Waiters.awake wakes hreach (ready_iff.mpr (by omega)) t hasleep
  · have hs : step s (.test t) = some _ := if_pos htesting
    refine ⟨_, hs, ?_⟩
    rw [Waiters.test_returns hs, ready_iff, hdata]
    omega

/-- Two threads in `wait`, the one asleep when the second call broadcasts. -/
theorem wait_returns_iff_two :
    let as : List (MonitorStep Unit Bool) :=
      [.call true, .test true, .op () none, .call false, .op () none]
    ∃ s, walk step (Waiters.new 2) as = some s ∧
      (∀ t, s.place t = .asleep → (countDowns as : Int) < 2) ∧
      ∀ t, s.place t = .testing →
        ∃ s', step s (.test t) = some s' ∧ (s'.place t = .outside ↔ (2 : Int) ≤ countDowns as) :=
  ⟨_, rfl, wait_returns_iff rfl⟩

end CountDownLatch

end LearnMuduo
