/-
  LearnMuduo.Timer.ExactRuns

  A `HandleRead` runs the timers that have expired, and no others.

  The statement is about every run of the queue: whatever is registered, also from the
  callbacks while a `HandleRead` is under way, and whenever the handler is called.
-/
import LearnMuduo.Timer.TimerFaults

namespace LearnMuduo

open Lib

namespace TimerQueue

/-- Every timer is in one place, under its expiration. -/
structure Owned (q : TimerQueue) : Prop where
  increasing : Increasing q.timers_
  key : ∀ e ∈ q.timers_, ∃ t, q.heap e.timer = some t ∧ t.expiration_ = e.expiration
  distinct : (q.timers_.map TimerEntry.timer ++ q.functors).Nodup
  /-- A registered timer is there, in `timers_` or before its insertion, or freed. -/
  all : ∀ n < q.calls.length,
    n ∈ q.freed ∨ ∃ a ∈ q.timers_.map TimerEntry.timer ++ q.functors, q.serialAt a = some n

/-- What the `HandleRead` from `q` to `q'` does that read `now`. -/
structure RunsExactly (q q' : TimerQueue) (now : TimeStamp) : Prop where
  runs : q'.runs.map TimerRun.key = q.runs.map TimerRun.key ++
    (q.dueAt now).map fun e => (q.serialAt e.timer, e.expiration)
  order : ((q.dueAt now).map TimerEntry.expiration).Pairwise (· ≤ ·)
  others : ∀ e ∈ q.timers_, now < e.expiration → e ∈ q'.timers_
  repeating : ∀ e ∈ q.dueAt now, ∀ t, q.heap e.timer = some t → t.repeat_ = true →
    (q'.timers_.map TimerEntry.timer).count e.timer = 1
  oneShot : ∀ e ∈ q.dueAt now, ∀ t, q.heap e.timer = some t → t.repeat_ = false →
    t.serial ∈ q'.freed

/-- A one-shot timer runs once at most; it is freed once when it has run, and is no
    object any more. -/
structure RunsOnce (q : TimerQueue) (n : Nat) : Prop where
  ran : q.ranCount n ≤ 1
  freed : q.freed.count n = q.ranCount n
  gone : n ∈ q.freed → ∀ a, q.serialAt a ≠ some n

section Runs

variable {w : World} {q q' : TimerQueue}

theorem Good.owned (h : Good q [] []) : Owned q := by
  have hhomes : q.homes [] = q.timers_.map TimerEntry.timer ++ q.functors := by
    rw [homes, List.append_nil]
  refine ⟨h.kept.increasing, fun e he => h.kept.key e (List.mem_append_left _ he), ?_, ?_⟩
  · rw [← hhomes]
    exact h.kept.distinct
  · intro n hn
    refine (h.serials.all n hn).imp_right ?_
    rintro ⟨a, ha⟩
    obtain ⟨t, ht, -⟩ := serialAt_eq ha
    rw [← hhomes]
    exact ⟨a, (h.kept.live a).mp ⟨t, ht⟩, ha⟩

theorem Good.runsOnce {n : Nat} (h : Good q [] []) (hone : q.OneShot n) : RunsOnce q n := by
  have hgone : n ∈ q.freed → ∀ a, q.serialAt a ≠ some n := fun hn => (h.serials.dead n hn).2
  have hlt : n < q.calls.length := by
    obtain ⟨c, hc, -⟩ := hone
    exact (List.getElem?_eq_some_iff.mp hc).1
  rcases h.serials.all n hlt with hfreed | ⟨a, ha⟩
  · have hran := h.once.freed n hfreed
    refine ⟨Nat.le_of_eq hran, ?_, hgone⟩
    rw [hran]
    exact List.count_eq_one_of_mem h.serials.nodup hfreed
  · -- a timer that is still there has not run yet
    have hran := h.once.waiting a n ha hone List.not_mem_nil
    refine ⟨by omega, ?_, hgone⟩
    rw [hran, List.count_eq_zero]
    exact fun hn => hgone hn a ha

theorem Good.runsExactly (h : Good q [] []) (hs : q.HandleRead w = .ok q') :
    RunsExactly q q' (w.clock (q.readings + 1)) := by
  obtain ⟨hgood, hruns, hothers, hset⟩ := HandleRead_good h hs
  refine ⟨hruns, ?_, hothers, ?_, ?_⟩
  · have hsorted : (q.dueAt (w.clock (q.readings + 1))).Pairwise (· < ·) :=
      h.kept.increasing.sublist List.filter_sublist
    rw [List.pairwise_map]
    exact hsorted.imp fun hlt => TimerEntry.expiration_le (le_of_lt hlt)
  · intro e he t ht hrep
    have hback := hset e he t ht
    rw [if_pos hrep] at hback
    exact List.count_eq_one_of_mem (List.nodup_append.mp hgood.owned.distinct).1 hback
  · intro e he t ht hrep
    have hback := hset e he t ht
    rw [hrep, if_neg Bool.false_ne_true] at hback
    exact hback

/-- Over every run of the queue: a `HandleRead` runs the timers that have expired, each
    once and in their order; the one-shot timers among them are freed, the repeating ones
    are back; and no step uses a timer that is freed. -/
theorem timers_run_exactly {ops : List Op} (hrun : run (step w) new ops = .ok q) :
    Owned q ∧ (∀ n, q.OneShot n → RunsOnce q n) ∧
      (∀ q', q.HandleRead w = .ok q' → RunsExactly q q' (w.clock (q.readings + 1))) ∧
      ∀ op, step w q op ≠ .error .dangling := by
  have hgood : Good q [] [] :=
    run_preserves (P := fun q => Good q [] []) (fun _ _ _ h hs => step_good h hs) new_good hrun
  exact ⟨hgood.owned, fun n hone => hgood.runsOnce hone, fun q' hs => hgood.runsExactly hs,
    fun op hs => (step_error hgood hs).elim (fun h => by cases h) fun h => by cases h⟩

/-- The callback of the first timer registers another one. -/
def callbackWorld : World :=
  { clock := fun n => 1000000 * n
    malloc := fun n => 64 * (n + 1)
    during := fun _ serial => if serial = 0 then [(.RunAfter 1, true)] else [] }

def callbackOps : List Op :=
  [.register (.RunAt 5) true, .register (.RunEvery 1) false, .functor, .HandleRead, .HandleRead]

theorem timers_run_exactly_example : ∃ q, run (step callbackWorld) new callbackOps = .ok q ∧
    q.runs.map TimerRun.serial = [0, 1, 2, 1] ∧ q.freed = [0, 2] ∧ Owned q := by
  have hok : (run (step callbackWorld) new callbackOps).isOk = true := by decide +kernel
  obtain ⟨q, hq⟩ := exists_ok hok
  have hruns : (run (step callbackWorld) new callbackOps).map
      (fun q => (q.runs.map TimerRun.serial, q.freed)) = .ok ([0, 1, 2, 1], [0, 2]) := by
    decide +kernel
  rw [hq] at hruns
  obtain ⟨hserials, hfreed⟩ := Prod.mk.inj (Except.ok.inj hruns)
  exact ⟨q, hq, hserials, hfreed, (timers_run_exactly hq).1⟩

end Runs

end TimerQueue

end LearnMuduo
