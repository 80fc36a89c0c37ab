/-
  LearnMuduo.Timer.NeverEarly

  No timer runs before its time, as far as whole seconds go.

  `AddTime` cuts the delay to whole seconds before it multiplies; behind that nothing
  fires early.  `Allows` says that a timer may run at a given time, after the runs so far:
  not before the delay of a `RunAfter` has passed, nor within an interval of an earlier
  run of a `RunEvery`.  Every timer waits for a time that is allowed, and every run
  happens at one.
-/
import Mathlib.Data.Int.ConditionallyCompleteOrder
import LearnMuduo.Timer.TimerFaults

namespace LearnMuduo

open Lib

/-- The microseconds `AddTime` adds for a delay. -/
def added (d : ℚ) : Int := truncate d * kMicroSecond2Second

/-- The delay of a registration is one `AddTime` can add. -/
def AddCall.InRange : AddCall → Prop
  | .RunAt _ => True
  | .RunAfter d => added d < 2 ^ 63
  | .RunEvery d => added d < 2 ^ 63

namespace TimerQueue

structure Allows (calls : List (AddCall × TimeStamp)) (runs : List TimerRun) (n : Nat)
    (x : TimeStamp) : Prop where
  after : ∀ d s, calls[n]? = some (.RunAfter d, s) → s + added d ≤ x
  every : ∀ d s, calls[n]? = some (.RunEvery d, s) →
    ∀ r ∈ runs, r.serial = n → r.time + added d ≤ x

/-- `active` and `past` are as in `Good`. -/
structure Timely (w : World) (q : TimerQueue) (active past : List TimerEntry) : Prop where
  next : ∀ a t, q.heap a = some t → a ∉ past.map TimerEntry.timer →
    Allows q.calls q.runs t.serial t.expiration_
  /-- Every run was allowed after the runs before it. -/
  runs : ∀ l r l', q.runs = l ++ r :: l' → Allows q.calls l r.serial r.time
  clock : ∀ r ∈ q.runs, r.time ≤ w.clock q.readings
  due : ∀ e ∈ active, e.expiration ≤ w.clock q.readings
  range : ∀ c ∈ q.calls, c.1.InRange

theorem Allows.mono {calls : List (AddCall × TimeStamp)} {runs : List TimerRun} {n : Nat}
    {x y : TimeStamp} (h : Allows calls runs n x) (hle : x ≤ y) : Allows calls runs n y :=
  ⟨fun d s hc => le_trans (h.after d s hc) hle,
    fun d s hc r hr hn => le_trans (h.every d s hc r hr hn) hle⟩

section Steps

variable {w : World} {q q' : TimerQueue} {active active' past past' : List TimerEntry} {a : Nat}
  {it : TimerEntry} {t : Timer}

/-- Other places for the timers, another setting, and time may have passed. -/
theorem Timely.of_eq (h : Timely w q active past) (hclock : Monotone w.clock)
    (hheap : q'.heap = q.heap) (hcalls : q'.calls = q.calls) (hruns : q'.runs = q.runs)
    (hread : q.readings ≤ q'.readings) : Timely w q' active past := by
  have hle : w.clock q.readings ≤ w.clock q'.readings := hclock hread
  refine ⟨?_, ?_, ?_, ?_, ?_⟩
  · rw [hheap, hcalls, hruns]
    exact h.next
  · rw [hcalls, hruns]
    exact h.runs
  · rw [hruns]
    exact fun r hr => le_trans (h.clock r hr) hle
  · exact fun e he => le_trans (h.due e he) hle
  · rw [hcalls]
    exact h.range

theorem Timely.rearmed (h : Timely w q active past) (hclock : Monotone w.clock)
    (hr : Rearmed q q') : Timely w q' active past :=
  h.of_eq hclock hr.heap hr.calls hr.runs hr.readings

/-- What is allowed does not depend on the later registrations. -/
theorem Allows.of_append {calls : List (AddCall × TimeStamp)} {c : AddCall × TimeStamp}
    {runs : List TimerRun} {n : Nat} {x : TimeStamp} (h : Allows calls runs n x)
    (hn : n < calls.length) : Allows (calls ++ [c]) runs n x := by
  have hold : (calls ++ [c])[n]? = calls[n]? := List.getElem?_append_left hn
  exact ⟨fun d s hc => h.after d s (hold ▸ hc), fun d s hc => h.every d s (hold ▸ hc)⟩

theorem Once.serial_lt (h : Once q past) {r : TimerRun} (hr : r ∈ q.runs) :
    r.serial < q.calls.length := by
  by_contra hge
  have hzero := h.unborn r.serial (not_lt.mp hge)
  rw [ranCount, List.countP_eq_zero] at hzero
  exact hzero r hr (decide_eq_true rfl)

theorem AddTime_range {t t' : TimeStamp} {d : ℚ} (h : AddTime t d = .ok t') :
    added d < 2 ^ 63 := by
  obtain ⟨seconds, hs, h⟩ := then_ok_iff.mp h
  obtain ⟨us, hus, -⟩ := then_ok_iff.mp h
  obtain rfl := (int64_ok hs).1
  exact (int64_ok hus).2.2

theorem register_range {l : Bool} {call : AddCall} (hs : q.register w l call = .ok q') :
    call.InRange := by
  cases call with
  | RunAt timestamp => trivial
  | RunAfter d =>
    obtain ⟨expiration, hexp, -⟩ := then_ok_iff.mp hs
    exact AddTime_range hexp
  | RunEvery d =>
    obtain ⟨expiration, hexp, -⟩ := then_ok_iff.mp hs
    exact AddTime_range hexp

/-- A new timer waits for the end of its delay. -/
theorem Registered.allows {l : Bool} {call : AddCall} {expiration s : TimeStamp}
    (hreg : Registered w q q' l call a expiration s) (honce : Once q past) :
    Allows (q.calls ++ [(call, s)]) q.runs q.calls.length expiration := by
  have hlast : (q.calls ++ [(call, s)])[q.calls.length]? = some (call, s) :=
    List.getElem?_concat_length
  constructor
  · intro d s' hc
    rw [hlast] at hc
    obtain ⟨rfl, rfl⟩ := Prod.mk.inj (Option.some.inj hc)
    exact le_of_eq hreg.expires.symm
  · intro d s' _ r hr hn
    -- it has not run
    exact absurd (honce.serial_lt hr) (by omega)

theorem Timely.register {l : Bool} {call : AddCall} (h : Timely w q active past)
    (hclock : Monotone w.clock) (hgood : Good q active past)
    (hs : q.register w l call = .ok q') : Timely w q' active past := by
  obtain ⟨a, expiration, s, hreg⟩ := register_ok hs
  have hnew := hreg.allows hgood.once
  have hrange := register_range hs
  -- the place of the new timer does not matter here
  have hmid : Timely w (q.withTimer a expiration call s) active past := by
    refine ⟨?_, ?_, h.clock, h.due, ?_⟩
    · intro b t ht hpast
      by_cases hb : b = a
      · subst hb
        have hself : some (Timer.new q.calls.length expiration call.interval) = some t :=
          (Function.update_self b _ q.heap).symm.trans ht
        obtain rfl := Option.some.inj hself
        exact hnew
      · have ht' : q.heap b = some t := (Function.update_of_ne hb _ q.heap).symm.trans ht
        exact (h.next b t ht' hpast).of_append (hgood.serials.below b _ (serialAt_some ht'))
    · intro l r l' hruns
      have hr : r ∈ q.runs := by
        have hsplit : q.runs = l ++ r :: l' := hruns
        rw [hsplit]
        exact List.mem_append_right l List.mem_cons_self
      exact (h.runs l r l' hruns).of_append (hgood.once.serial_lt hr)
    · intro c hc
      rcases List.mem_append.mp hc with hc | hc
      · exact h.range c hc
      · rw [List.mem_singleton.mp hc]
        exact hrange
  have hr := hreg.effect
  cases l <;> exact hmid.of_eq hclock hr.heap hr.calls hr.runs hr.readings

/-- A timer that is due runs. -/
theorem Timely.ran (h : Timely w q active past) (hclock : Monotone w.clock)
    (hgood : Good q active past) (hactive : it ∈ active)
    (hnot : it.timer ∉ past.map TimerEntry.timer) (ht : q.heap it.timer = some t) :
    Timely w (q.ran w it t.serial) active (past ++ [it]) := by
  have hle : w.clock q.readings ≤ w.clock (q.readings + 1) := hclock (Nat.le_succ _)
  have hallows : Allows q.calls q.runs t.serial (w.clock q.readings) := by
    refine (h.next _ t ht hnot).mono ?_
    obtain ⟨u, hu, hkey⟩ := hgood.kept.key it (List.mem_append_right _ hactive)
    obtain rfl := Option.some.inj (ht.symm.trans hu)
    rw [hkey]
    exact h.due it hactive
  refine ⟨?_, ?_, ?_, fun e he => le_trans (h.due e he) hle, h.range⟩
  · intro b u hu hpast
    rw [List.map_append, List.mem_append, not_or] at hpast
    have hb : b ≠ it.timer := fun heq => hpast.2 (by simp [heq])
    have hold := h.next b u hu hpast.1
    refine ⟨hold.after, fun d s hc r hr hn => ?_⟩
    rcases List.mem_append.mp hr with hr | hr
    · exact hold.every d s hc r hr hn
    · -- the run that is new is that of another timer
      obtain rfl := List.mem_singleton.mp hr
      refine absurd (hgood.serials.inj b it.timer _ (serialAt_some hu) ?_) hb
      rw [serialAt_some ht]
      exact congrArg some hn
  · intro l r l' hruns
    have hsplit : q.runs ++ [⟨t.serial, it.expiration, w.clock q.readings⟩] = l ++ r :: l' := hruns
    rcases List.eq_nil_or_concat l' with rfl | ⟨m, x, rfl⟩
    · obtain ⟨rfl, hlast⟩ := List.append_inj' hsplit rfl
      obtain rfl := List.singleton_inj.mp hlast
      exact hallows
    · rw [List.concat_eq_append, ← List.cons_append, ← List.append_assoc] at hsplit
      exact h.runs l r m (List.append_inj' hsplit rfl).1
  · intro r hr
    rcases List.mem_append.mp hr with hr | hr
    · exact le_trans (h.clock r hr) hle
    · rw [List.mem_singleton.mp hr]
      exact hle

theorem run_register_timely {cs : List (AddCall × Bool)} (h : Timely w q active past)
    (hclock : Monotone w.clock) (hgood : Good q active past) (hran : ∀ e ∈ past, e ∈ active)
    (hs : run (fun q (c : AddCall × Bool) => q.register w c.2 c.1) q cs = .ok q') :
    Timely w q' active past := by
  have hboth : Good q' active past ∧ Timely w q' active past := by
    refine run_preserves (P := fun q => Good q active past ∧ Timely w q active past) ?_
      ⟨hgood, h⟩ hs
    rintro q c q' ⟨hgood, h⟩ hs
    exact ⟨(hgood.register hran hs).1, h.register hclock hgood hs⟩
  exact hboth.2

theorem Timely.Run {rest : List TimerEntry} (h : Timely w q (past ++ it :: rest) past)
    (hclock : Monotone w.clock) (hgood : Good q (past ++ it :: rest) past)
    (hs : Run w q it = .ok q') : Timely w q' (past ++ it :: rest) (past ++ [it]) := by
  obtain ⟨t, ht, hs⟩ := Run_ok hs
  have hnot := hgood.notPast
  refine run_register_timely (h.ran hclock hgood (by simp) hnot ht) hclock (hgood.ran hnot ht)
    ?_ hs
  intro e he
  rw [List.append_cons]
  exact List.mem_append_left rest he

/-- A repeating timer waits an interval from a time at which all its runs are over. -/
theorem Timely.restart (h : Timely w q (it :: active) (it :: active)) (hclock : Monotone w.clock)
    (hgood : Good q (it :: active) (it :: active)) (hs : restart w q it = .ok q') :
    Timely w q' active active := by
  obtain ⟨t, ht, hcases⟩ := restart_ok hs
  -- the timers besides this one
  have hother : ∀ b u, b ≠ it.timer → q.heap b = some u → b ∉ active.map TimerEntry.timer →
      Allows q.calls q.runs u.serial u.expiration_ := by
    intro b u hb hu hpast
    refine h.next b u hu fun hmem => ?_
    rcases List.mem_cons.mp hmem with heq | hmem
    · exact hb heq
    · exact hpast hmem
  have hdue : ∀ e ∈ active, e.expiration ≤ w.clock q.readings :=
    fun e he => h.due e (List.mem_cons_of_mem it he)
  have hle : w.clock q.readings ≤ w.clock (q.readings + 1) := hclock (Nat.le_succ _)
  rcases hcases with ⟨hrep, t', ht', rfl⟩ | ⟨-, rfl⟩
  · refine ⟨?_, h.runs, fun r hr => le_trans (h.clock r hr) hle,
      fun e he => le_trans (hdue e he) hle, h.range⟩
    intro b u hu hpast
    by_cases hb : b = it.timer
    · subst hb
      obtain rfl := Option.some.inj ((Function.update_self _ _ q.heap).symm.trans hu)
      obtain ⟨c, hc, hint, -⟩ := hgood.made _ t ht
      subst ht'
      constructor
      · intro d s hc'
        have hcall : c = (.RunAfter d, s) := Option.some.inj (hc.symm.trans hc')
        refine absurd ⟨c, hc, ?_⟩ (hgood.repeats ht hrep)
        rw [hcall]
        exact lt_irrefl 0
      · intro d s hc' r hr _
        have hcall : c = (.RunEvery d, s) := Option.some.inj (hc.symm.trans hc')
        rw [hcall] at hint
        show r.time + added d ≤ w.clock q.readings + truncate t.interval_ * kMicroSecond2Second
        rw [hint]
        exact add_le_add_left (h.clock r hr) _
    · exact hother b u hb ((Function.update_of_ne hb _ q.heap).symm.trans hu) hpast
  · refine ⟨?_, h.runs, h.clock, hdue, h.range⟩
    intro b u hu hpast
    by_cases hb : b = it.timer
    · subst hb
      have hnone : (none : Option Timer) = some u := (Function.update_self _ _ q.heap).symm.trans hu
      cases hnone
    · exact hother b u hb ((Function.update_of_ne hb _ q.heap).symm.trans hu) hpast

theorem Timely.expire (h : Timely w q [] []) (hclock : Monotone w.clock) (hkept : Kept q []) :
    Timely w (q.expire w) (q.expire w).activeTimers_ [] := by
  have hle : w.clock q.readings ≤ w.clock (q.readings + 1) := hclock (Nat.le_succ _)
  refine ⟨h.next, h.runs, fun r hr => le_trans (h.clock r hr) hle, fun e he => ?_, h.range⟩
  rw [(expire_eq hkept).1, List.mem_filter] at he
  exact le_trans (of_decide_eq_true he.2) hle

end Steps

/-! ## Whole runs -/

/-- The runs of a `RunEvery` are apart by what `AddTime` adds. -/
theorem Timely.apart {w : World} {q : TimerQueue} {active past : List TimerEntry} {n : Nat}
    {d : ℚ} {s : TimeStamp} (h : Timely w q active past)
    (hc : q.calls[n]? = some (.RunEvery d, s)) :
    (q.runs.filter (·.serial = n)).IsChain fun r r' => r.time + added d ≤ r'.time := by
  apply List.Pairwise.isChain
  rw [List.pairwise_filter, List.pairwise_iff_getElem]
  intro i j hi hj hij hri hrj
  have hsplit : q.runs = q.runs.take j ++ q.runs[j] :: q.runs.drop (j + 1) := by
    rw [← List.drop_eq_getElem_cons hj, List.take_append_drop]
  have hserial : q.runs[j].serial = n := of_decide_eq_true hrj
  have hmem : q.runs[i] ∈ q.runs.take j := List.mem_take_iff_getElem.mpr ⟨i, by omega, rfl⟩
  refine (h.runs _ _ _ hsplit).every d s (hserial ▸ hc) _ hmem ?_
  rw [hserial]
  exact of_decide_eq_true hri

/-- Behind the registration in `waitingWorld`. -/
def waiting (d : ℚ) : TimerQueue :=
  { new.withTimer 64 (added d) (.RunAfter d) 0 with
    timers_ := [toLex (added d, 64)]
    timerfd := some { readAt := 0, armedAt := 0, expiry := 0 + max (added d) 100 }
    readings := 3
    settings := [setting (added d)] }

end TimerQueue

end LearnMuduo
