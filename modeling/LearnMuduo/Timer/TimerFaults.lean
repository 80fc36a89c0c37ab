/-
  LearnMuduo.Timer.TimerFaults

  How a step of the TimerQueue can fail.

  Only a timestamp out of range and an allocation that gives no new address are left
  (`Outside`): no step dereferences a timer that is freed, and no setting of the timerfd
  is rejected or disarms it.
-/
import LearnMuduo.Timer.TimerLife

namespace LearnMuduo

open Lib

namespace TimerQueue

/-- A sum out of range, or no address for a new timer. -/
def Outside (f : Fault) : Prop := f = .overflow ∨ f = .badAlloc

section Faults

variable {w : World} {q q' : TimerQueue} {active past : List TimerEntry} {a : Nat} {t : Timer}
  {f : Fault}

theorem int64_error {i : Int} (h : int64 i = .error f) : Outside f := by
  unfold int64 at h
  split at h
  · cases h
  · exact Or.inl (Except.error.inj h).symm

theorem AddTime_error {t : TimeStamp} {d : ℚ} (h : AddTime t d = .error f) : Outside f := by
  rcases then_error_iff.mp h with h | ⟨_, -, h⟩
  · exact int64_error h
  · rcases then_error_iff.mp h with h | ⟨_, -, h⟩
    · exact int64_error h
    · exact int64_error h

/-- The setting `ResetTimer` makes for a difference to the expiration. -/
def setting (diff : Int) : Itimerspec :=
  { tv_sec := max diff 100 / kMicroSecond2Second
    tv_nsec := max diff 100 % kMicroSecond2Second * 1000 }

/-- It is not rejected, and does not disarm. -/
structure Valid (newtime : Itimerspec) : Prop where
  sec : 0 ≤ newtime.tv_sec
  nsec : 0 ≤ newtime.tv_nsec ∧ newtime.tv_nsec < 1000000000
  nonzero : ¬ (newtime.tv_sec = 0 ∧ newtime.tv_nsec = 0)

theorem setting_valid (diff : Int) : Valid (setting diff) := by
  have hpos : 100 ≤ max diff 100 := le_max_right diff 100
  constructor <;> simp only [setting, kMicroSecond2Second] <;> omega

theorem setting_settime (diff : Int) (readAt t : TimeStamp) :
    timerfd_settime (setting diff) readAt t
      = .ok (some { readAt := readAt, armedAt := t, expiry := t + max diff 100 }) := by
  have hvalid := setting_valid diff
  rw [timerfd_settime, if_pos ⟨hvalid.sec, hvalid.nsec⟩, if_neg hvalid.nonzero]
  have hsum : ∀ i : Int, i + (setting diff).tv_sec * kMicroSecond2Second
      + (setting diff).tv_nsec / 1000 = i + max diff 100 := by
    intro i
    simp only [setting, kMicroSecond2Second]
    omega
  rw [hsum]

/-- `ResetTimer` arms the timerfd: for the timer's expiration, if that is far enough. -/
theorem ResetTimer_eq (ht : q.heap a = some t) :
    q.ResetTimer w a = int64 (t.expiration_ - q.now w) >>= fun diff =>
      .ok { q.tick.tick with
        timerfd := some { readAt := q.now w, armedAt := q.tick.now w
                          expiry := q.tick.now w + max diff 100 }
        settings := q.settings ++ [setting diff] } := by
  rw [ResetTimer, deref_some ht, ok_then]
  congr 1
  funext diff
  have hdiff : (if diff < 100 then 100 else diff) = max diff 100 := by
    split <;> omega
  simp only [hdiff]
  show timerfd_settime (setting diff) _ _ >>= _ = _
  rw [setting_settime]
  rfl

theorem ResetTimer_error (ht : q.heap a = some t) (h : q.ResetTimer w a = .error f) :
    Outside f := by
  rw [ResetTimer_eq ht] at h
  rcases then_error_iff.mp h with h | ⟨_, -, h⟩
  · exact int64_error h
  · cases h

theorem AddTimerInloop_error (ht : q.heap a = some t) (h : q.AddTimerInloop w a = .error f) :
    Outside f := by
  rcases then_error_iff.mp h with h | ⟨r, hr, h⟩
  · rw [Insert, deref_some ht] at h
    cases h
  · obtain ⟨t', ht', hq⟩ := Insert_ok hr
    split at h
    · refine ResetTimer_error (t := t) ?_ h
      rw [hq]
      exact ht
    · cases h

theorem AddTimer_error {expiration time : TimeStamp} {interval : ℚ} {l : Bool} {call : AddCall}
    (h : q.AddTimer w expiration interval l call time = .error f) : Outside f := by
  rcases then_error_iff.mp h with h | ⟨⟨a, m⟩, hm, h⟩
  · simp only [newTimer] at h
    split at h
    · cases h
    · exact Or.inr (Except.error.inj h).symm
  · simp only [newTimer] at hm
    split at hm
    · obtain ⟨rfl, rfl⟩ := Prod.mk.inj (Except.ok.inj hm)
      split at h
      · exact AddTimerInloop_error (Function.update_self _ _ _) h
      · cases h
    · cases hm

theorem register_error {l : Bool} {call : AddCall} (h : q.register w l call = .error f) :
    Outside f := by
  cases call with
  | RunAt timestamp => exact AddTimer_error h
  | RunAfter d =>
    rcases then_error_iff.mp h with h | ⟨_, -, h⟩
    · exact AddTime_error h
    · exact AddTimer_error h
  | RunEvery d =>
    rcases then_error_iff.mp h with h | ⟨_, -, h⟩
    · exact AddTime_error h
    · exact AddTimer_error h

theorem run_register_error {cs : List (AddCall × Bool)}
    (h : run (fun q (c : AddCall × Bool) => q.register w c.2 c.1) q cs = .error f) :
    Outside f := by
  induction cs generalizing q with
  | nil => cases h
  | cons c cs ih =>
    rcases then_error_iff.mp h with h | ⟨m, -, h⟩
    · exact register_error h
    · exact ih h

theorem run_Run_error {rest : List TimerEntry} (h : Good q (past ++ rest) past)
    (hs : run (TimerQueue.Run w) q rest = .error f) : Outside f := by
  induction rest generalizing q past with
  | nil => cases hs
  | cons it rest ih =>
    obtain ⟨t, ht, -⟩ := h.kept.key it (by simp)
    rcases then_error_iff.mp hs with hs | ⟨m, hm, hs⟩
    · rw [TimerQueue.Run, deref_some ht] at hs
      exact run_register_error hs
    · obtain ⟨hgood, -, -⟩ := h.Run hm
      rw [List.append_cons] at hgood
      exact ih hgood hs

theorem run_restart_error (h : Good q active active)
    (hs : run (TimerQueue.restart w) q active = .error f) : Outside f := by
  induction active generalizing q with
  | nil => cases hs
  | cons it active ih =>
    obtain ⟨t, ht, -⟩ := h.kept.key it (by simp)
    rcases then_error_iff.mp hs with hs | ⟨m, hm, hs⟩
    · rw [TimerQueue.restart, deref_some ht, ok_then] at hs
      split at hs
      · rcases then_error_iff.mp hs with hs | ⟨t', -, hs⟩
        · rcases then_error_iff.mp hs with hs | ⟨_, -, hs⟩
          · exact AddTime_error hs
          · cases hs
        · rw [Insert, deref_some (Function.update_self it.timer _ q.heap)] at hs
          cases hs
      · cases hs
    · exact ih (h.restart hm).1 hs

theorem HandleRead_error (h : Good q [] []) (hs : q.HandleRead w = .error f) : Outside f := by
  have hexp : Good _ ([] ++ ((q.ReadFromFd w).expire w).activeTimers_) [] :=
    Good.expire h.ReadFromFd
  rcases then_error_iff.mp hs with hs | ⟨m, hm, hs⟩
  · exact run_Run_error hexp hs
  · obtain ⟨hgood, hgrown, -⟩ := run_Run hexp hm
    rw [List.nil_append, ← hgrown.active] at hgood
    rcases then_error_iff.mp hs with hs | ⟨r, hr, hs⟩
    · exact run_restart_error hgood hs
    · have hlast := (run_restart hgood hr).1
      split at hs
      · cases hs
      · -- the first of the timers that are left arms the timerfd
        rename_i e rest hcons
        obtain ⟨t, ht, -⟩ := hlast.kept.key e (by simp [hcons])
        exact ResetTimer_error ht hs

/-- No step uses a timer that is freed, and none is refused its setting. -/
theorem step_error {op : Op} (h : Good q [] []) (hs : step w q op = .error f) : Outside f := by
  cases op with
  | register call l => exact register_error hs
  | functor =>
    simp only [step] at hs
    split at hs
    · cases hs
    · rename_i a rest hcons
      have hmem : a ∈ q.homes [] := by
        rw [homes, hcons]
        exact List.mem_append_right _ List.mem_cons_self
      obtain ⟨t, ht⟩ := (h.kept.live a).mpr hmem
      exact AddTimerInloop_error (q := { q with functors := rest }) ht hs
  | HandleRead => exact HandleRead_error h hs

end Faults

end TimerQueue

end LearnMuduo
