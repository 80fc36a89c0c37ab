/-
  LearnMuduo.Timer.Armed

  While timers wait, the timerfd is armed for the first of them.

  `ResetTimer` reads the clock, and the kernel arms the timerfd at its own reading; what
  passes between the two is added to the expiry.  Nothing disarms the timerfd while
  `timers_` holds an entry: every setting is a valid one.
-/
import Mathlib.Data.Int.ConditionallyCompleteOrder
import LearnMuduo.Timer.TimerFaults

namespace LearnMuduo

open Lib

namespace TimerQueue

/-- When the first timer expires. -/
def earliest (q : TimerQueue) : Option TimeStamp := q.timers_.head?.map TimerEntry.expiration

/-- Armed for a timer that expires at `expiration`, or 100 microseconds ahead. -/
def ArmedFor (w : World) (fd : Timerfd) (expiration : TimeStamp) : Prop :=
  ∃ i, fd.readAt = w.clock i ∧ fd.armedAt = w.clock (i + 1) ∧
    fd.expiry = fd.armedAt + max (expiration - fd.readAt) 100

structure Armed (w : World) (q : TimerQueue) : Prop where
  first : ∀ t, q.earliest = some t → ∃ fd, q.timerfd = some fd ∧ ArmedFor w fd t

/-- No setting was one that disarms or is rejected. -/
structure SettingsValid (q : TimerQueue) : Prop where
  valid : ∀ s ∈ q.settings, Valid s

section Steps

variable {w : World} {q q' m : TimerQueue} {a : Nat} {it : TimerEntry} {t : Timer}

theorem Armed.of_eq (h : Armed w q) (htimers : q'.timers_ = q.timers_)
    (hfd : q'.timerfd = q.timerfd) : Armed w q' := by
  constructor
  intro t ht
  rw [hfd]
  apply h.first
  rw [earliest, ← htimers]
  exact ht

theorem ResetTimer_armed (ht : q.heap a = some t) (hs : q.ResetTimer w a = .ok q') :
    q'.timers_ = q.timers_ ∧ ∃ fd, q'.timerfd = some fd ∧ ArmedFor w fd t.expiration_ := by
  rw [ResetTimer_eq ht] at hs
  obtain ⟨diff, hdiff, hs⟩ := then_ok_iff.mp hs
  obtain rfl := Except.ok.inj hs
  obtain rfl := (int64_ok hdiff).1
  exact ⟨rfl, _, rfl, q.readings, rfl, rfl, rfl⟩

/-- The first entry behind an insertion is the new one, or as it was. -/
theorem earliest_emplace {expiration : TimeStamp} (hinc : Increasing q.timers_)
    (htimers : q'.timers_ = emplace (toLex (expiration, a)) q.timers_) :
    q'.earliest = some
      (match q.earliest with | none => expiration | some t => min expiration t) := by
  rw [earliest, earliest, htimers, head?_emplace hinc]
  cases hhead : q.timers_.head? with
  | none => rfl
  | some e =>
    show some (TimerEntry.expiration (min (toLex (expiration, a)) e)) = some (min expiration _)
    rcases le_total (toLex (expiration, a)) e with hle | hle
    · rw [min_eq_left hle]
      exact congrArg some (min_eq_left (TimerEntry.expiration_le hle)).symm
    · rw [min_eq_right hle]
      exact congrArg some (min_eq_right (TimerEntry.expiration_le hle)).symm

/-- What `Insert` returns: whether the new entry is the first. -/
theorem Insert_first {b : Bool} (hinc : Increasing q.timers_) (hs : q.Insert a = .ok (b, m)) :
    ∃ t, m.heap a = some t ∧ m.timerfd = q.timerfd ∧ m.settings = q.settings ∧
      m.earliest = if b then some t.expiration_ else q.earliest := by
  obtain ⟨t, ht, hs⟩ := then_ok_iff.mp hs
  obtain ⟨hb, rfl⟩ := Prod.mk.inj (Except.ok.inj hs)
  refine ⟨t, deref_ok ht, rfl, rfl, ?_⟩
  rw [earliest_emplace hinc rfl, ← hb, earliest]
  cases q.timers_ with
  | nil => rfl
  | cons e rest =>
    show some (min t.expiration_ e.expiration) = _
    by_cases hlt : t.expiration_ < e.expiration
    · rw [if_pos (decide_eq_true hlt), min_eq_left (le_of_lt hlt)]
    · rw [if_neg (by simpa using hlt), min_eq_right (not_lt.mp hlt)]
      rfl

theorem ResetTimer_settings (h : SettingsValid q) (ht : q.heap a = some t)
    (hs : q.ResetTimer w a = .ok q') : SettingsValid q' := by
  rw [ResetTimer_eq ht] at hs
  obtain ⟨diff, -, hs⟩ := then_ok_iff.mp hs
  obtain rfl := Except.ok.inj hs
  constructor
  intro s hmem
  rcases List.mem_append.mp hmem with hmem | hmem
  · exact h.valid s hmem
  · rw [List.mem_singleton.mp hmem]
    exact setting_valid diff

theorem AddTimerInloop_armed (hinc : Increasing q.timers_) (hs : q.AddTimerInloop w a = .ok q') :
    (Armed w q → Armed w q') ∧ (SettingsValid q → SettingsValid q') := by
  obtain ⟨⟨b, m⟩, hins, hs⟩ := then_ok_iff.mp hs
  obtain ⟨t, ht, hfd, hsettings, hfirst⟩ := Insert_first hinc hins
  cases b with
  -- the new timer is the first: the timerfd is armed for it
  | true =>
    rw [if_pos rfl] at hs
    obtain ⟨htimers, harmed⟩ := ResetTimer_armed ht hs
    refine ⟨fun _ => ⟨fun t' ht' => ?_⟩, fun h => ?_⟩
    · have heq : q'.earliest = some t.expiration_ := by
        rw [earliest, htimers]
        exact hfirst
      rw [← Option.some.inj (heq.symm.trans ht')]
      exact harmed
    · refine ResetTimer_settings ⟨fun s hmem => ?_⟩ ht hs
      exact h.valid s (hsettings ▸ hmem)
  -- it is not, and the first one and the timerfd stay
  | false =>
    rw [if_neg Bool.false_ne_true] at hs
    obtain rfl := Except.ok.inj hs
    refine ⟨fun h => ⟨fun t' ht' => ?_⟩, fun h => ⟨fun s hmem => h.valid s (hsettings ▸ hmem)⟩⟩
    rw [hfd]
    exact h.first t' (hfirst.symm.trans ht')

theorem newTimer_same {expiration time : TimeStamp} {interval : ℚ} {call : AddCall}
    (hs : q.newTimer w expiration interval call time = .ok (a, m)) :
    m.timers_ = q.timers_ ∧ m.timerfd = q.timerfd ∧ m.settings = q.settings := by
  simp only [newTimer] at hs
  split at hs
  · obtain ⟨-, rfl⟩ := Prod.mk.inj (Except.ok.inj hs)
    exact ⟨rfl, rfl, rfl⟩
  · cases hs

theorem AddTimer_armed {expiration time : TimeStamp} {interval : ℚ} {l : Bool} {call : AddCall}
    (hinc : Increasing q.timers_)
    (hs : q.AddTimer w expiration interval l call time = .ok q') :
    (Armed w q → Armed w q') ∧ (SettingsValid q → SettingsValid q') := by
  obtain ⟨⟨a, m⟩, hnew, hs⟩ := then_ok_iff.mp hs
  obtain ⟨htimers, hfd, hsettings⟩ := newTimer_same hnew
  have hvalid : SettingsValid q → SettingsValid m := fun h => ⟨hsettings ▸ h.valid⟩
  cases l with
  | true =>
    rw [if_pos rfl] at hs
    obtain ⟨harmed', hvalid'⟩ := AddTimerInloop_armed (htimers ▸ hinc) hs
    exact ⟨fun h => harmed' (h.of_eq htimers hfd), fun h => hvalid' (hvalid h)⟩
  | false =>
    rw [if_neg Bool.false_ne_true] at hs
    obtain rfl := Except.ok.inj hs
    exact ⟨fun h => h.of_eq htimers hfd, fun h => ⟨(hvalid h).valid⟩⟩

theorem register_armed {l : Bool} {call : AddCall} (hinc : Increasing q.timers_)
    (hs : q.register w l call = .ok q') :
    (Armed w q → Armed w q') ∧ (SettingsValid q → SettingsValid q') := by
  -- a reading of the clock before
  have htick : ∀ {expiration time : TimeStamp} {interval : ℚ},
      q.tick.AddTimer w expiration interval l call time = .ok q' →
      (Armed w q → Armed w q') ∧ (SettingsValid q → SettingsValid q') := by
    intro expiration time interval hs
    obtain ⟨harmed, hvalid⟩ := AddTimer_armed (q := q.tick) hinc hs
    exact ⟨fun h => harmed (h.of_eq rfl rfl), fun h => hvalid ⟨h.valid⟩⟩
  cases call with
  | RunAt timestamp => exact AddTimer_armed hinc hs
  | RunAfter d =>
    obtain ⟨_, -, hs⟩ := then_ok_iff.mp hs
    exact htick hs
  | RunEvery d =>
    obtain ⟨_, -, hs⟩ := then_ok_iff.mp hs
    exact htick hs

/-! ## HandleRead -/

/-- What a callback registers. -/
theorem run_register_settings {cs : List (AddCall × Bool)} {active : List TimerEntry}
    (hkept : Kept q active) (h : SettingsValid q)
    (hs : run (fun q (c : AddCall × Bool) => q.register w c.2 c.1) q cs = .ok q') :
    Kept q' active ∧ SettingsValid q' := by
  refine run_preserves (P := fun q => Kept q active ∧ SettingsValid q) ?_ ⟨hkept, h⟩ hs
  rintro q c q' ⟨hkept, h⟩ hs
  exact ⟨hkept.register hs, (register_armed hkept.increasing hs).2 h⟩

theorem Run_settings {active : List TimerEntry} (hkept : Kept q active) (h : SettingsValid q)
    (hs : Run w q it = .ok q') : Kept q' active ∧ SettingsValid q' := by
  obtain ⟨t, -, hs⟩ := Run_ok hs
  exact run_register_settings (hkept.ran it t.serial) ⟨h.valid⟩ hs

theorem restart_settings (h : SettingsValid q) (hs : restart w q it = .ok q') :
    SettingsValid q' := by
  obtain ⟨t, -, ⟨-, t', -, rfl⟩ | ⟨-, rfl⟩⟩ := restart_ok hs
  · exact ⟨h.valid⟩
  · exact ⟨h.valid⟩

/-- Whatever the timerfd was, at the end it is armed for the first timer. -/
theorem HandleRead_armed (hgood : Good q [] []) (h : SettingsValid q)
    (hs : q.HandleRead w = .ok q') : Armed w q' ∧ SettingsValid q' := by
  obtain ⟨m, hm, hs⟩ := then_ok_iff.mp hs
  have hread : Good (q.ReadFromFd w) [] [] := hgood.ReadFromFd
  have hexp := Good.expire (w := w) hread
  -- what the callbacks register keeps the settings valid
  obtain ⟨-, hvalid⟩ := run_preserves
    (P := fun p => Kept p ((q.ReadFromFd w).expire w).activeTimers_ ∧ SettingsValid p)
    (fun _ _ _ h hs => Run_settings h.1 h.2 hs) ⟨hexp.kept, ⟨h.valid⟩⟩ hm
  have hexp' : Good _ ([] ++ ((q.ReadFromFd w).expire w).activeTimers_) [] := hexp
  obtain ⟨hran, hgrown, -⟩ := run_Run hexp' hm
  rw [List.nil_append, ← hgrown.active] at hran
  obtain ⟨r, hr, hs⟩ := then_ok_iff.mp hs
  have hlast := (run_restart hran hr).1
  have hvalid' : SettingsValid r :=
    run_preserves (fun _ _ _ h hs => restart_settings h hs) hvalid hr
  split at hs
  · -- no timer is left, and there is nothing to say
    rename_i hnil
    obtain rfl := Except.ok.inj hs
    refine ⟨⟨fun t ht => ?_⟩, hvalid'⟩
    rw [earliest, hnil] at ht
    cases ht
  · rename_i e rest hcons
    obtain ⟨t, ht, hkey⟩ := hlast.kept.key e (by simp [hcons])
    obtain ⟨htimers, harmed⟩ := ResetTimer_armed ht hs
    refine ⟨⟨fun t' ht' => ?_⟩, ResetTimer_settings hvalid' ht hs⟩
    rw [earliest, htimers, hcons] at ht'
    rw [← Option.some.inj ht']
    show ∃ fd, _ ∧ ArmedFor w fd e.expiration
    rw [← hkey]
    exact harmed

theorem step_armed {op : Op} (hgood : Good q [] []) (harmed : Armed w q) (h : SettingsValid q)
    (hs : step w q op = .ok q') : Armed w q' ∧ SettingsValid q' := by
  cases op with
  | register call l =>
    obtain ⟨harmed', hvalid'⟩ := register_armed hgood.kept.increasing hs
    exact ⟨harmed' harmed, hvalid' h⟩
  | functor =>
    simp only [step] at hs
    split at hs
    · obtain rfl := Except.ok.inj hs
      exact ⟨harmed, h⟩
    · rename_i a rest hcons
      obtain ⟨harmed', hvalid'⟩ := AddTimerInloop_armed (q := { q with functors := rest })
        hgood.kept.increasing hs
      exact ⟨harmed' (harmed.of_eq rfl rfl), hvalid' ⟨h.valid⟩⟩
  | HandleRead => exact HandleRead_armed hgood h hs

end Steps

/-! ## Whole runs -/

/-- In every run of the queue: between the handlers, while `timers_` is not empty, the
    timerfd is armed for the first entry or 100 microseconds ahead, later only by what
    passed between the reading of the clock and the arming; and every setting is valid. -/
theorem timerfd_armed {w : World} {ops : List Op} {q : TimerQueue} (hclock : Monotone w.clock)
    (hrun : run (step w) new ops = .ok q) :
    (∀ e rest, q.timers_ = e :: rest → (∀ e' ∈ q.timers_, e.expiration ≤ e'.expiration) ∧
      ∃ fd, q.timerfd = some fd ∧ fd.readAt ≤ fd.armedAt ∧
        fd.expiry = max (e.expiration + (fd.armedAt - fd.readAt)) (fd.armedAt + 100)) ∧
      (∀ s ∈ q.settings, Valid s) ∧ ∀ op, step w q op ≠ .error .assertion := by
  have hinv : Good q [] [] ∧ Armed w q ∧ SettingsValid q := by
    refine run_preserves (P := fun q => Good q [] [] ∧ Armed w q ∧ SettingsValid q) ?_ ?_ hrun
    · rintro q op q' ⟨hgood, harmed, hvalid⟩ hs
      exact ⟨step_good hgood hs, step_armed hgood harmed hvalid hs⟩
    · exact ⟨new_good, ⟨fun t ht => by cases ht⟩, ⟨fun s hs => by cases hs⟩⟩
  obtain ⟨hgood, harmed, hvalid⟩ := hinv
  refine ⟨fun e rest hcons => ⟨fun e' he' => ?_, ?_⟩, hvalid.valid, fun op hs => ?_⟩
  · have hinc := hgood.kept.increasing
    rw [hcons] at hinc he'
    exact TimerEntry.expiration_le (hinc.head_le he')
  · have hfirst : q.earliest = some e.expiration := by
      rw [earliest, hcons]
      rfl
    obtain ⟨fd, hfd, i, hread, harm, hexpiry⟩ := harmed.first _ hfirst
    refine ⟨fd, hfd, ?_, ?_⟩
    · rw [hread, harm]
      exact hclock (Nat.le_succ i)
    · -- the relative time is counted from the arming
      have hmax : ∀ r a x : Int, a + max (x - r) 100 = max (x + (a - r)) (a + 100) := by
        intro r a x
        omega
      rw [hexpiry, hmax]
  · exact (step_error hgood hs).elim (fun h => by cases h) fun h => by cases h

/-- The clock advances with every reading. -/
def tickingWorld : World :=
  { clock := fun n => n
    malloc := fun n => 64 * (n + 1)
    during := fun _ _ => [] }

theorem tickingWorld_monotone : Monotone tickingWorld.clock :=
  fun _ _ h => Int.ofNat_le.mpr h

theorem timerfd_armed_example :
    ∃ q, run (step tickingWorld) new [.register (.RunAfter 1) true, .HandleRead] = .ok q ∧
      ∀ s ∈ q.settings, Valid s := by
  have hok : (run (step tickingWorld) new [.register (.RunAfter 1) true, .HandleRead]).isOk
      = true := by decide +kernel
  obtain ⟨q, hq⟩ := exists_ok hok
  exact ⟨q, hq, (timerfd_armed tickingWorld_monotone hq).2.1⟩

/-- A microsecond passes before the timerfd is armed: it expires after the timer. -/
theorem timerfd_late :
    ¬ ∀ (w : World) (ops : List Op) (q : TimerQueue), Monotone w.clock →
      run (step w) new ops = .ok q → ∀ e rest, q.timers_ = e :: rest →
        ∃ fd, q.timerfd = some fd ∧ fd.expiry ≤ max e.expiration (fd.armedAt + 100) := by
  intro h
  have hok : (run (step tickingWorld) new [.register (.RunAfter 1) true]).map
      (fun q => (q.timers_.map TimerEntry.expiration, q.timerfd))
      = .ok ([1000000], some ⟨1, 2, 1000001⟩) := by decide +kernel
  -- the timer is for 1000000, and the timerfd for 1000001
  cases hrun : run (step tickingWorld) new [.register (.RunAfter 1) true] with
  | error f =>
    rw [hrun] at hok
    cases hok
  | ok q =>
    rw [hrun] at hok
    obtain ⟨htimers, hfd⟩ := Prod.mk.inj (Except.ok.inj hok)
    obtain ⟨e, rest, hcons, hexp, -⟩ := List.map_eq_cons_iff.mp htimers
    obtain ⟨fd, hfd', hle⟩ := h tickingWorld _ q tickingWorld_monotone hrun e rest hcons
    obtain rfl := Option.some.inj (hfd.symm.trans hfd')
    rw [hexp] at hle
    exact absurd hle (by decide)

end TimerQueue

end LearnMuduo
