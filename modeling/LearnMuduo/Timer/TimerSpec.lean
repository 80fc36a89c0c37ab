/-
  LearnMuduo.Timer.TimerSpec

  What each function of the TimerQueue does, and who owns the timers.

  Arming the timerfd changes nothing else (`Rearmed`), so the effect of a function is a
  record update up to it.  `Kept` is the invariant of ownership: every `Timer` object is
  in `timers_` under its current expiration, in the hands of the `HandleRead` that runs,
  or in a queued functor, and in one of them only.
-/
import LearnMuduo.Timer.TimerQueue

namespace LearnMuduo

open Lib

/-- The interval `AddTimer` is given. -/
def AddCall.interval : AddCall → ℚ
  | .RunAt _ => 0
  | .RunAfter _ => 0
  | .RunEvery interval => interval

/-- What the timestamp of a registration is that read the clock at `t`. -/
def AddCall.Expires (call : AddCall) (t expiration : TimeStamp) : Prop :=
  match call with
  | .RunAt timestamp => expiration = timestamp
  | .RunAfter d => expiration = t + truncate d * kMicroSecond2Second
  | .RunEvery d => expiration = t + truncate d * kMicroSecond2Second

@[simp] theorem TimerEntry.expiration_toLex (t : TimeStamp) (a : Nat) :
    TimerEntry.expiration (toLex (t, a)) = t := rfl

@[simp] theorem TimerEntry.timer_toLex (t : TimeStamp) (a : Nat) :
    TimerEntry.timer (toLex (t, a)) = a := rfl

theorem TimerEntry.ext {e e' : TimerEntry} (h : e.expiration = e'.expiration)
    (h' : e.timer = e'.timer) : e = e' :=
  ofLex.injective (Prod.ext h h')

/-- Below the sentinel lie exactly the entries that have expired. -/
theorem TimerEntry.lt_sentinel {e : TimerEntry} {t : TimeStamp} (he : e.timer < UINTPTR_MAX) :
    e < toLex (t, UINTPTR_MAX) ↔ e.expiration ≤ t := by
  rw [Prod.Lex.lt_iff]
  show e.expiration < t ∨ e.expiration = t ∧ e.timer < UINTPTR_MAX ↔ _
  constructor
  · rintro (h | ⟨h, -⟩)
    · exact le_of_lt h
    · exact le_of_eq h
  · intro h
    exact (lt_or_eq_of_le h).imp_right fun heq => ⟨heq, he⟩

theorem TimerEntry.expiration_le {e e' : TimerEntry} (h : e ≤ e') :
    e.expiration ≤ e'.expiration := by
  rcases Prod.Lex.le_iff.mp h with h | ⟨h, -⟩
  · exact le_of_lt h
  · exact le_of_eq h

namespace TimerQueue

/-- The queues differ in the timerfd and its settings at most; time may have passed. -/
structure Rearmed (q q' : TimerQueue) : Prop where
  heap : q'.heap = q.heap
  timers : q'.timers_ = q.timers_
  active : q'.activeTimers_ = q.activeTimers_
  functors : q'.functors = q.functors
  calls : q'.calls = q.calls
  runs : q'.runs = q.runs
  freed : q'.freed = q.freed
  readings : q.readings ≤ q'.readings

theorem Rearmed.refl (q : TimerQueue) : Rearmed q q :=
  ⟨rfl, rfl, rfl, rfl, rfl, rfl, rfl, Nat.le_refl _⟩

section Effects

variable {w : World} {q q' : TimerQueue} {a : Nat}

theorem deref_ok {t : Timer} (h : q.deref a = .ok t) : q.heap a = some t := by
  unfold deref at h
  split at h
  · rename_i t' heq
    rw [heq, Except.ok.inj h]
  · cases h

theorem deref_some {t : Timer} (h : q.heap a = some t) : q.deref a = .ok t := by
  unfold deref
  rw [h]

theorem ResetTimer_ok (h : q.ResetTimer w a = .ok q') : Rearmed q q' := by
  obtain ⟨t, -, h⟩ := then_ok_iff.mp h
  obtain ⟨diff, -, h⟩ := then_ok_iff.mp h
  obtain ⟨fd, -, h⟩ := then_ok_iff.mp h
  obtain rfl := Except.ok.inj h
  exact ⟨rfl, rfl, rfl, rfl, rfl, rfl, rfl, Nat.le_add_right _ 2⟩

theorem Insert_ok {b : Bool} (h : q.Insert a = .ok (b, q')) :
    ∃ t, q.heap a = some t ∧
      q' = { q with timers_ := emplace (toLex (t.expiration_, a)) q.timers_ } := by
  obtain ⟨t, ht, h⟩ := then_ok_iff.mp h
  obtain ⟨-, rfl⟩ := Prod.mk.inj (Except.ok.inj h)
  exact ⟨t, deref_ok ht, rfl⟩

theorem AddTimerInloop_ok (h : q.AddTimerInloop w a = .ok q') :
    ∃ t, q.heap a = some t ∧
      Rearmed { q with timers_ := emplace (toLex (t.expiration_, a)) q.timers_ } q' := by
  obtain ⟨⟨b, q1⟩, hins, h⟩ := then_ok_iff.mp h
  obtain ⟨t, ht, rfl⟩ := Insert_ok hins
  refine ⟨t, ht, ?_⟩
  split at h
  · exact ResetTimer_ok h
  · obtain rfl := Except.ok.inj h
    exact Rearmed.refl _

/-- The queue behind `new Timer`. -/
def withTimer (q : TimerQueue) (a : Nat) (expiration : TimeStamp) (call : AddCall)
    (t : TimeStamp) : TimerQueue :=
  { q with
    heap := Function.update q.heap a (some (Timer.new q.calls.length expiration call.interval))
    calls := q.calls ++ [(call, t)] }

/-- What a registration adds: a new object, in `timers_` or in a queued functor. -/
structure Registered (w : World) (q q' : TimerQueue) (isInLoopThread : Bool) (call : AddCall)
    (a : Nat) (expiration t : TimeStamp) : Prop where
  fresh : q.heap a = none
  bounded : a < UINTPTR_MAX
  expires : call.Expires t expiration
  reads : (∃ timestamp, call = .RunAt timestamp) ∨
    t = w.clock q.readings ∧ q.readings < q'.readings
  effect : Rearmed
    (if isInLoopThread then
      { q.withTimer a expiration call t with
        timers_ := emplace (toLex (expiration, a)) q.timers_ }
    else { q.withTimer a expiration call t with functors := q.functors ++ [a] }) q'

theorem AddTimer_ok {expiration t : TimeStamp} {isInLoopThread : Bool} {call : AddCall}
    (h : q.AddTimer w expiration call.interval isInLoopThread call t = .ok q') :
    ∃ a, q.heap a = none ∧ a < UINTPTR_MAX ∧ Rearmed
      (if isInLoopThread then
        { q.withTimer a expiration call t with
          timers_ := emplace (toLex (expiration, a)) q.timers_ }
      else { q.withTimer a expiration call t with functors := q.functors ++ [a] }) q' := by
  obtain ⟨⟨a, q1⟩, hnew, h⟩ := then_ok_iff.mp h
  unfold newTimer at hnew
  simp only at hnew
  split at hnew
  · rename_i hfresh
    obtain ⟨rfl, rfl⟩ := Prod.mk.inj (Except.ok.inj hnew)
    refine ⟨_, hfresh.1, hfresh.2, ?_⟩
    cases isInLoopThread with
    -- on the loop thread the new object is inserted at once
    | true =>
      rw [if_pos rfl] at h ⊢
      obtain ⟨timer, htimer, hr⟩ := AddTimerInloop_ok h
      have hself : Function.update q.heap (w.malloc q.calls.length)
          (some (Timer.new q.calls.length expiration call.interval)) (w.malloc q.calls.length)
          = some timer := htimer
      rw [Function.update_self] at hself
      obtain rfl := Option.some.inj hself
      exact hr
    -- elsewhere the functor is queued
    | false =>
      rw [if_neg Bool.false_ne_true] at h ⊢
      obtain rfl := Except.ok.inj h
      exact Rearmed.refl _
  · cases hnew

theorem register_ok {isInLoopThread : Bool} {call : AddCall}
    (h : q.register w isInLoopThread call = .ok q') :
    ∃ a expiration t, Registered w q q' isInLoopThread call a expiration t := by
  -- the two registrations that read the clock
  have hreads : ∀ d, (call = .RunAfter d ∨ call = .RunEvery d) → ∀ expiration,
      AddTime (q.now w) d = .ok expiration →
      q.tick.AddTimer w expiration call.interval isInLoopThread call (q.now w) = .ok q' →
      ∃ a expiration t, Registered w q q' isInLoopThread call a expiration t := by
    intro d hcall expiration hexp hadd
    obtain ⟨a, hfresh, hbound, hr⟩ := AddTimer_ok hadd
    refine ⟨a, expiration, q.now w, hfresh, hbound, ?_, Or.inr ⟨rfl, ?_⟩, ?_⟩
    · rcases hcall with rfl | rfl <;> exact AddTime_ok hexp
    · cases isInLoopThread <;> exact hr.readings
    · cases isInLoopThread <;>
        exact ⟨hr.heap, hr.timers, hr.active, hr.functors, hr.calls, hr.runs, hr.freed,
          Nat.le_of_succ_le hr.readings⟩
  cases call with
  | RunAt timestamp =>
    have hadd : q.AddTimer w timestamp (AddCall.RunAt timestamp).interval isInLoopThread
        (.RunAt timestamp) 0 = .ok q' := h
    obtain ⟨a, hfresh, hbound, hr⟩ := AddTimer_ok hadd
    exact ⟨a, timestamp, 0, hfresh, hbound, rfl, Or.inl ⟨timestamp, rfl⟩, hr⟩
  | RunAfter d =>
    obtain ⟨expiration, hexp, hadd⟩ := then_ok_iff.mp h
    exact hreads d (Or.inl rfl) expiration hexp hadd
  | RunEvery d =>
    obtain ⟨expiration, hexp, hadd⟩ := then_ok_iff.mp h
    exact hreads d (Or.inr rfl) expiration hexp hadd

/-- The queue behind the call of a timer's callback, before what the callback does. -/
def ran (q : TimerQueue) (w : World) (it : TimerEntry) (serial : Nat) : TimerQueue :=
  { q.tick with runs := q.runs ++ [⟨serial, it.expiration, q.now w⟩] }

theorem Run_ok {it : TimerEntry} (h : Run w q it = .ok q') :
    ∃ t, q.heap it.timer = some t ∧
      run (fun q (c : AddCall × Bool) => q.register w c.2 c.1) (q.ran w it t.serial)
        (w.during q.runs.length t.serial) = .ok q' := by
  obtain ⟨t, ht, h⟩ := then_ok_iff.mp h
  exact ⟨t, deref_ok ht, h⟩

/-- A repeating timer goes back under a new expiration, another one is freed. -/
theorem restart_ok {it : TimerEntry} (h : restart w q it = .ok q') :
    ∃ t, q.heap it.timer = some t ∧
      ((t.repeat_ = true ∧ ∃ t', t' = { t with
          expiration_ := q.now w + truncate t.interval_ * kMicroSecond2Second } ∧
        q' = { q.tick with
          heap := Function.update q.heap it.timer (some t')
          timers_ := emplace (toLex (t'.expiration_, it.timer)) q.timers_ }) ∨
      t.repeat_ = false ∧ q' = { q with
        heap := Function.update q.heap it.timer none, freed := q.freed ++ [t.serial] }) := by
  obtain ⟨t, ht, h⟩ := then_ok_iff.mp h
  refine ⟨t, deref_ok ht, ?_⟩
  split at h
  · rename_i hrep
    -- `Restart` gives the object its new expiration before `Insert` reads it
    obtain ⟨t', ht', h⟩ := then_ok_iff.mp h
    obtain ⟨expiration, hexp, ht'⟩ := then_ok_iff.mp ht'
    obtain rfl := Except.ok.inj ht'
    obtain rfl := AddTime_ok hexp
    obtain ⟨⟨b, q1⟩, hins, h⟩ := then_ok_iff.mp h
    obtain rfl := Except.ok.inj h
    obtain ⟨t'', ht'', hq1⟩ := Insert_ok hins
    simp only [Function.update_self] at ht''
    obtain rfl := Option.some.inj ht''
    exact Or.inl ⟨hrep, _, rfl, hq1⟩
  · rename_i hone
    obtain rfl := Except.ok.inj h
    rw [Bool.not_eq_true] at hone
    exact Or.inr ⟨hone, rfl⟩

theorem functor_ok (h : q.step w .functor = .ok q') :
    q' = q ∧ q.functors = [] ∨ ∃ a rest t, q.functors = a :: rest ∧ q.heap a = some t ∧
      Rearmed { q with
        functors := rest, timers_ := emplace (toLex (t.expiration_, a)) q.timers_ } q' := by
  simp only [step] at h
  split at h
  · rename_i hnil
    exact Or.inl ⟨(Except.ok.inj h).symm, hnil⟩
  · rename_i a rest hcons
    obtain ⟨t, ht, hr⟩ := AddTimerInloop_ok h
    exact Or.inr ⟨a, rest, t, hcons, ht, hr⟩

end Effects

/-! ## Ownership -/

/-- The addresses of the timers, while the entries of `active` are out of `timers_`. -/
def homes (q : TimerQueue) (active : List TimerEntry) : List Nat :=
  (q.timers_ ++ active).map TimerEntry.timer ++ q.functors

structure Kept (q : TimerQueue) (active : List TimerEntry) : Prop where
  increasing : Increasing q.timers_
  key : ∀ e ∈ q.timers_ ++ active, ∃ t, q.heap e.timer = some t ∧ t.expiration_ = e.expiration
  distinct : (q.homes active).Nodup
  live : ∀ a, (∃ t, q.heap a = some t) ↔ a ∈ q.homes active
  bounded : ∀ a ∈ q.homes active, a < UINTPTR_MAX

theorem new_kept : Kept new [] :=
  { increasing := List.Pairwise.nil
    key := fun e he => by cases he
    distinct := List.nodup_nil
    live := fun a => ⟨fun ⟨t, ht⟩ => (by cases ht), fun ha => (by cases ha)⟩
    bounded := fun a ha => by cases ha }

section Kept

variable {w : World} {q q' : TimerQueue} {active active' : List TimerEntry} {a : Nat}
  {it : TimerEntry} {t t' : Timer}

theorem mem_homes {e : TimerEntry} (he : e ∈ q.timers_ ++ active) : e.timer ∈ q.homes active :=
  List.mem_append_left _ (List.mem_map_of_mem he)

theorem mem_homes_timers {e : TimerEntry} (he : e ∈ q.timers_) : e.timer ∈ q.homes active :=
  mem_homes (List.mem_append_left _ he)

theorem Kept.rearmed (h : Kept q active) (hr : Rearmed q q') : Kept q' active := by
  have hhomes : q'.homes active = q.homes active := by
    rw [homes, hr.timers, hr.functors]
    rfl
  refine ⟨?_, ?_, ?_, ?_, ?_⟩
  · rw [hr.timers]
    exact h.increasing
  · rw [hr.timers, hr.heap]
    exact h.key
  · rw [hhomes]
    exact h.distinct
  · rw [hhomes, hr.heap]
    exact h.live
  · rw [hhomes]
    exact h.bounded

/-- The same timers, in other places. -/
theorem Kept.of_perm (h : Kept q active) (hperm : (q'.homes active').Perm (q.homes active))
    (hheap : ∀ a, (∃ t, q'.heap a = some t) ↔ ∃ t, q.heap a = some t)
    (hinc : Increasing q'.timers_)
    (hkey : ∀ e ∈ q'.timers_ ++ active', ∃ t, q'.heap e.timer = some t ∧
      t.expiration_ = e.expiration) : Kept q' active' :=
  { increasing := hinc
    key := hkey
    distinct := hperm.nodup_iff.mpr h.distinct
    live := fun a => (hheap a).trans ((h.live a).trans hperm.mem_iff.symm)
    bounded := fun a ha => h.bounded a (hperm.mem_iff.mp ha) }

/-- One timer more. -/
theorem Kept.of_cons (h : Kept q active) (hfresh : q.heap a = none) (hbound : a < UINTPTR_MAX)
    (hheap : q'.heap = Function.update q.heap a (some t))
    (hperm : (q'.homes active).Perm (a :: q.homes active)) (hinc : Increasing q'.timers_)
    (hkey : ∀ e ∈ q'.timers_, e ∈ q.timers_ ∨ e = toLex (t.expiration_, a)) :
    Kept q' active := by
  -- an address in use is that of an object
  have hnew : a ∉ q.homes active := by
    intro ha
    obtain ⟨u, hu⟩ := (h.live a).mpr ha
    rw [hfresh] at hu
    cases hu
  -- the other objects are untouched
  have hold : ∀ e ∈ q.timers_ ++ active, ∃ u, q'.heap e.timer = some u ∧
      u.expiration_ = e.expiration := by
    intro e he
    have hne : e.timer ≠ a := fun heq => hnew (heq ▸ mem_homes he)
    obtain ⟨u, hu, hexp⟩ := h.key e he
    exact ⟨u, by rw [hheap, Function.update_of_ne hne]; exact hu, hexp⟩
  refine ⟨hinc, ?_, hperm.nodup_iff.mpr (List.nodup_cons.mpr ⟨hnew, h.distinct⟩), ?_, ?_⟩
  · intro e he
    rcases List.mem_append.mp he with he | he
    · rcases hkey e he with he | rfl
      · exact hold e (List.mem_append_left _ he)
      · refine ⟨t, ?_, rfl⟩
        rw [hheap, TimerEntry.timer_toLex, Function.update_self]
    · exact hold e (List.mem_append_right _ he)
  · intro b
    rw [hperm.mem_iff, List.mem_cons, hheap]
    by_cases hb : b = a
    · subst hb
      rw [Function.update_self]
      exact ⟨fun _ => Or.inl rfl, fun _ => ⟨t, rfl⟩⟩
    · rw [Function.update_of_ne hb, h.live b]
      exact ⟨Or.inr, fun hb' => hb'.resolve_left hb⟩
  · intro b hb
    rcases List.mem_cons.mp (hperm.mem_iff.mp hb) with rfl | hb
    · exact hbound
    · exact h.bounded b hb

theorem homes_emplace {e : TimerEntry} (l : List TimerEntry) (fs : List Nat) (he : e ∉ l) :
    ((emplace e l ++ active).map TimerEntry.timer ++ fs).Perm
      (e.timer :: ((l ++ active).map TimerEntry.timer ++ fs)) := by
  have hl := ((emplace_perm he).append_right active).map TimerEntry.timer
  exact hl.append_right fs

theorem Kept.notMem (h : Kept q active) (hfresh : q.heap a = none) (expiration : TimeStamp) :
    (toLex (expiration, a) : TimerEntry) ∉ q.timers_ := by
  intro he
  obtain ⟨u, hu, -⟩ := h.key _ (List.mem_append_left _ he)
  rw [TimerEntry.timer_toLex, hfresh] at hu
  cases hu

theorem Kept.register {l : Bool} {call : AddCall} (h : Kept q active)
    (hs : q.register w l call = .ok q') : Kept q' active := by
  obtain ⟨a, expiration, t, hreg⟩ := register_ok hs
  refine Kept.rearmed ?_ hreg.effect
  cases l with
  | true =>
    refine h.of_cons hreg.fresh hreg.bounded rfl (homes_emplace q.timers_ q.functors
      (h.notMem hreg.fresh expiration)) (emplace_increasing h.increasing) ?_
    intro e he
    exact (mem_emplace.mp he).symm
  | false =>
    refine h.of_cons hreg.fresh hreg.bounded rfl ?_ h.increasing fun e he => Or.inl he
    show (_ ++ (q.functors ++ [a])).Perm _
    rw [← List.append_assoc]
    exact List.perm_append_singleton a _

/-- A registration does not touch the timers that are there. -/
theorem register_heap {l : Bool} {call : AddCall} (hs : q.register w l call = .ok q')
    (ht : q.heap a = some t) : q'.heap a = some t := by
  obtain ⟨b, expiration, time, hreg⟩ := register_ok hs
  have hne : a ≠ b := by
    rintro rfl
    rw [hreg.fresh] at ht
    cases ht
  rw [hreg.effect.heap]
  cases l <;> exact (Function.update_of_ne hne _ _).trans ht

theorem Kept.functor (h : Kept q []) (hs : q.step w .functor = .ok q') : Kept q' [] := by
  rcases functor_ok hs with ⟨rfl, -⟩ | ⟨a, rest, t, hcons, ht, hr⟩
  · exact h
  · refine Kept.rearmed ?_ hr
    have hnd := h.distinct
    rw [homes, hcons] at hnd
    -- an object whose functor is queued is not in `timers_`
    have hnew : (toLex (t.expiration_, a) : TimerEntry) ∉ q.timers_ := by
      intro he
      have hmem : a ∈ (q.timers_ ++ []).map TimerEntry.timer :=
        List.mem_map_of_mem (List.mem_append_left [] he)
      exact (List.disjoint_of_nodup_append hnd) hmem List.mem_cons_self
    refine h.of_perm ?_ (fun _ => Iff.rfl) (emplace_increasing h.increasing) ?_
    · refine (homes_emplace q.timers_ rest hnew).trans ?_
      rw [homes, hcons]
      exact List.perm_middle.symm
    · intro e he
      rw [List.append_nil] at he
      rcases mem_emplace.mp he with rfl | he
      · exact ⟨t, ht, rfl⟩
      · exact h.key e (List.mem_append_left _ he)

theorem Kept.ran (h : Kept q active) (it : TimerEntry) (serial : Nat) :
    Kept (q.ran w it serial) active :=
  ⟨h.increasing, h.key, h.distinct, h.live, h.bounded⟩

theorem homes_cons (q : TimerQueue) (it : TimerEntry) (active : List TimerEntry) :
    (q.homes (it :: active)).Perm (it.timer :: q.homes active) :=
  (List.perm_middle.map TimerEntry.timer).append_right q.functors

/-- The entry of the `HandleRead` that runs is not in `timers_`. -/
theorem Kept.other (h : Kept q (it :: active)) {e : TimerEntry} (he : e ∈ q.timers_ ++ active) :
    e.timer ≠ it.timer := by
  intro heq
  have hnd := (homes_cons q it active).nodup_iff.mp h.distinct
  exact (List.nodup_cons.mp hnd).1 (heq ▸ mem_homes he)

/-- The key of another entry, where one is dealt with. -/
theorem Kept.key_other (h : Kept q (it :: active)) {e : TimerEntry} {heap : Nat → Option Timer}
    (he : e ∈ q.timers_ ++ active) (hheap : ∀ a, a ≠ it.timer → heap a = q.heap a) :
    ∃ t, heap e.timer = some t ∧ t.expiration_ = e.expiration := by
  rw [hheap _ (h.other he)]
  refine h.key e ?_
  rcases List.mem_append.mp he with he | he
  · exact List.mem_append_left _ he
  · exact List.mem_append_right _ (List.mem_cons_of_mem it he)

theorem Kept.restart (h : Kept q (it :: active)) (hs : restart w q it = .ok q') :
    Kept q' active := by
  obtain ⟨t, ht, ⟨-, t', -, rfl⟩ | ⟨-, rfl⟩⟩ := restart_ok hs
  · have hnew : ∀ expiration, (toLex (expiration, it.timer) : TimerEntry) ∉ q.timers_ :=
      fun expiration he => h.other (List.mem_append_left _ he) rfl
    refine h.of_perm ?_ ?_ (emplace_increasing h.increasing) ?_
    · exact (homes_emplace q.timers_ q.functors (hnew _)).trans (homes_cons q it active).symm
    · intro a
      show (∃ t, Function.update q.heap it.timer _ a = some t) ↔ _
      by_cases ha : a = it.timer
      · subst ha
        rw [Function.update_self]
        exact ⟨fun _ => ⟨t, ht⟩, fun _ => ⟨_, rfl⟩⟩
      · rw [Function.update_of_ne ha]
    · intro e he
      show ∃ t, Function.update q.heap it.timer _ e.timer = some t ∧ _
      have hcases : e = toLex (t'.expiration_, it.timer) ∨ e ∈ q.timers_ ++ active := by
        rcases List.mem_append.mp he with he | he
        · exact (mem_emplace.mp he).imp_right (List.mem_append_left _)
        · exact Or.inr (List.mem_append_right _ he)
      rcases hcases with rfl | he
      · rw [TimerEntry.timer_toLex, Function.update_self]
        exact ⟨_, rfl, rfl⟩
      · exact h.key_other he fun a ha => Function.update_of_ne ha _ _
  · -- the object is gone with its entry
    have hperm := homes_cons q it active
    have hnd := List.nodup_cons.mp (hperm.nodup_iff.mp h.distinct)
    refine ⟨h.increasing, ?_, hnd.2, ?_, fun a ha => ?_⟩
    · intro e he
      exact h.key_other he fun a ha => Function.update_of_ne ha _ _
    · intro a
      show (∃ t, Function.update q.heap it.timer none a = some t) ↔ a ∈ q.homes active
      by_cases ha : a = it.timer
      · subst ha
        rw [Function.update_self]
        exact ⟨fun ⟨_, hno⟩ => (by cases hno), fun hmem => absurd hmem hnd.1⟩
      · rw [Function.update_of_ne ha, h.live a, hperm.mem_iff, List.mem_cons]
        exact ⟨fun hmem => hmem.resolve_left ha, Or.inr⟩
    · exact h.bounded a (hperm.mem_iff.mpr (List.mem_cons_of_mem _ ha))

/-- The sentinel parts the entries that have expired from the others. -/
theorem expire_eq (h : Kept q []) :
    (q.expire w).activeTimers_ = q.timers_.filter (fun e => e.expiration ≤ q.now w) ∧
      (q.expire w).timers_ = q.timers_.filter (fun e => ¬ e.expiration ≤ q.now w) := by
  have hlt : ∀ e ∈ q.timers_, (e < toLex (q.now w, UINTPTR_MAX) ↔ e.expiration ≤ q.now w) :=
    fun e he => TimerEntry.lt_sentinel (h.bounded _ (mem_homes_timers he))
  constructor
  · refine (takeWhile_lt h.increasing _).trans (List.filter_congr fun e he => ?_)
    exact decide_eq_decide.mpr (hlt e he)
  · refine (dropWhile_lt h.increasing _).trans (List.filter_congr fun e he => ?_)
    exact decide_eq_decide.mpr (not_congr (hlt e he))

theorem Kept.expire (h : Kept q []) : Kept (q.expire w) (q.expire w).activeTimers_ := by
  have hsplit : (q.expire w).activeTimers_ ++ (q.expire w).timers_ = q.timers_ :=
    List.takeWhile_append_dropWhile
  refine h.of_perm ?_ (fun _ => Iff.rfl) ?_ ?_
  · rw [homes, homes, List.append_nil, ← hsplit]
    exact (List.perm_append_comm.map TimerEntry.timer).append_right q.functors
  · exact h.increasing.sublist (List.dropWhile_sublist _)
  · intro e he
    refine h.key e (List.mem_append_left _ ?_)
    rw [← hsplit, List.mem_append]
    exact (List.mem_append.mp he).symm

theorem Kept.ReadFromFd (h : Kept q active) : Kept (q.ReadFromFd w) active :=
  ⟨h.increasing, h.key, h.distinct, h.live, h.bounded⟩

end Kept

end TimerQueue

end LearnMuduo
