/-
  LearnMuduo.Timer.TimerLife

  Which timers a `HandleRead` runs, and what becomes of them.

  A timer is known by its serial, the number of the registration that made it; the
  address of its object may be used again.  `Serials` says that an object and a freed
  serial never coincide, `Once` how often the one-shot timers have run, where `past` are
  the entries the current `HandleRead` has run and not yet dealt with.
-/
import LearnMuduo.Timer.TimerSpec

namespace LearnMuduo

open Lib

namespace TimerQueue

/-- How often the timer has run. -/
def ranCount (q : TimerQueue) (serial : Nat) : Nat := q.runs.countP (·.serial = serial)

/-- The timer does not repeat. -/
def OneShot (q : TimerQueue) (serial : Nat) : Prop :=
  ∃ c, q.calls[serial]? = some c ∧ ¬ 0 < c.1.interval

/-- The interval of an object is that of its registration. -/
def Made (q : TimerQueue) : Prop :=
  ∀ a t, q.heap a = some t → ∃ c, q.calls[t.serial]? = some c ∧ t.interval_ = c.1.interval ∧
    t.repeat_ = decide (0 < c.1.interval)

/-- The serial of the object at an address. -/
def serialAt (q : TimerQueue) (a : Nat) : Option Nat := (q.heap a).map Timer.serial

structure Serials (q : TimerQueue) : Prop where
  below : ∀ a n, q.serialAt a = some n → n < q.calls.length
  inj : ∀ a b n, q.serialAt a = some n → q.serialAt b = some n → a = b
  dead : ∀ n ∈ q.freed, n < q.calls.length ∧ ∀ a, q.serialAt a ≠ some n
  nodup : q.freed.Nodup
  all : ∀ n < q.calls.length, n ∈ q.freed ∨ ∃ a, q.serialAt a = some n

structure Once (q : TimerQueue) (past : List TimerEntry) : Prop where
  waiting : ∀ a n, q.serialAt a = some n → q.OneShot n → a ∉ past.map TimerEntry.timer →
    q.ranCount n = 0
  done : ∀ a n, q.serialAt a = some n → q.OneShot n → a ∈ past.map TimerEntry.timer →
    q.ranCount n = 1
  freed : ∀ n ∈ q.freed, q.ranCount n = 1
  unborn : ∀ n, q.calls.length ≤ n → q.ranCount n = 0

/-- `active` are the entries out of `timers_`, and `past` those of them that have run. -/
structure Good (q : TimerQueue) (active past : List TimerEntry) : Prop where
  kept : Kept q active
  made : Made q
  serials : Serials q
  once : Once q past

/-- The timers that were there still are, under the same entries. -/
structure Grown (q q' : TimerQueue) : Prop where
  active : q'.activeTimers_ = q.activeTimers_
  heap : ∀ a t, q.heap a = some t → q'.heap a = some t
  timers : ∀ e ∈ q.timers_, e ∈ q'.timers_
  freed : q'.freed = q.freed

theorem Grown.refl (q : TimerQueue) : Grown q q := ⟨rfl, fun _ _ h => h, fun _ h => h, rfl⟩

theorem Grown.trans {p q r : TimerQueue} (h : Grown p q) (h' : Grown q r) : Grown p r :=
  ⟨h'.active.trans h.active, fun a t ht => h'.heap a t (h.heap a t ht),
    fun e he => h'.timers e (h.timers e he), h'.freed.trans h.freed⟩

theorem new_good : Good new [] [] :=
  { kept := new_kept
    made := fun a t h => by cases h
    serials :=
      { below := fun a n h => by cases h
        inj := fun a b n h => by cases h
        dead := fun n h => by cases h
        nodup := List.nodup_nil
        all := fun n h => by cases h }
    once :=
      { waiting := fun a n h => by cases h
        done := fun a n h => by cases h
        freed := fun n h => by cases h
        unborn := fun n h => rfl } }

section Steps

variable {w : World} {q q' : TimerQueue} {active active' past past' : List TimerEntry} {a : Nat}
  {it : TimerEntry} {t t' : Timer}

theorem serialAt_some (h : q.heap a = some t) : q.serialAt a = some t.serial := by
  rw [serialAt, h]
  rfl

theorem serialAt_eq {n : Nat} (h : q.serialAt a = some n) :
    ∃ t, q.heap a = some t ∧ t.serial = n := Option.map_eq_some_iff.mp h

/-- What the invariant looks at besides the places of the timers. -/
structure SameSerials (q q' : TimerQueue) : Prop where
  serials : q'.serialAt = q.serialAt
  calls : q'.calls = q.calls
  freed : q'.freed = q.freed

theorem Serials.of_same (h : Serials q) (hsame : SameSerials q q') : Serials q' := by
  refine ⟨?_, ?_, ?_, ?_, ?_⟩
  · rw [hsame.serials, hsame.calls]
    exact h.below
  · rw [hsame.serials]
    exact h.inj
  · rw [hsame.serials, hsame.calls, hsame.freed]
    exact h.dead
  · rw [hsame.freed]
    exact h.nodup
  · rw [hsame.serials, hsame.calls, hsame.freed]
    exact h.all

theorem Once.of_same (h : Once q past) (hsame : SameSerials q q') (hruns : q'.runs = q.runs) :
    Once q' past := by
  have hcount : q'.ranCount = q.ranCount := by
    funext n
    rw [ranCount, ranCount, hruns]
  have hshot : q'.OneShot = q.OneShot := by
    funext n
    rw [OneShot, OneShot, hsame.calls]
  refine ⟨?_, ?_, ?_, ?_⟩
  · rw [hsame.serials, hcount, hshot]
    exact h.waiting
  · rw [hsame.serials, hcount, hshot]
    exact h.done
  · rw [hsame.freed, hcount]
    exact h.freed
  · rw [hsame.calls, hcount]
    exact h.unborn

theorem Good.rearmed (h : Good q active past) (hr : Rearmed q q') : Good q' active past := by
  have hsame : SameSerials q q' :=
    ⟨by funext a; rw [serialAt, serialAt, hr.heap], hr.calls, hr.freed⟩
  refine ⟨h.kept.rearmed hr, ?_, h.serials.of_same hsame, h.once.of_same hsame hr.runs⟩
  intro a t ht
  rw [hr.heap] at ht
  rw [hr.calls]
  exact h.made a t ht

/-! ## A timer more, and a timer less -/

/-- One registration more, with its object at `a`. -/
structure Extended (q q' : TimerQueue) (a : Nat) : Prop where
  fresh : q.serialAt a = none
  self : q'.serialAt a = some q.calls.length
  other : ∀ b, b ≠ a → q'.serialAt b = q.serialAt b
  length : q'.calls.length = q.calls.length + 1
  old : ∀ n < q.calls.length, q'.calls[n]? = q.calls[n]?
  freed : q'.freed = q.freed
  runs : q'.runs = q.runs

theorem Extended.serial (he : Extended q q' a) {b n : Nat} (h : q'.serialAt b = some n) :
    b = a ∧ n = q.calls.length ∨ b ≠ a ∧ q.serialAt b = some n := by
  by_cases hb : b = a
  · subst hb
    exact Or.inl ⟨rfl, Option.some.inj (h.symm.trans he.self)⟩
  · exact Or.inr ⟨hb, (he.other b hb).symm.trans h⟩

theorem Extended.oneShot (he : Extended q q' a) {n : Nat} (hn : n < q.calls.length)
    (h : q'.OneShot n) : q.OneShot n := by
  obtain ⟨c, hc, hint⟩ := h
  exact ⟨c, (he.old n hn).symm.trans hc, hint⟩

theorem Extended.ranCount (he : Extended q q' a) (n : Nat) : q'.ranCount n = q.ranCount n := by
  rw [TimerQueue.ranCount, TimerQueue.ranCount, he.runs]

theorem Serials.extended (h : Serials q) (he : Extended q q' a) : Serials q' := by
  refine ⟨fun b n hb => ?_, fun b c n hb hc => ?_, fun n hn => ?_, he.freed ▸ h.nodup,
    fun n hn => ?_⟩
  · rw [he.length]
    rcases he.serial hb with ⟨-, rfl⟩ | ⟨-, hb⟩
    · exact Nat.lt_succ_self _
    · exact Nat.lt_succ_of_lt (h.below b n hb)
  · -- the serial of the new object is that of no other
    rcases he.serial hb with ⟨rfl, rfl⟩ | ⟨-, hb⟩
    · rcases he.serial hc with ⟨rfl, -⟩ | ⟨-, hc⟩
      · rfl
      · exact absurd (h.below c _ hc) (Nat.lt_irrefl _)
    · rcases he.serial hc with ⟨-, rfl⟩ | ⟨-, hc⟩
      · exact absurd (h.below b _ hb) (Nat.lt_irrefl _)
      · exact h.inj b c n hb hc
  · rw [he.freed] at hn
    obtain ⟨hlt, hdead⟩ := h.dead n hn
    refine ⟨by rw [he.length]; omega, fun b hb => ?_⟩
    rcases he.serial hb with ⟨-, rfl⟩ | ⟨-, hb⟩
    · exact Nat.lt_irrefl _ hlt
    · exact hdead b hb
  · rw [he.freed]
    rcases Nat.lt_succ_iff_lt_or_eq.mp (he.length ▸ hn) with hlt | rfl
    · rcases h.all n hlt with hf | ⟨b, hb⟩
      · exact Or.inl hf
      · refine Or.inr ⟨b, ?_⟩
        rw [he.other b (fun hba => by rw [hba, he.fresh] at hb; cases hb)]
        exact hb
    · exact Or.inr ⟨a, he.self⟩

/-- The new timer has not run, and none of the entries that have is its own. -/
theorem Once.extended (h : Once q past) (hserials : Serials q) (he : Extended q q' a)
    (hpast : a ∉ past.map TimerEntry.timer) : Once q' past := by
  refine ⟨fun b n hb hone hmem => ?_, fun b n hb hone hmem => ?_, fun n hn => ?_, fun n hn => ?_⟩
  · rw [he.ranCount]
    rcases he.serial hb with ⟨-, rfl⟩ | ⟨-, hb⟩
    · exact h.unborn _ (Nat.le_refl _)
    · exact h.waiting b n hb (he.oneShot (hserials.below b n hb) hone) hmem
  · rw [he.ranCount]
    rcases he.serial hb with ⟨rfl, -⟩ | ⟨-, hb⟩
    · exact absurd hmem hpast
    · exact h.done b n hb (he.oneShot (hserials.below b n hb) hone) hmem
  · rw [he.ranCount]
    exact h.freed n (he.freed ▸ hn)
  · rw [he.ranCount]
    have := he.length
    exact h.unborn n (by omega)

/-- A new object, in whatever place. -/
theorem Good.withTimer {expiration time : TimeStamp} {call : AddCall} (h : Good q active past)
    (hran : ∀ e ∈ past, e ∈ active) (hfresh : q.heap a = none)
    (hbase : q'.heap = (q.withTimer a expiration call time).heap)
    (hcalls : q'.calls = (q.withTimer a expiration call time).calls) (hruns : q'.runs = q.runs)
    (hfreed : q'.freed = q.freed) (hkept : Kept q' active) : Good q' active past := by
  have hself : q'.heap a = some (Timer.new q.calls.length expiration call.interval) := by
    rw [hbase]
    exact Function.update_self a _ q.heap
  have hother : ∀ b, b ≠ a → q'.heap b = q.heap b := fun b hb => by
    rw [hbase]
    exact Function.update_of_ne hb _ q.heap
  -- whatever the place of the object, its serial is the next one
  have he : Extended q q' a :=
    { fresh := by rw [serialAt, hfresh]; rfl
      self := serialAt_some hself
      other := fun b hb => by rw [serialAt, hother b hb]; rfl
      length := by rw [hcalls]; exact List.length_append
      old := fun n hn => by rw [hcalls]; exact List.getElem?_append_left hn
      freed := hfreed
      runs := hruns }
  -- the entries that have run are those of live objects
  have hpast : a ∉ past.map TimerEntry.timer := by
    intro hmem
    obtain ⟨e, hep, rfl⟩ := List.mem_map.mp hmem
    obtain ⟨u, hu, -⟩ := h.kept.key e (List.mem_append_right _ (hran e hep))
    rw [hfresh] at hu
    cases hu
  refine ⟨hkept, fun b t ht => ?_, h.serials.extended he, h.once.extended h.serials he hpast⟩
  by_cases hb : b = a
  · subst hb
    obtain rfl := Option.some.inj (hself.symm.trans ht)
    refine ⟨(call, time), ?_, rfl, rfl⟩
    rw [hcalls]
    exact List.getElem?_concat_length
  · rw [hother b hb] at ht
    obtain ⟨c, hc, hint⟩ := h.made b t ht
    exact ⟨c, (he.old _ (h.serials.below b _ (serialAt_some ht))).trans hc, hint⟩

/-- The object at `a`, of the timer `n`, is freed. -/
structure Retired (q q' : TimerQueue) (a n : Nat) : Prop where
  self : q.serialAt a = some n
  gone : q'.serialAt a = none
  other : ∀ b, b ≠ a → q'.serialAt b = q.serialAt b
  calls : q'.calls = q.calls
  freed : q'.freed = q.freed ++ [n]
  runs : q'.runs = q.runs

section Retired

variable {n : Nat}

theorem Retired.serial (hr : Retired q q' a n) {b m : Nat} (h : q'.serialAt b = some m) :
    b ≠ a ∧ q.serialAt b = some m := by
  have hne : b ≠ a := by
    rintro rfl
    rw [hr.gone] at h
    cases h
  exact ⟨hne, (hr.other b hne).symm.trans h⟩

theorem Retired.mem_freed (hr : Retired q q' a n) {m : Nat} :
    m ∈ q'.freed ↔ m ∈ q.freed ∨ m = n := by
  rw [hr.freed, List.mem_append, List.mem_singleton]

theorem Retired.oneShot (hr : Retired q q' a n) {m : Nat} (h : q'.OneShot m) : q.OneShot m := by
  rw [OneShot, hr.calls] at h
  exact h

theorem Retired.ranCount (hr : Retired q q' a n) (m : Nat) : q'.ranCount m = q.ranCount m := by
  rw [TimerQueue.ranCount, TimerQueue.ranCount, hr.runs]

theorem Serials.retired (h : Serials q) (hr : Retired q q' a n) : Serials q' := by
  refine ⟨fun b m hb => ?_, fun b c m hb hc => ?_, fun m hm => ?_, ?_, fun m hm => ?_⟩
  · rw [hr.calls]
    exact h.below b m (hr.serial hb).2
  · exact h.inj b c m (hr.serial hb).2 (hr.serial hc).2
  · rw [hr.calls]
    rcases hr.mem_freed.mp hm with hm | rfl
    · obtain ⟨hlt, hdead⟩ := h.dead m hm
      exact ⟨hlt, fun b hb => hdead b (hr.serial hb).2⟩
    · refine ⟨h.below _ _ hr.self, fun b hb => ?_⟩
      obtain ⟨hne, hb⟩ := hr.serial hb
      exact hne (h.inj b a _ hb hr.self)
  · rw [hr.freed]
    refine List.nodup_append.mpr ⟨h.nodup, List.nodup_singleton _, ?_⟩
    rintro k hk m hm rfl
    obtain rfl := List.mem_singleton.mp hm
    exact (h.dead _ hk).2 a hr.self
  · -- the serial that no object has any more is among the freed ones
    rw [hr.calls] at hm
    rw [hr.mem_freed]
    rcases h.all m hm with hf | ⟨b, hb⟩
    · exact Or.inl (Or.inl hf)
    · by_cases hba : b = a
      · subst hba
        exact Or.inl (Or.inr (Option.some.inj (hb.symm.trans hr.self)))
      · exact Or.inr ⟨b, (hr.other b hba).trans hb⟩

/-- A one-shot timer is freed once it has run. -/
theorem Once.retired (h : Once q (it :: past)) (hr : Retired q q' it.timer n)
    (hone : q.OneShot n) : Once q' past := by
  refine ⟨fun b m hb hone' hmem => ?_, fun b m hb hone' hmem => ?_, fun m hm => ?_, fun m hm => ?_⟩
  · obtain ⟨hne, hb⟩ := hr.serial hb
    rw [hr.ranCount]
    refine h.waiting b m hb (hr.oneShot hone') fun hmem' => ?_
    rcases List.mem_cons.mp hmem' with heq | hmem'
    · exact hne heq
    · exact hmem hmem'
  · rw [hr.ranCount]
    exact h.done b m (hr.serial hb).2 (hr.oneShot hone') (List.mem_cons_of_mem _ hmem)
  · rw [hr.ranCount]
    rcases hr.mem_freed.mp hm with hm | rfl
    · exact h.freed m hm
    · exact h.done _ _ hr.self hone List.mem_cons_self
  · rw [hr.ranCount]
    exact h.unborn m (hr.calls ▸ hm)

end Retired

/-! ## Registrations and functors -/

theorem Good.register {l : Bool} {call : AddCall} (h : Good q active past)
    (hran : ∀ e ∈ past, e ∈ active) (hs : q.register w l call = .ok q') :
    Good q' active past ∧ Grown q q' ∧ q'.runs = q.runs := by
  have hkept := h.kept.register hs
  have hheap : ∀ a t, q.heap a = some t → q'.heap a = some t := fun a t => register_heap hs
  obtain ⟨a, expiration, time, hreg⟩ := register_ok hs
  have hr := hreg.effect
  cases l with
  -- the object is in `timers_`, or its functor is queued
  | true =>
    refine ⟨h.withTimer hran hreg.fresh hr.heap hr.calls hr.runs hr.freed hkept,
      ⟨hr.active, hheap, fun e he => ?_, hr.freed⟩, hr.runs⟩
    rw [hr.timers]
    exact mem_emplace.mpr (Or.inr he)
  | false =>
    refine ⟨h.withTimer hran hreg.fresh hr.heap hr.calls hr.runs hr.freed hkept,
      ⟨hr.active, hheap, fun e he => ?_, hr.freed⟩, hr.runs⟩
    rw [hr.timers]
    exact he

theorem Good.functor (h : Good q [] []) (hs : q.step w .functor = .ok q') : Good q' [] [] := by
  have hkept := h.kept.functor hs
  rcases functor_ok hs with ⟨rfl, -⟩ | ⟨a, rest, t, -, -, hr⟩
  · exact h
  · have hsame : SameSerials q q' :=
      ⟨by funext a; rw [serialAt, serialAt, hr.heap], hr.calls, hr.freed⟩
    refine ⟨hkept, ?_, h.serials.of_same hsame, h.once.of_same hsame hr.runs⟩
    intro b u hu
    rw [hr.heap] at hu
    rw [hr.calls]
    exact h.made b u hu

/-! ## The callbacks -/

theorem ranCount_ran (q : TimerQueue) (w : World) (it : TimerEntry) (serial n : Nat) :
    (q.ran w it serial).ranCount n = q.ranCount n + if serial = n then 1 else 0 := by
  show (q.runs ++ [_]).countP _ = _
  rw [List.countP_append, List.countP_singleton]
  simp only [decide_eq_true_eq]
  rfl

/-- Of the entries taken out, one more has run. -/
theorem Good.ran (h : Good q active past)
    (hnot : it.timer ∉ past.map TimerEntry.timer) (ht : q.heap it.timer = some t) :
    Good (q.ran w it t.serial) active (past ++ [it]) := by
  have hself := serialAt_some ht
  -- the run counts for this timer and for no other
  have hne : ∀ b n, b ≠ it.timer → q.serialAt b = some n → t.serial ≠ n := by
    rintro b n hb hn rfl
    exact hb (h.serials.inj b it.timer _ hn hself)
  refine ⟨h.kept.ran it t.serial, h.made, ⟨h.serials.below, h.serials.inj, h.serials.dead,
    h.serials.nodup, h.serials.all⟩, ⟨?_, ?_, ?_, ?_⟩⟩
  · intro b n hb hone hmem
    rw [List.map_append, List.mem_append, not_or] at hmem
    have hbit : b ≠ it.timer := fun heq => hmem.2 (by simp [heq])
    rw [ranCount_ran, if_neg (hne b n hbit hb)]
    exact h.once.waiting b n hb hone hmem.1
  · intro b n hb hone hmem
    rw [ranCount_ran]
    by_cases hbit : b = it.timer
    · subst hbit
      obtain rfl := Option.some.inj (hself.symm.trans hb)
      rw [if_pos rfl, h.once.waiting _ _ hself hone hnot]
    · rw [if_neg (hne b n hbit hb)]
      refine h.once.done b n hb hone ?_
      rw [List.map_append, List.mem_append] at hmem
      exact hmem.resolve_right (by simpa using hbit)
  · intro n hn
    have hdead : t.serial ≠ n := by
      rintro rfl
      exact (h.serials.dead t.serial hn).2 it.timer hself
    rw [ranCount_ran, if_neg hdead]
    exact h.once.freed n hn
  · intro n hn
    have hn' : q.calls.length ≤ n := hn
    have hlt := h.serials.below _ _ hself
    rw [ranCount_ran, if_neg (by omega)]
    exact h.once.unborn n hn

theorem run_register {cs : List (AddCall × Bool)} (h : Good q active past)
    (hran : ∀ e ∈ past, e ∈ active)
    (hs : run (fun q (c : AddCall × Bool) => q.register w c.2 c.1) q cs = .ok q') :
    Good q' active past ∧ Grown q q' ∧ q'.runs = q.runs := by
  induction cs generalizing q with
  | nil =>
    obtain rfl := Except.ok.inj hs
    exact ⟨h, Grown.refl q, rfl⟩
  | cons c cs ih =>
    obtain ⟨m, hm, hs⟩ := then_ok_iff.mp hs
    obtain ⟨hgood, hgrown, hruns⟩ := h.register hran hm
    obtain ⟨hgood', hgrown', hruns'⟩ := ih hgood hs
    exact ⟨hgood', hgrown.trans hgrown', hruns'.trans hruns⟩

/-- What a record of a run says about the timer. -/
def TimerRun.key (r : TimerRun) : Option Nat × TimeStamp := (some r.serial, r.due)

/-- The entry that runs next has not run yet: no address is in two places. -/
theorem Good.notPast {rest : List TimerEntry} (h : Good q (past ++ it :: rest) past) :
    it.timer ∉ past.map TimerEntry.timer := by
  have hnd := h.kept.distinct
  rw [homes, List.map_append, List.map_append, List.map_cons] at hnd
  have hactive := (List.nodup_append.mp (List.nodup_append.mp hnd).1).2.1
  intro hmem
  exact List.disjoint_of_nodup_append hactive hmem List.mem_cons_self

/-- One turn of the loop in `HandleRead`. -/
theorem Good.Run {rest : List TimerEntry} (h : Good q (past ++ it :: rest) past)
    (hs : Run w q it = .ok q') :
    Good q' (past ++ it :: rest) (past ++ [it]) ∧ Grown q q' ∧
      q'.runs.map TimerRun.key
        = q.runs.map TimerRun.key ++ [(q.serialAt it.timer, it.expiration)] := by
  obtain ⟨t, ht, hs⟩ := Run_ok hs
  have hgood := Good.ran (w := w) h h.notPast ht
  have hsub : ∀ e ∈ past ++ [it], e ∈ past ++ it :: rest := by
    intro e he
    rw [List.append_cons]
    exact List.mem_append_left rest he
  obtain ⟨hgood', hgrown, hruns⟩ := run_register hgood hsub hs
  refine ⟨hgood', ⟨hgrown.active, hgrown.heap, hgrown.timers, hgrown.freed⟩, ?_⟩
  rw [hruns, serialAt_some ht]
  exact List.map_append

/-- The loop of `HandleRead`: the timers of the entries run one after the other. -/
theorem run_Run {rest : List TimerEntry} (h : Good q (past ++ rest) past)
    (hs : run (TimerQueue.Run w) q rest = .ok q') :
    Good q' (past ++ rest) (past ++ rest) ∧ Grown q q' ∧
      q'.runs.map TimerRun.key = q.runs.map TimerRun.key ++
        rest.map fun e => (q.serialAt e.timer, e.expiration) := by
  induction rest generalizing q past with
  | nil =>
    obtain rfl := Except.ok.inj hs
    rw [List.append_nil] at h ⊢
    exact ⟨h, Grown.refl q, (List.append_nil _).symm⟩
  | cons it rest ih =>
    obtain ⟨m, hm, hs⟩ := then_ok_iff.mp hs
    obtain ⟨hgood, hgrown, hruns⟩ := h.Run hm
    rw [List.append_cons] at hgood ⊢
    obtain ⟨hlast, hgrown', hruns'⟩ := ih hgood hs
    refine ⟨hlast, hgrown.trans hgrown', ?_⟩
    -- a callback leaves the timers alone that are still to run
    have hrest : ∀ e ∈ rest, m.serialAt e.timer = q.serialAt e.timer := by
      intro e he
      obtain ⟨u, hu, -⟩ := h.kept.key e (by simp [he])
      rw [serialAt_some hu, serialAt_some (hgrown.heap _ _ hu)]
    rw [hruns', hruns, List.append_assoc, List.map_cons, List.singleton_append]
    congr 2
    exact List.map_congr_left fun e he => by rw [hrest e he]

/-! ## After the callbacks -/

theorem Good.repeats (h : Good q active past) (ht : q.heap a = some t) (hrep : t.repeat_ = true) :
    ¬ q.OneShot t.serial := by
  rintro ⟨c, hc, hint⟩
  obtain ⟨c', hc', -, hr⟩ := h.made a t ht
  obtain rfl := Option.some.inj (hc.symm.trans hc')
  rw [hrep] at hr
  exact hint (of_decide_eq_true hr.symm)

theorem Good.oneShot (h : Good q active past) (ht : q.heap a = some t)
    (hone : t.repeat_ = false) : q.OneShot t.serial := by
  obtain ⟨c, hc, -, hr⟩ := h.made a t ht
  rw [hone] at hr
  exact ⟨c, hc, of_decide_eq_false hr.symm⟩

/-- A repeating timer leaves the entries taken out for `timers_`. -/
theorem Good.restarted (h : Good q (it :: active) (it :: active)) (ht : q.heap it.timer = some t)
    (hrep : t.repeat_ = true) (hs : restart w q it = .ok q')
    (hheap : q'.heap = Function.update q.heap it.timer (some t')) (hserial : t'.serial = t.serial)
    (hint : t'.interval_ = t.interval_ ∧ t'.repeat_ = t.repeat_) (hcalls : q'.calls = q.calls)
    (hfreed : q'.freed = q.freed) (hruns : q'.runs = q.runs) : Good q' active active := by
  have hself := serialAt_some ht
  have hsame : SameSerials q q' := by
    refine ⟨?_, hcalls, hfreed⟩
    funext b
    rw [serialAt, hheap]
    by_cases hb : b = it.timer
    · subst hb
      rw [Function.update_self, hself, Option.map_some, hserial]
    · rw [Function.update_of_ne hb]
      rfl
  have honce := h.once.of_same hsame hruns
  have hshot : ¬ q'.OneShot t.serial := by
    rintro ⟨c, hc, hno⟩
    exact h.repeats ht hrep ⟨c, by rw [← hcalls]; exact hc, hno⟩
  refine ⟨h.kept.restart hs, ?_, h.serials.of_same hsame, ⟨?_, ?_, honce.freed, honce.unborn⟩⟩
  · intro b u hu
    rw [hcalls]
    rw [hheap] at hu
    by_cases hb : b = it.timer
    · subst hb
      rw [Function.update_self] at hu
      obtain rfl := Option.some.inj hu
      rw [hserial, hint.1, hint.2]
      exact h.made _ t ht
    · rw [Function.update_of_ne hb] at hu
      exact h.made b u hu
  · intro b n hb hone hmem
    refine honce.waiting b n hb hone fun hmem' => ?_
    rcases List.mem_cons.mp hmem' with rfl | hmem'
    · -- the timer that went back is none of the one-shot timers
      rw [hsame.serials, hself] at hb
      obtain rfl := Option.some.inj hb
      exact hshot hone
    · exact hmem hmem'
  · intro b n hb hone hmem
    exact honce.done b n hb hone (List.mem_cons_of_mem _ hmem)

/-- A one-shot timer that has run is freed. -/
theorem Good.freed (h : Good q (it :: active) (it :: active)) (ht : q.heap it.timer = some t)
    (hone : t.repeat_ = false) (hs : restart w q it = .ok q')
    (hheap : q'.heap = Function.update q.heap it.timer none) (hcalls : q'.calls = q.calls)
    (hfreed : q'.freed = q.freed ++ [t.serial]) (hruns : q'.runs = q.runs) :
    Good q' active active := by
  have hgone : q'.heap it.timer = none := by rw [hheap, Function.update_self]
  have hother : ∀ b, b ≠ it.timer → q'.heap b = q.heap b := fun b hb => by
    rw [hheap, Function.update_of_ne hb]
  -- the serial of the object joins the freed ones
  have hr : Retired q q' it.timer t.serial :=
    { self := serialAt_some ht
      gone := by rw [serialAt, hgone]; rfl
      other := fun b hb => by rw [serialAt, hother b hb]; rfl
      calls := hcalls
      freed := hfreed
      runs := hruns }
  refine ⟨h.kept.restart hs, fun b u hu => ?_, h.serials.retired hr,
    h.once.retired hr (h.oneShot ht hone)⟩
  rw [hcalls]
  refine h.made b u ?_
  rw [← hother b (hr.serial (serialAt_some hu)).1]
  exact hu

/-- What `ResetTimers` makes of an entry: back in `timers_`, or freed. -/
def Settled (q q' : TimerQueue) (it : TimerEntry) : Prop :=
  ∀ t, q.heap it.timer = some t →
    if t.repeat_ then it.timer ∈ q'.timers_.map TimerEntry.timer else t.serial ∈ q'.freed

theorem Good.restart (h : Good q (it :: active) (it :: active)) (hs : restart w q it = .ok q') :
    Good q' active active ∧ Settled q q' it ∧ (∀ e ∈ q.timers_, e ∈ q'.timers_) ∧
      (∀ n ∈ q.freed, n ∈ q'.freed) ∧ q'.runs = q.runs ∧
      ∀ a, a ≠ it.timer → q'.heap a = q.heap a := by
  obtain ⟨t, ht, ⟨hrep, t', htt, hq'⟩ | ⟨hone, hq'⟩⟩ := restart_ok hs
  · -- a repeating timer goes back, a one-shot timer is freed
    subst hq'
    refine ⟨h.restarted ht hrep hs rfl (by rw [htt]) (by rw [htt]; exact ⟨rfl, rfl⟩)
      rfl rfl rfl, ?_, fun e he => mem_emplace.mpr (Or.inr he), fun n hn => hn, rfl,
      fun a ha => Function.update_of_ne ha _ _⟩
    intro u hu
    obtain rfl := Option.some.inj (ht.symm.trans hu)
    rw [if_pos hrep]
    exact List.mem_map.mpr ⟨_, mem_emplace.mpr (Or.inl rfl), rfl⟩
  · subst hq'
    refine ⟨h.freed ht hone hs rfl rfl rfl rfl, ?_, fun e he => he,
      fun n hn => List.mem_append_left _ hn, rfl, fun a ha => Function.update_of_ne ha _ _⟩
    intro u hu
    obtain rfl := Option.some.inj (ht.symm.trans hu)
    rw [hone, if_neg Bool.false_ne_true]
    exact List.mem_append_right _ List.mem_cons_self

/-- The loop of `ResetTimers`. -/
theorem run_restart (h : Good q active active) (hs : run (TimerQueue.restart w) q active = .ok q') :
    Good q' [] [] ∧ (∀ it ∈ active, Settled q q' it) ∧ (∀ e ∈ q.timers_, e ∈ q'.timers_) ∧
      (∀ n ∈ q.freed, n ∈ q'.freed) ∧ q'.runs = q.runs := by
  induction active generalizing q with
  | nil =>
    obtain rfl := Except.ok.inj hs
    exact ⟨h, fun it hit => (by cases hit), fun e he => he, fun n hn => hn, rfl⟩
  | cons it active ih =>
    obtain ⟨m, hm, hs⟩ := then_ok_iff.mp hs
    obtain ⟨hgood, hset, htimers, hfreed, hruns, hheap⟩ := h.restart hm
    obtain ⟨hgood', hset', htimers', hfreed', hruns'⟩ := ih hgood hs
    refine ⟨hgood', fun e he => ?_, fun e he => htimers' e (htimers e he),
      fun n hn => hfreed' n (hfreed n hn), hruns'.trans hruns⟩
    intro t ht
    rcases List.mem_cons.mp he with rfl | he
    · -- this entry is settled, and stays so through the rest of the loop
      have hone := hset t ht
      split
      · rename_i hrep
        rw [if_pos hrep] at hone
        obtain ⟨e', he', heq⟩ := List.mem_map.mp hone
        exact List.mem_map.mpr ⟨e', htimers' e' he', heq⟩
      · rename_i hrep
        rw [if_neg hrep] at hone
        exact hfreed' _ hone
    · -- a later one still has its object
      have hne := h.kept.other (List.mem_append_right _ he)
      exact hset' e he t ((hheap _ hne).trans ht)

theorem ResetTimers_ok (h : q.ResetTimers w = .ok q') :
    ∃ m, run (TimerQueue.restart w) q q.activeTimers_ = .ok m ∧ Rearmed m q' := by
  obtain ⟨m, hm, h⟩ := then_ok_iff.mp h
  refine ⟨m, hm, ?_⟩
  split at h
  · obtain rfl := Except.ok.inj h
    exact Rearmed.refl _
  · exact ResetTimer_ok h

theorem Good.expire (h : Good q [] []) : Good (q.expire w) (q.expire w).activeTimers_ [] :=
  { kept := h.kept.expire
    made := h.made
    serials := ⟨h.serials.below, h.serials.inj, h.serials.dead, h.serials.nodup, h.serials.all⟩
    once := ⟨h.once.waiting, h.once.done, h.once.freed, h.once.unborn⟩ }

theorem Good.ReadFromFd (h : Good q active past) : Good (q.ReadFromFd w) active past :=
  { kept := h.kept.ReadFromFd
    made := h.made
    serials := ⟨h.serials.below, h.serials.inj, h.serials.dead, h.serials.nodup, h.serials.all⟩
    once := ⟨h.once.waiting, h.once.done, h.once.freed, h.once.unborn⟩ }

/-- The entries of `timers_` that have expired at `now`, in their order. -/
def dueAt (q : TimerQueue) (now : TimeStamp) : List TimerEntry :=
  q.timers_.filter fun e => e.expiration ≤ now

theorem HandleRead_good (h : Good q [] []) (hs : q.HandleRead w = .ok q') :
    Good q' [] [] ∧
      q'.runs.map TimerRun.key = q.runs.map TimerRun.key ++
        (q.dueAt (w.clock (q.readings + 1))).map (fun e => (q.serialAt e.timer, e.expiration)) ∧
      (∀ e ∈ q.timers_, w.clock (q.readings + 1) < e.expiration → e ∈ q'.timers_) ∧
      ∀ e ∈ q.dueAt (w.clock (q.readings + 1)), Settled q q' e := by
  obtain ⟨m, hm, hs⟩ := then_ok_iff.mp hs
  have hread : Good (q.ReadFromFd w) [] [] := h.ReadFromFd
  obtain ⟨hactive, htimers⟩ := expire_eq (w := w) hread.kept
  have hexp : Good _ ([] ++ ((q.ReadFromFd w).expire w).activeTimers_) [] := hread.expire
  obtain ⟨hgood, hgrown, hruns⟩ := run_Run hexp hm
  rw [List.nil_append] at hgood
  obtain ⟨r, hr, hrearmed⟩ := ResetTimers_ok hs
  -- the loop of `ResetTimers` goes over the entries that have run
  rw [hgrown.active] at hr
  obtain ⟨hlast, hset, hkeep, -, hruns'⟩ := run_restart hgood hr
  refine ⟨hlast.rearmed hrearmed, ?_, fun e he hlt => ?_, fun e he t ht => ?_⟩
  · rw [hrearmed.runs, hruns', hruns]
    show _ ++ List.map _ ((q.ReadFromFd w).expire w).activeTimers_ = _
    rw [hactive]
    rfl
  · rw [hrearmed.timers]
    refine hkeep e (hgrown.timers e ?_)
    rw [htimers, List.mem_filter]
    exact ⟨he, decide_eq_true (not_le.mpr hlt)⟩
  · have he' : e ∈ ((q.ReadFromFd w).expire w).activeTimers_ := by
      rw [hactive]
      exact he
    have hsettled := hset e he' t (hgrown.heap _ _ ht)
    rw [hrearmed.timers, hrearmed.freed]
    exact hsettled

theorem step_good {op : Op} (h : Good q [] []) (hs : step w q op = .ok q') : Good q' [] [] := by
  cases op with
  | register call l => exact (h.register (fun e he => by cases he) hs).1
  | functor => exact h.functor hs
  | HandleRead => exact (HandleRead_good h hs).1

end Steps

end TimerQueue

end LearnMuduo
