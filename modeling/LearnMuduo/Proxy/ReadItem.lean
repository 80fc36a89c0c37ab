/-
  LearnMuduo.Proxy.ReadItem

  `readItem` (Proxy/Proxy.cc) with its semaphores: any number of calls, each taking its
  steps from one `P` or `V` to the next, in any order.

  `mutex` starts at 5, so calls overlap between its `P` and `V`, and a call that finds
  its URI returns from the reading section.  Without such a call, and when nobody enters
  while the first reader waits for `W`, the counts come out (`Sound`).
-/
import LearnMuduo.Lib.Census
import LearnMuduo.Lib.Reach
import LearnMuduo.Proxy.Proxy

namespace LearnMuduo.Proxy

open Lib

/-- `Sem_init(&mutex, 0, 5)`. -/
def kMutex : Nat := 5

/-- Where a call is. -/
inductive ReadPc where
  /-- Before the first `P(&mutex)`. -/
  | start
  /-- `readcnt` has become 1; before `P(&W)`. -/
  | wantW
  /-- Before the first `V(&mutex)`. -/
  | entered
  | reading
  /-- `readcnt` has become 0; before `V(&W)`. -/
  | freeW
  /-- Before the last `V(&mutex)`. -/
  | leaving
  | returned (cur : Option Obj)
  deriving DecidableEq, Repr

namespace ReadPc

/-- Between a `P(&mutex)` and its `V`. -/
@[simp] def locks : ReadPc → Bool
  | wantW | entered | freeW | leaving => true
  | _ => false

/-- Counted in `readcnt`, by a call that has not returned. -/
@[simp] def counted : ReadPc → Bool
  | wantW | entered | reading => true
  | _ => false

/-- A reader for which `W` has been taken. -/
@[simp] def reads : ReadPc → Bool
  | entered | reading => true
  | _ => false

@[simp] def isWantW : ReadPc → Bool
  | wantW => true
  | _ => false

@[simp] def isFreeW : ReadPc → Bool
  | freeW => true
  | _ => false

/-- In the reading section. -/
@[simp] def isReading : ReadPc → Bool
  | reading => true
  | _ => false

end ReadPc

structure Readers (T : Type*) where
  mutex : Nat
  W : Nat
  readcnt : Int
  pc : T → ReadPc

namespace Readers

variable {T : Type*}

/-- As `main` initialises the semaphores. -/
def new : Readers T := { mutex := kMutex, W := 1, readcnt := 0, pc := fun _ => .start }

variable [DecidableEq T]

def moveTo (s : Readers T) (t : T) (pc : ReadPc) : Readers T :=
  { s with pc := Function.update s.pc t pc }

/-- The next step of the call `t`; `P` waits for a positive value. -/
def step (cache : Cache) (targetURI : T → Bytes) (s : Readers T) (t : T) : Option (Readers T) :=
  match s.pc t with
  | .start =>
    if 0 < s.mutex then
      let s := { s with mutex := s.mutex - 1, readcnt := s.readcnt + 1 }
      some (s.moveTo t (if s.readcnt = 1 then .wantW else .entered))
    else none
  | .wantW => if 0 < s.W then some ({ s with W := s.W - 1 }.moveTo t .entered) else none
  | .entered => some ({ s with mutex := s.mutex + 1 }.moveTo t .reading)
  | .reading =>
    match readItem cache (targetURI t) with
    | some cur => some (s.moveTo t (.returned (some cur)))
    | none =>
      if 0 < s.mutex then
        let s := { s with mutex := s.mutex - 1, readcnt := s.readcnt - 1 }
        some (s.moveTo t (if s.readcnt = 0 then .freeW else .leaving))
      else none
  | .freeW => some ({ s with W := s.W + 1 }.moveTo t .leaving)
  | .leaving => some ({ s with mutex := s.mutex + 1 }.moveTo t (.returned none))
  | .returned _ => none

/-- The step finds no URI, and does not enter while a first reader waits for `W`. -/
def Orderly (cache : Cache) (targetURI : T → Bytes) (s : Readers T) (t : T) : Prop :=
  (s.pc t = .reading → readItem cache (targetURI t) = none) ∧
    (s.pc t = .start → ∀ u, s.pc u ≠ .wantW)

/-! ## The counts -/

variable [Fintype T]

structure Sound (s : Readers T) : Prop where
  counted : s.readcnt = census ReadPc.counted s.pc
  mutex : s.mutex + census ReadPc.locks s.pc = kMutex
  /-- `W` is free, or held for the readers, or by the last of them. -/
  W : s.W + census ReadPc.isFreeW s.pc + min 1 (census ReadPc.reads s.pc) = 1
  /-- A reader that waits for `W` is alone. -/
  alone : census ReadPc.counted s.pc ≤ 1 ∨ census ReadPc.isWantW s.pc = 0

omit [DecidableEq T] in
theorem counted_eq (pc : T → ReadPc) :
    census ReadPc.counted pc = census ReadPc.isWantW pc + census ReadPc.reads pc :=
  census_or (fun x => by cases x <;> rfl) fun x => by cases x <;> rfl

omit [DecidableEq T] in
theorem new_sound : (new : Readers T).Sound := by
  have hzero : ∀ p : ReadPc → Bool, p .start = false → census p (new : Readers T).pc = 0 :=
    fun p hp => census_const hp
  constructor
  · rw [hzero _ rfl]
    rfl
  · rw [hzero _ rfl]
    rfl
  · rw [hzero _ rfl, hzero _ rfl]
    rfl
  · exact Or.inr (hzero _ rfl)

variable {cache : Cache} {targetURI : T → Bytes} {s s' : Readers T} {t : T} {x y : ReadPc}

/-- A step of one call, in each count. -/
theorem counts_move (hpc : s.pc t = x) (y : ReadPc) :
    let pc := Function.update s.pc t y
    census ReadPc.counted pc + x.counted.toNat = census ReadPc.counted s.pc + y.counted.toNat ∧
    census ReadPc.locks pc + x.locks.toNat = census ReadPc.locks s.pc + y.locks.toNat ∧
    census ReadPc.isFreeW pc + x.isFreeW.toNat = census ReadPc.isFreeW s.pc + y.isFreeW.toNat ∧
    census ReadPc.reads pc + x.reads.toNat = census ReadPc.reads s.pc + y.reads.toNat ∧
    census ReadPc.isWantW pc + x.isWantW.toNat = census ReadPc.isWantW s.pc + y.isWantW.toNat := by
  subst hpc
  exact ⟨census_update .., census_update .., census_update .., census_update .., census_update ..⟩

theorem Sound.step (h : s.Sound) (hok : s.Orderly cache targetURI t)
    (hs : s.step cache targetURI t = some s') : s'.Sound := by
  obtain ⟨hcounted, hmutex, hW, halone⟩ := h
  have hsum := counted_eq s.pc
  cases hpc : s.pc t with
  | start =>
    simp only [Readers.step, hpc] at hs
    obtain ⟨hpos, heq⟩ := Option.ite_none_right_eq_some.mp hs
    obtain rfl := Option.some.inj heq
    -- no first reader waits, so `W` is held when somebody is counted
    have hwant : census ReadPc.isWantW s.pc = 0 := by
      refine census_eq_zero_iff.mpr fun u => ?_
      have hu := hok.2 hpc u
      cases hpu : s.pc u <;> simp_all [ReadPc.isWantW]
    by_cases hfirst : s.readcnt + 1 = 1
    · obtain ⟨hc, hl, hf, hr, hw⟩ := counts_move hpc .wantW
      simp at hc hl hf hr hw
      simp only [hfirst, if_true]
      constructor <;> simp only [moveTo] <;> omega
    · obtain ⟨hc, hl, hf, hr, hw⟩ := counts_move hpc .entered
      simp at hc hl hf hr hw
      simp only [hfirst, if_false]
      constructor <;> simp only [moveTo] <;> omega
  | wantW =>
    simp only [Readers.step, hpc] at hs
    obtain ⟨hpos, heq⟩ := Option.ite_none_right_eq_some.mp hs
    obtain rfl := Option.some.inj heq
    obtain ⟨hc, hl, hf, hr, hw⟩ := counts_move hpc .entered
    simp at hc hl hf hr hw
    constructor <;> simp only [moveTo] <;> omega
  | entered =>
    simp only [Readers.step, hpc] at hs
    obtain rfl := Option.some.inj hs
    obtain ⟨hc, hl, hf, hr, hw⟩ := counts_move hpc .reading
    simp at hc hl hf hr hw
    constructor <;> simp only [moveTo] <;> omega
  | reading =>
    simp only [Readers.step, hpc, hok.1 hpc] at hs
    obtain ⟨hpos, heq⟩ := Option.ite_none_right_eq_some.mp hs
    obtain rfl := Option.some.inj heq
    by_cases hlast : s.readcnt - 1 = 0
    · obtain ⟨hc, hl, hf, hr, hw⟩ := counts_move hpc .freeW
      simp at hc hl hf hr hw
      simp only [hlast, if_true]
      constructor <;> simp only [moveTo] <;> omega
    · obtain ⟨hc, hl, hf, hr, hw⟩ := counts_move hpc .leaving
      simp at hc hl hf hr hw
      simp only [hlast, if_false]
      constructor <;> simp only [moveTo] <;> omega
  | freeW =>
    simp only [Readers.step, hpc] at hs
    obtain rfl := Option.some.inj hs
    obtain ⟨hc, hl, hf, hr, hw⟩ := counts_move hpc .leaving
    simp at hc hl hf hr hw
    constructor <;> simp only [moveTo] <;> omega
  | leaving =>
    simp only [Readers.step, hpc] at hs
    obtain rfl := Option.some.inj hs
    obtain ⟨hc, hl, hf, hr, hw⟩ := counts_move hpc (.returned none)
    simp at hc hl hf hr hw
    constructor <;> simp only [moveTo] <;> omega
  | returned cur =>
    simp only [Readers.step, hpc] at hs
    cases hs

/-- In every state of a run in which no call finds its URI, and none enters while a first
    reader waits for `W`: whoever reads, `W` is held; it is held only for a reader or by
    the last one; `readcnt` counts the readers.  Between the locked parts `W` is held exactly
    while somebody reads, and when all calls have returned everything is as it was. -/
theorem readers_balanced
    (h : Reaches (Readers.step cache targetURI) (Orderly cache targetURI) new s) :
    ((∃ t, s.pc t = .reading) → s.W = 0) ∧
    (s.W = 0 → ∃ t, s.pc t = .entered ∨ s.pc t = .reading ∨ s.pc t = .freeW) ∧
    s.readcnt = census ReadPc.counted s.pc ∧
    ((∀ t, (s.pc t).locks = false) →
      (s.W = 0 ↔ ∃ t, s.pc t = .reading) ∧ s.readcnt = census ReadPc.isReading s.pc) ∧
    ((∀ t, ∃ cur, s.pc t = .returned cur) → s.readcnt = 0 ∧ s.W = 1 ∧ s.mutex = kMutex) := by
  obtain ⟨hcounted, hmutex, hW, -⟩ : s.Sound :=
    h.invariant new_sound fun _ _ _ hx hok hs => hx.step hok hs
  have hheld : (∃ t, s.pc t = .reading) → s.W = 0 := by
    rintro ⟨t, ht⟩
    have hpos : 0 < census ReadPc.reads s.pc := census_pos (t := t) (by rw [ht]; rfl)
    omega
  have hholder : s.W = 0 → ∃ t, s.pc t = .entered ∨ s.pc t = .reading ∨ s.pc t = .freeW := by
    intro hzero
    have hpos : 0 < census ReadPc.reads s.pc ∨ 0 < census ReadPc.isFreeW s.pc := by omega
    rcases hpos with hpos | hpos
    · obtain ⟨t, ht⟩ := census_pos_iff.mp hpos
      exact ⟨t, by cases hpc : s.pc t <;> simp_all⟩
    · obtain ⟨t, ht⟩ := census_pos_iff.mp hpos
      exact ⟨t, by cases hpc : s.pc t <;> simp_all⟩
  refine ⟨hheld, hholder, hcounted, fun hfree => ⟨⟨fun hzero => ?_, hheld⟩, ?_⟩, fun hall => ?_⟩
  · obtain ⟨t, ht | ht | ht⟩ := hholder hzero
    · have hlocks := hfree t
      rw [ht] at hlocks
      cases hlocks
    · exact ⟨t, ht⟩
    · have hlocks := hfree t
      rw [ht] at hlocks
      cases hlocks
  · -- outside the locked parts only the readers are counted
    have hsame : ∀ t, (s.pc t).counted = (s.pc t).isReading := by
      intro t
      have hlocks := hfree t
      cases hpc : s.pc t <;> simp_all
    rw [hcounted, census, census]
    simp only [hsame]
  · have hzero : ∀ p : ReadPc → Bool, (∀ cur, p (.returned cur) = false) → census p s.pc = 0 := by
      intro p hp
      refine census_eq_zero_iff.mpr fun t => ?_
      obtain ⟨cur, hcur⟩ := hall t
      rw [hcur]
      exact hp cur
    have hc := hzero ReadPc.counted fun _ => rfl
    have hl := hzero ReadPc.locks fun _ => rfl
    have hf := hzero ReadPc.isFreeW fun _ => rfl
    have hr := hzero ReadPc.reads fun _ => rfl
    omega

/-- A single call that finds nothing. -/
theorem readers_balanced_example :
    let s := after (Readers.step [] fun _ : Unit => ascii "/a") new [(), (), (), (), (), ()]
    s.readcnt = 0 ∧ s.W = 1 ∧ s.mutex = kMutex := by
  -- the only call never meets another one
  have horderly : ∀ (x : Readers Unit) (t : Unit), Orderly [] (fun _ => ascii "/a") x t := by
    refine fun x t => ⟨fun _ => rfl, fun hstart u => ?_⟩
    rw [hstart]
    exact ReadPc.noConfusion
  have hreach : Reaches (Readers.step [] fun _ : Unit => ascii "/a")
      (Orderly [] fun _ => ascii "/a") new
      (after (Readers.step [] fun _ => ascii "/a") new [(), (), (), (), (), ()]) :=
    Reaches.after rfl fun t _ x => horderly x t
  exact (readers_balanced hreach).2.2.2.2 fun _ => ⟨none, rfl⟩

/-- A call that finds its URI leaves `readcnt` at 1 and `W` taken. -/
theorem hit_keeps_W :
    let cache : Cache := [{ uri := ascii "/haha", respBody := ascii "This is the test body" }]
    ∃ s : Readers Unit, Reachable (Readers.step cache fun _ => ascii "/haha") new s ∧
      (∀ t, ∃ cur, s.pc t = .returned cur) ∧ s.readcnt = 1 ∧ s.W = 0 :=
  ⟨after (Readers.step _ fun _ => ascii "/haha") new [(), (), (), ()],
    Reaches.after rfl fun _ _ _ => trivial, fun _ => ⟨_, rfl⟩, rfl, rfl⟩

/-- With nothing in the cache: the second call enters while the first one waits for `W`, and
    reads without it. -/
theorem reads_without_W :
    ∃ s : Readers Bool, Reachable (Readers.step [] fun _ => ascii "/a") new s ∧
      s.pc false = .reading ∧ s.W = 1 :=
  ⟨after (Readers.step [] fun _ => ascii "/a") new [true, false, false],
    Reaches.after rfl fun _ _ _ => trivial, rfl, rfl⟩

end Readers

end LearnMuduo.Proxy
