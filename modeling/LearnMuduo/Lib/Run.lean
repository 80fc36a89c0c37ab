/-
  LearnMuduo.Lib.Run

  Runs of a partial step function.

  A program whose steps may fail is a function `step : σ → ι → Except ε σ`; a
  run of a list of inputs is `run step s is`.  `Along step ok s is` says that
  every step of that run starts in a state and with an input that satisfy `ok`.
  `run_invariant` is the induction every safety statement here is an instance of.
  `run_refines` compares two programs step by step.
-/
import Mathlib.Data.List.Basic

namespace LearnMuduo.Lib

universe u

variable {ε σ : Type u} {ι : Type*}

section Bind

variable {α β : Type u}

@[simp] theorem ok_then (a : α) (f : α → Except ε β) : (Except.ok a >>= f) = f a := rfl

@[simp] theorem error_then (e : ε) (f : α → Except ε β) :
    (Except.error e >>= f) = .error e := rfl

/-- A sequence returned iff its first part did and its second part did on the result. -/
theorem then_ok_iff {m : Except ε α} {f : α → Except ε β} {b : β} :
    (m >>= f) = .ok b ↔ ∃ a, m = .ok a ∧ f a = .ok b := by
  rcases m with e | a
  · simp only [error_then, reduceCtorEq, false_and, exists_false]
  · simp only [ok_then, Except.ok.injEq, exists_eq_left']

/-- A sequence failed iff its first part did, or its second part did on the result. -/
theorem then_error_iff {m : Except ε α} {f : α → Except ε β} {e : ε} :
    (m >>= f) = .error e ↔ m = .error e ∨ ∃ a, m = .ok a ∧ f a = .error e := by
  rcases m with e' | a
  · simp only [error_then, Except.error.injEq, reduceCtorEq, false_and, exists_false, or_false]
  · simp only [ok_then, reduceCtorEq, Except.ok.injEq, exists_eq_left', false_or]

theorem exists_ok {m : Except ε α} (h : m.isOk = true) : ∃ a, m = .ok a := by
  cases m with
  | error e => cases h
  | ok a => exact ⟨a, rfl⟩

end Bind

/-- Run the inputs one after the other; the first failure ends the run. -/
def run (step : σ → ι → Except ε σ) : σ → List ι → Except ε σ
  | s, [] => .ok s
  | s, i :: is => step s i >>= fun s' => run step s' is

/-- Every step of the run starts in a state and with an input that satisfy `ok`. -/
def Along (step : σ → ι → Except ε σ) (ok : σ → ι → Prop) : σ → List ι → Prop
  | _, [] => True
  | s, i :: is => ok s i ∧ ∀ s', step s i = .ok s' → Along step ok s' is

variable {step : σ → ι → Except ε σ} {ok : σ → ι → Prop}

@[simp] theorem run_nil (s : σ) : run step s [] = .ok s := rfl

theorem run_cons (s : σ) (i : ι) (is : List ι) :
    run step s (i :: is) = step s i >>= fun s' => run step s' is := rfl

/-- A run over two lists is a run over the first and then over the second. -/
theorem run_append (s : σ) (is js : List ι) :
    run step s (is ++ js) = run step s is >>= fun s' => run step s' js := by
  induction is generalizing s with
  | nil => rfl
  | cons i is ih =>
    simp only [List.cons_append, run_cons]
    cases step s i with
    | error e => rfl
    | ok s' => simp only [ok_then, ih]

/-- A run that returned also returned after each of its prefixes. -/
theorem run_prefix {s t : σ} {is js : List ι} (h : run step s (is ++ js) = .ok t) :
    ∃ m, run step s is = .ok m ∧ run step m js = .ok t := by
  rw [run_append] at h
  exact then_ok_iff.mp h

/-- One more step in front, when the state it reaches is known. -/
theorem along_cons {s s' : σ} {i : ι} {is : List ι} (hok : ok s i) (hs : step s i = .ok s')
    (hrest : Along step ok s' is) : Along step ok s (i :: is) :=
  ⟨hok, fun t ht => by obtain rfl := Except.ok.inj (hs.symm.trans ht); exact hrest⟩

theorem along_cons_iff {s s' : σ} {i : ι} {is : List ι} (hs : step s i = .ok s') :
    Along step ok s (i :: is) ↔ ok s i ∧ Along step ok s' is :=
  ⟨fun h => ⟨h.1, h.2 s' hs⟩, fun h => along_cons h.1 hs h.2⟩

/-- Whether a run keeps to `ok` is decided by taking its steps. -/
instance decidableAlong [∀ s i, Decidable (ok s i)] :
    ∀ s is, Decidable (Along step ok s is)
  | _, [] => isTrue trivial
  | s, i :: is =>
    match hs : step s i with
    | .error _ =>
      decidable_of_iff (ok s i)
        ⟨fun h => ⟨h, fun t ht => by rw [hs] at ht; cases ht⟩, fun h => h.1⟩
    | .ok s' =>
      have := @decidableAlong _ s' is
      decidable_of_iff (ok s i ∧ Along step ok s' is) (along_cons_iff hs).symm

/-- What holds of every step holds along every run. -/
theorem along_of_forall (h : ∀ s i, ok s i) (s : σ) (is : List ι) : Along step ok s is := by
  induction is generalizing s with
  | nil => trivial
  | cons i is ih => exact ⟨h s i, fun s' _ => ih s'⟩

/-- What holds of every input whatever the state holds along every run of them. -/
theorem along_of_mem {good : ι → Prop} {s : σ} {is : List ι} (h : ∀ i ∈ is, good i) :
    Along step (fun _ i => good i) s is := by
  induction is generalizing s with
  | nil => trivial
  | cons i is ih =>
    exact ⟨h i List.mem_cons_self, fun _ _ => ih fun j hj => h j (List.mem_cons_of_mem _ hj)⟩

theorem along_append {s : σ} {is js : List ι} (h : Along step ok s (is ++ js)) :
    Along step ok s is := by
  induction is generalizing s with
  | nil => trivial
  | cons i is ih => exact ⟨h.1, fun s' hs => ih (h.2 s' hs)⟩

/-- What is left of a run once a part of it has been taken. -/
theorem along_behind {s m : σ} {is js : List ι} (h : Along step ok s (is ++ js))
    (hm : run step s is = .ok m) : Along step ok m js := by
  induction is generalizing s with
  | nil =>
    obtain rfl := Except.ok.inj hm
    exact h
  | cons i is ih =>
    obtain ⟨s', hs, hrest⟩ := then_ok_iff.mp hm
    exact ih (h.2 s' hs) hrest

/-- The last step of a run meets `ok` in the state the steps before it reached. -/
theorem along_at {s m : σ} {is : List ι} {i : ι} (h : Along step ok s (is ++ [i]))
    (hm : run step s is = .ok m) : ok m i := by
  induction is generalizing s with
  | nil =>
    obtain rfl := Except.ok.inj hm
    exact h.1
  | cons j is ih =>
    obtain ⟨s', hs, hrest⟩ := then_ok_iff.mp hm
    exact ih (h.2 s' hs) hrest

/-- One more step behind, which meets `ok` where the run has got to. -/
theorem along_concat {s m : σ} {is : List ι} {i : ι} (h : Along step ok s is)
    (hm : run step s is = .ok m) (hi : ok m i) : Along step ok s (is ++ [i]) := by
  induction is generalizing s with
  | nil =>
    obtain rfl := Except.ok.inj hm
    exact ⟨hi, fun _ _ => trivial⟩
  | cons j is ih =>
    refine ⟨h.1, fun s' hs => ?_⟩
    rw [run_cons, hs, ok_then] at hm
    exact ih (h.2 s' hs) hm

theorem run_concat {s m t : σ} {is : List ι} {i : ι} (hm : run step s is = .ok m)
    (hs : step m i = .ok t) : run step s (is ++ [i]) = .ok t := by
  rw [run_append, hm, ok_then, run_cons, hs, ok_then, run_nil]

/-- An invariant that every step meeting `ok` keeps holds after every run whose
    steps all meet it. -/
theorem run_invariant {P : σ → Prop} {s t : σ} {is : List ι}
    (hstep : ∀ s i s', P s → ok s i → step s i = .ok s' → P s')
    (h0 : P s) (hok : Along step ok s is) (hrun : run step s is = .ok t) : P t := by
  induction is generalizing s with
  | nil =>
    obtain rfl : s = t := by simpa using hrun
    exact h0
  | cons i is ih =>
    obtain ⟨s', hs, hrest⟩ := then_ok_iff.mp hrun
    exact ih (hstep s i s' h0 hok.1 hs) (hok.2 s' hs) hrest

/-- The same for an invariant that every step keeps. -/
theorem run_preserves {P : σ → Prop} {s t : σ} {is : List ι}
    (hstep : ∀ s i s', P s → step s i = .ok s' → P s') (h0 : P s)
    (hrun : run step s is = .ok t) : P t :=
  run_invariant (fun s i s' hs _ => hstep s i s' hs) h0
    (@along_of_forall _ _ _ step (fun _ _ => True) (fun _ _ => trivial) s is) hrun

/-- If every step from a good state returns, and leaves a good one, then the run returns. -/
theorem run_total {P : σ → Prop} {s : σ} {is : List ι}
    (hstep : ∀ s i, P s → ok s i → ∃ s', step s i = .ok s' ∧ P s') (h0 : P s)
    (hok : Along step ok s is) : ∃ t, run step s is = .ok t ∧ P t := by
  induction is generalizing s with
  | nil => exact ⟨s, rfl, h0⟩
  | cons i is ih =>
    obtain ⟨s', hs, hgood⟩ := hstep s i h0 hok.1
    obtain ⟨t, ht, hend⟩ := ih hgood (hok.2 s' hs)
    refine ⟨t, ?_, hend⟩
    rw [run_cons, hs, ok_then]
    exact ht

/-- If every step does what the step of another program does on the view of the state, then
    the run does what the other program's run does, its failures included. -/
theorem run_refines {τ : Type u} {abs : τ → ι → Except ε τ} {view : σ → τ} {P : σ → Prop}
    {s : σ} {is : List ι}
    (hstep : ∀ s i, P s → ok s i →
      (step s i).map view = abs (view s) i ∧ ∀ s', step s i = .ok s' → P s')
    (h0 : P s) (hok : Along step ok s is) :
    (run step s is).map view = run abs (view s) is ∧ ∀ t, run step s is = .ok t → P t := by
  induction is generalizing s with
  | nil =>
    refine ⟨rfl, fun t ht => ?_⟩
    obtain rfl := Except.ok.inj ht
    exact h0
  | cons i is ih =>
    obtain ⟨hsame, hkept⟩ := hstep s i h0 hok.1
    rw [run_cons, run_cons, ← hsame]
    cases hs : step s i with
    | error e => exact ⟨rfl, fun t ht => by cases ht⟩
    | ok s' => exact ih (hkept s' hs) (hok.2 s' hs)

end LearnMuduo.Lib
