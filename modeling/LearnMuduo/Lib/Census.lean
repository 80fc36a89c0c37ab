/-
  LearnMuduo.Lib.Census

  How many of a finite number of threads are at a place.

  Where each thread is, is a function `place : T → σ`, and a step of a thread is
  `Function.update place t x`.  A step takes `t` out of the places of one kind and puts
  it among those of another (`census_update`); with the kinds of the two places known,
  the counts behind the step are a matter of arithmetic.
-/
import Mathlib.Data.Fintype.Card
import Mathlib.Logic.Function.Basic

namespace LearnMuduo.Lib

variable {T σ : Type*} [Fintype T]

/-- The number of threads at a place of the kind `p`. -/
def census (p : σ → Bool) (place : T → σ) : Nat := (Finset.univ.filter fun t => p (place t)).card

theorem census_eq_zero_iff {p : σ → Bool} {place : T → σ} :
    census p place = 0 ↔ ∀ t, p (place t) = false := by
  simp [census, Finset.filter_eq_empty_iff]

theorem census_pos_iff {p : σ → Bool} {place : T → σ} :
    0 < census p place ↔ ∃ t, p (place t) = true := by
  simp [census, Finset.card_pos, Finset.Nonempty]

theorem census_pos {p : σ → Bool} {place : T → σ} {t : T} (h : p (place t) = true) :
    0 < census p place :=
  census_pos_iff.mpr ⟨t, h⟩

/-- Kinds that exclude one another are counted apart. -/
theorem census_or {p q r : σ → Bool} {place : T → σ} (hor : ∀ x, r x = (p x || q x))
    (hand : ∀ x, (p x && q x) = false) : census r place = census p place + census q place := by
  classical
  have hdisjoint : Disjoint (Finset.univ.filter fun t => p (place t))
      (Finset.univ.filter fun t => q (place t)) := by
    refine Finset.disjoint_filter.mpr fun t _ hp hq => ?_
    have hboth := hand (place t)
    rw [hp, hq] at hboth
    cases hboth
  simp only [census, hor, Bool.or_eq_true]
  rw [Finset.filter_or, Finset.card_union_of_disjoint hdisjoint]

theorem census_const {p : σ → Bool} {x : σ} (h : p x = false) :
    census p (fun _ : T => x) = 0 := by
  simp [census, h]

variable [DecidableEq T]

/-- The thread `t` apart from the others. -/
theorem census_split (p : σ → Bool) (place : T → σ) (t : T) :
    census p place
      = ((Finset.univ.erase t).filter fun u => p (place u)).card + (p (place t)).toNat := by
  have huniv : insert t (Finset.univ.erase t) = Finset.univ :=
    Finset.insert_erase (Finset.mem_univ t)
  rw [census, ← huniv, Finset.filter_insert, huniv]
  cases hp : p (place t) with
  | false => simp
  | true =>
    have hnot : t ∉ (Finset.univ.erase t).filter fun u => p (place u) := by simp
    simp [Finset.card_insert_of_notMem hnot]

/-- A step of `t` to the place `x`. -/
theorem census_update (p : σ → Bool) (place : T → σ) (t : T) (x : σ) :
    census p (Function.update place t x) + (p (place t)).toNat
      = census p place + (p x).toNat := by
  -- the others stay where they are
  have hothers : ((Finset.univ.erase t).filter fun u => p (Function.update place t x u))
      = (Finset.univ.erase t).filter fun u => p (place u) := by
    refine Finset.filter_congr fun u hu => ?_
    rw [Function.update_of_ne (Finset.ne_of_mem_erase hu)]
  rw [census_split p _ t, census_split p place t, hothers, Function.update_self]
  omega

end LearnMuduo.Lib
