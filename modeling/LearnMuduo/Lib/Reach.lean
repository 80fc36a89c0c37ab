/-
  LearnMuduo.Lib.Reach

  Reachable states of a transition system.

  The system is a function `step : σ → α → Option σ`: the state behind an action
  that is enabled.  `Reaches step ok s t` says that `t` is reached from `s` by
  actions each of which satisfies `ok` where it is taken.  Interleavings of threads
  are actions that name the thread.
-/
import Mathlib.Data.List.Basic

namespace LearnMuduo.Lib

variable {σ α : Type*}

inductive Reaches (step : σ → α → Option σ) (ok : σ → α → Prop) (s : σ) : σ → Prop where
  | refl : Reaches step ok s s
  | tail {t u : σ} {a : α} : Reaches step ok s t → ok t a → step t a = some u →
      Reaches step ok s u

/-- Reached by any actions. -/
abbrev Reachable (step : σ → α → Option σ) : σ → σ → Prop := Reaches step fun _ _ => True

variable {step : σ → α → Option σ} {ok : σ → α → Prop} {s t u : σ}

/-- An invariant that the actions keep holds in every state they reach. -/
theorem Reaches.invariant {P : σ → Prop} (h : Reaches step ok s t) (h0 : P s)
    (hstep : ∀ x a y, P x → ok x a → step x a = some y → P y) : P t := by
  induction h with
  | refl => exact h0
  | tail _ hok hs ih => exact hstep _ _ _ ih hok hs

theorem Reaches.trans (h : Reaches step ok s t) (h' : Reaches step ok t u) :
    Reaches step ok s u := by
  induction h' with
  | refl => exact h
  | tail _ hok hs ih => exact .tail ih hok hs

/-- Take the actions one after the other, as long as they are enabled. -/
def walk (step : σ → α → Option σ) : σ → List α → Option σ
  | s, [] => some s
  | s, a :: as =>
    match step s a with
    | none => none
    | some t => walk step t as

/-- Actions that are allowed wherever they are taken. -/
theorem Reaches.of_walk {as : List α} (h : walk step s as = some t)
    (hok : ∀ a ∈ as, ∀ x, ok x a) : Reaches step ok s t := by
  induction as generalizing s with
  | nil =>
    obtain rfl := Option.some.inj h
    exact .refl
  | cons a as ih =>
    rw [walk] at h
    split at h
    · cases h
    · rename_i m hm
      have hrest := ih h fun b hb => hok b (List.mem_cons_of_mem a hb)
      exact (Reaches.tail .refl (hok a List.mem_cons_self s) hm).trans hrest

theorem Reachable.of_walk {as : List α} (h : walk step s as = some t) : Reachable step s t :=
  Reaches.of_walk h fun _ _ _ => trivial

/-- The state behind the actions, if they can be taken. -/
def after (step : σ → α → Option σ) (s : σ) (as : List α) : σ := (walk step s as).getD s

theorem Reaches.after {as : List α} (h : (walk step s as).isSome = true)
    (hok : ∀ a ∈ as, ∀ x, ok x a) : Reaches step ok s (after step s as) := by
  obtain ⟨t, ht⟩ := Option.isSome_iff_exists.mp h
  rw [Lib.after, ht]
  exact Reaches.of_walk ht hok

theorem walk_concat {as : List α} {a : α} :
    walk step s (as ++ [a]) = (walk step s as).bind fun t => step t a := by
  induction as generalizing s with
  | nil =>
    rw [List.nil_append, walk, walk, Option.bind_some]
    cases step s a <;> rfl
  | cons b as ih =>
    rw [List.cons_append, walk, walk]
    cases step s b with
    | none => rfl
    | some t => exact ih

/-- The last action is one step. -/
theorem step_after {as : List α} {a : α} (h : (walk step s (as ++ [a])).isSome = true) :
    step (after step s as) a = some (after step s (as ++ [a])) := by
  obtain ⟨u, hu⟩ := Option.isSome_iff_exists.mp h
  rw [after, after, hu, Option.getD_some]
  rw [walk_concat] at hu
  obtain ⟨t, ht, hstep⟩ := Option.bind_eq_some_iff.mp hu
  rw [ht, Option.getD_some, hstep]

end LearnMuduo.Lib
