/-
  LearnMuduo.Lib.Loop

  `while (cond) body` for a body that may fail.

  `Passes cond body n s t` says that `n` passes of the loop lead from `s` to `t`;
  `loop cond body stuck fuel` runs it with fuel and ends in `stuck` when the fuel is gone.
  A loop ends when each pass that goes on lowers a measure (`Passes.ends`), after no more
  passes than the measure allows (`Passes.bounded`), and then enough fuel gives its result
  (`Passes.loop_eq`); `loop_total` is both in one.
-/
import Mathlib.Data.Nat.Basic

namespace LearnMuduo.Lib

universe u

variable {ε σ : Type u}

inductive Passes (cond : σ → Bool) (body : σ → Except ε σ) (s : σ) : Nat → σ → Prop where
  | zero : Passes cond body s 0 s
  | succ {n : Nat} {t u : σ} : Passes cond body s n t → cond t = true → body t = .ok u →
      Passes cond body s (n + 1) u

def loop (cond : σ → Bool) (body : σ → Except ε σ) (stuck : ε) : Nat → σ → Except ε σ
  | 0, _ => .error stuck
  | fuel + 1, s => if cond s then body s >>= loop cond body stuck fuel else .ok s

variable {cond : σ → Bool} {body : σ → Except ε σ} {s t : σ} {n : Nat} {P : σ → Prop}

theorem Passes.invariant (h : Passes cond body s n t) (h0 : P s)
    (hbody : ∀ x y, P x → cond x = true → body x = .ok y → P y) : P t := by
  induction h with
  | zero => exact h0
  | succ _ hcond hok ih => exact hbody _ _ ih hcond hok

/-- While the loop goes on, every pass has cost `d` of the measure. -/
theorem Passes.bounded {m : σ → Nat} {d : Nat} (h : Passes cond body s n t) (h0 : P s)
    (hbody : ∀ x y, P x → cond x = true → body x = .ok y → P y)
    (hless : ∀ x y, P x → cond x = true → body x = .ok y → cond y = true → m y + d ≤ m x)
    (hcond : cond t = true) : m t + d * n ≤ m s := by
  induction h with
  | zero => omega
  | @succ n t u hpasses ht hok ih =>
    have hrest := ih ht
    have hcost := hless t u (hpasses.invariant h0 hbody) ht hok hcond
    rw [Nat.mul_succ]
    omega

/-- A loop whose body returns, and lowers the measure where it goes on, ends. -/
theorem Passes.ends {m : σ → Nat} (h : Passes cond body s n t) (ht : P t)
    (hreturns : ∀ k x, Passes cond body s k x → P x → cond x = true → ∃ y, body x = .ok y ∧ P y ∧
      (cond y = true → m y < m x)) :
    ∃ k x, Passes cond body s k x ∧ cond x = false := by
  generalize hm : m t = bound
  induction bound using Nat.strongRecOn generalizing n t with
  | ind bound ih =>
    cases hcond : cond t with
    | false => exact ⟨n, t, h, hcond⟩
    | true =>
      obtain ⟨u, hok, hu, hless⟩ := hreturns n t h ht hcond
      have hnext : Passes cond body s (n + 1) u := .succ h hcond hok
      cases hmore : cond u with
      | false => exact ⟨n + 1, u, hnext, hmore⟩
      | true =>
        have hlt : m u < bound := hm ▸ hless hmore
        exact ih (m u) hlt hnext hu rfl

theorem Passes.loop_add {stuck : ε} (h : Passes cond body s n t) (fuel : Nat) :
    loop cond body stuck (n + fuel) s = loop cond body stuck fuel t := by
  induction h generalizing fuel with
  | zero => rw [Nat.zero_add]
  | @succ n t u _ hcond hok ih =>
    rw [Nat.add_assoc, ih, Nat.add_comm 1 fuel, loop, if_pos hcond, hok]
    rfl

/-- A loop that ends gives its last state, with any fuel beyond its passes. -/
theorem Passes.loop_eq {stuck : ε} {fuel : Nat} (h : Passes cond body s n t)
    (hend : cond t = false) (hfuel : n < fuel) : loop cond body stuck fuel s = .ok t := by
  obtain ⟨rest, rfl⟩ : ∃ rest, fuel = n + (rest + 1) := ⟨fuel - n - 1, by omega⟩
  rw [h.loop_add, loop, hend]
  exact if_neg Bool.false_ne_true

/-- Total correctness.  `Q k` is an invariant that holds with a measure of `k`: a body that
    returns, keeps it, and lowers the measure where the loop goes on gives a result in which
    it holds and the condition does not. -/
theorem loop_total {Q : Nat → σ → Prop} {stuck : ε} {k fuel : Nat} (h0 : Q k s)
    (hbody : ∀ k x, Q k x → cond x = true →
      ∃ y k', body x = .ok y ∧ Q k' y ∧ (cond y = true → k' < k))
    (hfuel : k + 1 < fuel) :
    ∃ t k', loop cond body stuck fuel s = .ok t ∧ Q k' t ∧ cond t = false := by
  induction fuel generalizing s k with
  | zero => omega
  | succ fuel ih =>
    cases hcond : cond s with
    | false => exact ⟨s, k, by rw [loop, hcond]; exact if_neg Bool.false_ne_true, h0, hcond⟩
    | true =>
      obtain ⟨y, k', hok, hy, hless⟩ := hbody k s h0 hcond
      have hpass : loop cond body stuck (fuel + 1) s = loop cond body stuck fuel y := by
        rw [loop, if_pos hcond, hok]
        rfl
      cases hmore : cond y with
      | true =>
        have hlt := hless hmore
        obtain ⟨t, k'', ht⟩ := ih hy (by omega)
        exact ⟨t, k'', hpass ▸ ht⟩
      | false =>
        obtain ⟨rest, rfl⟩ : ∃ rest, fuel = rest + 1 := ⟨fuel - 1, by omega⟩
        refine ⟨y, k', ?_, hy, hmore⟩
        rw [hpass, loop, hmore]
        exact if_neg Bool.false_ne_true

end LearnMuduo.Lib
