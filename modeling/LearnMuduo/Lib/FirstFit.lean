/-
  LearnMuduo.Lib.FirstFit

  Filling a space of bounded size, item by item, all of an item or nothing of it.

  An item `a` is taken when `need a` is free, and then uses up `size a`, which is no more.
  The items taken from a list are `taken need size room items`, what is free after them is
  `left need size room items`.
-/
import Mathlib.Algebra.GroupWithZero.Nat
import Mathlib.Data.List.Basic

namespace LearnMuduo.Lib.FirstFit

variable {α : Type*} (need size : α → Nat)

/-- The items taken, in their order. -/
def taken : Nat → List α → List α
  | _, [] => []
  | room, a :: as =>
    if need a ≤ room then a :: taken (room - size a) as else taken room as

/-- What is free behind them. -/
def left : Nat → List α → Nat
  | room, [] => room
  | room, a :: as => if need a ≤ room then left (room - size a) as else left room as

variable {need size} {room : Nat} {a : α} {as bs : List α}

theorem taken_fits (h : need a ≤ room) :
    taken need size room (a :: as) = a :: taken need size (room - size a) as := if_pos h

theorem taken_full (h : room < need a) :
    taken need size room (a :: as) = taken need size room as := if_neg (Nat.not_le.mpr h)

theorem left_fits (h : need a ≤ room) :
    left need size room (a :: as) = left need size (room - size a) as := if_pos h

theorem left_full (h : room < need a) :
    left need size room (a :: as) = left need size room as := if_neg (Nat.not_le.mpr h)

/-- What comes later is taken from what the earlier items left. -/
theorem taken_append : taken need size room (as ++ bs) =
    taken need size room as ++ taken need size (left need size room as) bs := by
  induction as generalizing room with
  | nil => rfl
  | cons a as ih =>
    rw [List.cons_append]
    by_cases h : need a ≤ room
    · rw [taken_fits h, taken_fits h, left_fits h, List.cons_append, ih]
    · rw [taken_full (Nat.lt_of_not_le h), taken_full (Nat.lt_of_not_le h),
        left_full (Nat.lt_of_not_le h), ih]

/-- The sizes of the items taken and what is left make up the space. -/
theorem taken_size (hsize : ∀ a, size a ≤ need a) :
    ((taken need size room as).map size).sum + left need size room as = room := by
  induction as generalizing room with
  | nil => exact Nat.zero_add room
  | cons a as ih =>
    by_cases h : need a ≤ room
    · have hrest := @ih (room - size a)
      have hle := hsize a
      rw [taken_fits h, left_fits h, List.map_cons, List.sum_cons]
      omega
    · rw [taken_full (Nat.lt_of_not_le h), left_full (Nat.lt_of_not_le h), ih]

end LearnMuduo.Lib.FirstFit
