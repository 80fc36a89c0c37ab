/-
  LearnMuduo.Lib.Overwrite

  Windows of a list and overwriting one: the pure content of a block copy into
  an array.  `slice l i n` reads `n` elements from index `i`; `overwrite l i w`
  is `l` with the window `[i, i + w.length)` replaced by `w`.
-/
import Mathlib.Data.List.Basic

namespace LearnMuduo.Lib

variable {α : Type*}

/-- The `n` elements from index `i` on. -/
def slice (l : List α) (i n : Nat) : List α := (l.drop i).take n

/-- `l` with the window `[i, i + w.length)` replaced by `w`. -/
def overwrite (l : List α) (i : Nat) (w : List α) : List α :=
  l.take i ++ w ++ l.drop (i + w.length)

theorem slice_length {l : List α} {i n : Nat} (h : i + n ≤ l.length) :
    (slice l i n).length = n := by
  simp only [slice, List.length_take, List.length_drop]
  omega

theorem slice_zero_right (l : List α) (i : Nat) : slice l i 0 = [] := by
  simp [slice]

/-- The front of a window. -/
theorem slice_take (l : List α) (i : Nat) {m n : Nat} (h : m ≤ n) :
    (slice l i n).take m = slice l i m := by
  rw [slice, slice, List.take_take, Nat.min_eq_left h]

/-- The rest of a window. -/
theorem slice_drop (l : List α) (i m n : Nat) :
    (slice l i n).drop m = slice l (i + m) (n - m) := by
  rw [slice, slice, List.drop_take, List.drop_drop]

/-- A window that ends before the list is extended is not changed by it. -/
theorem slice_append_left {l : List α} (t : List α) {i n : Nat} (h : i + n ≤ l.length) :
    slice (l ++ t) i n = slice l i n := by
  rw [slice, slice, List.drop_append_of_le_length (by omega),
    List.take_append_of_le_length (by rw [List.length_drop]; omega)]

theorem overwrite_length {l w : List α} {i : Nat} (h : i + w.length ≤ l.length) :
    (overwrite l i w).length = l.length := by
  simp only [overwrite, List.length_append, List.length_take, List.length_drop]
  omega

/-- Overwriting a window right behind a window that is read extends what is read. -/
theorem slice_overwrite {l w : List α} {r i : Nat} (hr : r ≤ i)
    (hi : i + w.length ≤ l.length) :
    slice (overwrite l i w) r (i - r + w.length) = slice l r (i - r) ++ w := by
  have htk : (l.take i).length = i := by rw [List.length_take]; omega
  rw [slice, overwrite, List.append_assoc,
    List.drop_append_of_le_length (by omega), List.drop_take]
  have hlen : ((l.drop r).take (i - r)).length = i - r := by
    rw [List.length_take, List.length_drop]; omega
  rw [← List.append_assoc, List.take_append_of_le_length (by
    simp only [List.length_append, hlen, Nat.le_refl]), List.take_of_length_le (by
    simp only [List.length_append, hlen, Nat.le_refl]), slice]

/-- The window just written reads back. -/
theorem slice_overwrite_self {l w : List α} {i : Nat} (hi : i + w.length ≤ l.length) :
    slice (overwrite l i w) i w.length = w := by
  have := slice_overwrite (Nat.le_refl i) hi
  simpa [slice_zero_right] using this

end LearnMuduo.Lib
