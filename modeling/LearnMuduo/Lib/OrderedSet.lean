/-
  LearnMuduo.Lib.OrderedSet

  A `std::set` as the sorted list of its elements.

  `emplace` inserts an element that is not there.  The part in front of a lower bound
  and the part behind it are `takeWhile` and `dropWhile`; on a sorted list they are
  filters.
-/
import Mathlib.Data.List.Sort

namespace LearnMuduo.Lib

variable {α : Type*} [LinearOrder α]

/-- Strictly increasing, so without repetition. -/
abbrev Increasing (l : List α) : Prop := l.Pairwise (· < ·)

def emplace (x : α) (l : List α) : List α :=
  if x ∈ l then l else l.orderedInsert (· ≤ ·) x

@[simp] theorem mem_emplace {x y : α} {l : List α} : y ∈ emplace x l ↔ y = x ∨ y ∈ l := by
  unfold emplace
  split
  · rename_i hx
    exact ⟨Or.inr, fun h => h.elim (fun he => he ▸ hx) id⟩
  · exact List.mem_orderedInsert _

theorem emplace_increasing {x : α} {l : List α} (h : Increasing l) : Increasing (emplace x l) := by
  unfold emplace
  split
  · exact h
  · rename_i hx
    have hle : (l.orderedInsert (· ≤ ·) x).Pairwise (· ≤ ·) :=
      (h.imp fun hab => le_of_lt hab).orderedInsert x l
    have hnd : (l.orderedInsert (· ≤ ·) x).Nodup :=
      (List.perm_orderedInsert _ x l).nodup_iff.mpr
        (List.nodup_cons.mpr ⟨hx, h.imp fun hab => ne_of_lt hab⟩)
    exact (hle.and hnd).imp fun ⟨hab, hne⟩ => lt_of_le_of_ne hab hne

theorem emplace_perm {x : α} {l : List α} (h : x ∉ l) : (emplace x l).Perm (x :: l) := by
  rw [emplace, if_neg h]
  exact List.perm_orderedInsert _ x l

/-- The head of a sorted list is its least element. -/
theorem Increasing.head_le {x y : α} {l : List α} (h : Increasing (x :: l)) (hy : y ∈ x :: l) :
    x ≤ y := by
  rcases List.mem_cons.mp hy with rfl | hy
  · exact le_refl y
  · exact le_of_lt (List.rel_of_pairwise_cons h hy)

theorem head?_emplace {x : α} {l : List α} (h : Increasing l) :
    (emplace x l).head? = some (match l.head? with | none => x | some y => min x y) := by
  unfold emplace
  cases l with
  | nil => rfl
  | cons y l =>
    show _ = some (min x y)
    split
    · rename_i hx
      exact congrArg some (min_eq_right (h.head_le hx)).symm
    · rw [List.orderedInsert_cons]
      split
      · rename_i hxy
        exact congrArg some (min_eq_left hxy).symm
      · rename_i hxy
        exact congrArg some (min_eq_right (le_of_not_ge hxy)).symm

theorem takeWhile_lt {l : List α} (h : Increasing l) (b : α) :
    l.takeWhile (· < b) = l.filter (· < b) := by
  induction l with
  | nil => rfl
  | cons x l ih =>
    by_cases hx : x < b
    · simp only [List.takeWhile_cons, List.filter_cons, hx, decide_true, if_true]
      rw [ih h.tail]
    · -- nothing behind x is below b either
      have hnone : l.filter (· < b) = [] := by
        rw [List.filter_eq_nil_iff]
        intro y hy hlt
        exact hx (lt_trans (List.rel_of_pairwise_cons h hy) (of_decide_eq_true hlt))
      simp only [List.takeWhile_cons, List.filter_cons, hx, decide_false, Bool.false_eq_true,
        if_false, hnone]

theorem dropWhile_lt {l : List α} (h : Increasing l) (b : α) :
    l.dropWhile (· < b) = l.filter (fun x => ¬ x < b) := by
  induction l with
  | nil => rfl
  | cons x l ih =>
    by_cases hx : x < b
    · simp only [List.dropWhile_cons, List.filter_cons, hx, decide_true, if_true, not_true,
        decide_false, Bool.false_eq_true, if_false]
      exact ih h.tail
    · have hall : l.filter (fun x => ¬ x < b) = l := by
        rw [List.filter_eq_self]
        intro y hy
        exact decide_eq_true fun hlt =>
          hx (lt_trans (List.rel_of_pairwise_cons h hy) hlt)
      simp only [List.dropWhile_cons, List.filter_cons, hx, decide_false, Bool.false_eq_true,
        if_false, not_false_eq_true, decide_true, if_true, hall]

end LearnMuduo.Lib
