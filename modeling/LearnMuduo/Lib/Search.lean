/-
  LearnMuduo.Lib.Search

  First occurrence of a pattern in a list, and cutting a list there.

  `search pat l` is the index of the first occurrence of `pat` in `l`; `cut`
  returns what stands before and after it.  The three facts the callers use:

    * `cut_eq`     — a cut puts the list back together around the pattern;
    * `cut_append` — a cut that was found stays where it is when the list grows;
    * `cut_of_free` — a part in which the pattern does not occur, followed by
      the pattern, is cut exactly there.
-/
import Mathlib.Data.List.Basic
import Mathlib.Data.List.Infix

namespace LearnMuduo.Lib

variable {α : Type*} [DecidableEq α]

/-- Index of the first occurrence of `pat`, if there is one. -/
def search (pat : List α) : List α → Option Nat
  | [] => if pat = [] then some 0 else none
  | x :: xs => if pat.isPrefixOf (x :: xs) then some 0 else (search pat xs).map (· + 1)

/-- What stands before and after the first occurrence of `pat`. -/
def cut (pat l : List α) : Option (List α × List α) :=
  (search pat l).map fun k => (l.take k, l.drop (k + pat.length))

/-! ## search -/

theorem search_eq_none_iff {pat l : List α} : search pat l = none ↔ ¬ pat <:+: l := by
  induction l with
  | nil => simp [search]
  | cons x xs ih =>
    simp only [search, List.isPrefixOf_iff_prefix]
    by_cases hp : pat <+: x :: xs
    · simp [hp, hp.isInfix]
    · simp [hp, ih, List.infix_cons_iff]

/-- The pattern stands at the index `search` returns. -/
theorem search_spec {pat l : List α} {k : Nat} (h : search pat l = some k) :
    l = l.take k ++ pat ++ l.drop (k + pat.length) := by
  induction l generalizing k with
  | nil =>
    simp only [search] at h
    split at h
    · rename_i hp; simp [hp]
    · simp at h
  | cons x xs ih =>
    simp only [search, List.isPrefixOf_iff_prefix] at h
    split at h
    · rename_i hp
      obtain ⟨t, ht⟩ := hp
      obtain rfl : 0 = k := by simpa using h
      simp [← ht]
    · obtain ⟨j, hj, rfl⟩ := Option.map_eq_some_iff.mp h
      have := ih hj
      rw [show j + 1 + pat.length = (j + pat.length) + 1 from by omega]
      simpa using this

theorem search_le {pat l : List α} {k : Nat} (h : search pat l = some k) :
    k + pat.length ≤ l.length := by
  induction l generalizing k with
  | nil =>
    simp only [search] at h
    split at h
    · rename_i hp
      obtain rfl : 0 = k := by simpa using h
      simp [hp]
    · simp at h
  | cons x xs ih =>
    simp only [search, List.isPrefixOf_iff_prefix] at h
    split at h
    · rename_i hp
      obtain rfl : 0 = k := by simpa using h
      simpa using hp.length_le
    · obtain ⟨j, hj, rfl⟩ := Option.map_eq_some_iff.mp h
      have := ih hj
      simp only [List.length_cons]
      omega

/-- An occurrence that was found stays the first one when the list grows. -/
theorem search_append {pat l : List α} {k : Nat} (t : List α) (h : search pat l = some k) :
    search pat (l ++ t) = some k := by
  induction l generalizing k with
  | nil =>
    simp only [search] at h
    split at h
    · rename_i hp
      obtain rfl : 0 = k := by simpa using h
      subst hp
      cases t <;> simp [search]
    · simp at h
  | cons x xs ih =>
    simp only [search, List.cons_append, List.isPrefixOf_iff_prefix] at h ⊢
    split at h
    · rename_i hp
      rw [if_pos (hp.trans (by simp))]
      exact h
    · rename_i hp
      obtain ⟨j, hj, rfl⟩ := Option.map_eq_some_iff.mp h
      have hle := search_le hj
      have hlen : pat.length ≤ (x :: xs).length := by
        simp only [List.length_cons]
        omega
      have hne : ¬ pat <+: x :: (xs ++ t) := fun hp' =>
        hp (List.prefix_of_prefix_length_le hp' (by simp) hlen)
      rw [if_neg hne, ih hj]
      rfl

/-- The pattern is found right after a part in which it does not begin. -/
theorem search_of_free {pat l : List α} (t : List α)
    (hfree : ¬ pat <:+: l ++ pat.dropLast) :
    search pat (l ++ pat ++ t) = some l.length := by
  have hne : pat ≠ [] := fun h => hfree (by simp [h])
  induction l with
  | nil =>
    obtain ⟨a, p, rfl⟩ := List.exists_cons_of_ne_nil hne
    simp [search, List.isPrefixOf_iff_prefix]
  | cons x xs ih =>
    have hxs : ¬ pat <:+: xs ++ pat.dropLast := fun h => hfree (List.infix_cons h)
    have hx : ¬ pat <+: x :: (xs ++ (pat ++ t)) := by
      intro h
      -- an occurrence at the head would fit before the pattern's last element
      refine hfree (List.IsPrefix.isInfix (List.prefix_of_prefix_length_le h ?_ ?_))
      · have := List.dropLast_append_getLast hne
        refine ⟨[pat.getLast hne] ++ t, ?_⟩
        conv_rhs => rw [← this]
        simp
      · simp only [List.length_append, List.length_cons, List.length_dropLast]
        omega
    have := ih hxs
    simp only [List.append_assoc] at this
    simp [search, List.isPrefixOf_iff_prefix, hx, this]

/-! ## cut -/

theorem cut_eq_none_iff {pat l : List α} : cut pat l = none ↔ ¬ pat <:+: l := by
  simp [cut, search_eq_none_iff]

theorem cut_eq {pat s l r : List α} (h : cut pat s = some (l, r)) : s = l ++ pat ++ r := by
  obtain ⟨k, hk, heq⟩ := Option.map_eq_some_iff.mp h
  obtain ⟨rfl, rfl⟩ := Prod.mk.inj heq
  exact search_spec hk

theorem cut_length {pat s l r : List α} (h : cut pat s = some (l, r)) :
    s.length = l.length + pat.length + r.length := by
  have := congrArg List.length (cut_eq h)
  simpa [Nat.add_assoc] using this

theorem cut_append {pat s l r : List α} (t : List α) (h : cut pat s = some (l, r)) :
    cut pat (s ++ t) = some (l, r ++ t) := by
  obtain ⟨k, hk, heq⟩ := Option.map_eq_some_iff.mp h
  obtain ⟨rfl, rfl⟩ := Prod.mk.inj heq
  have hle := search_le hk
  rw [cut, search_append t hk, Option.map_some, List.take_append_of_le_length (by omega),
    List.drop_append_of_le_length hle]

theorem cut_of_free {pat l : List α} (t : List α) (hfree : ¬ pat <:+: l ++ pat.dropLast) :
    cut pat (l ++ pat ++ t) = some (l, t) := by
  rw [cut, search_of_free t hfree, Option.map_some]
  have : (l ++ pat ++ t).drop (l.length + pat.length) = t := by
    rw [← List.length_append, List.drop_left]
  rw [this, List.append_assoc, List.take_left]

/-- The part before the cut, even with the pattern's head in front of it, has no
    occurrence of the pattern. -/
theorem cut_free {pat s l r : List α} (hne : pat ≠ []) (h : cut pat s = some (l, r)) :
    ¬ pat <:+: l ++ pat.dropLast := by
  intro hin
  -- an earlier occurrence would have been found, and the cut would lie before it
  obtain ⟨k, hk⟩ : ∃ k, search pat (l ++ pat.dropLast) = some k := by
    cases hs : search pat (l ++ pat.dropLast) with
    | none => exact absurd hin (search_eq_none_iff.mp hs)
    | some k => exact ⟨k, rfl⟩
  have hle := search_le hk
  have hs : s = (l ++ pat.dropLast) ++ ([pat.getLast hne] ++ r) := by
    -- the last element of the pattern is cut off, with what follows it
    rw [cut_eq h]
    conv_lhs => rw [← List.dropLast_append_getLast hne]
    simp
  obtain ⟨j, hj, heq⟩ := Option.map_eq_some_iff.mp h
  have hj' : search pat s = some k := by rw [hs]; exact search_append _ hk
  -- both are the first occurrence in `s`
  obtain rfl : j = k := by simpa [hj] using hj'
  have hl : l.length = j := by
    rw [← (Prod.mk.inj heq).1, List.length_take]
    have := search_le hj
    omega
  have hpos := List.length_pos_of_ne_nil hne
  simp only [List.length_append, List.length_dropLast] at hle
  omega

/-- The pattern in front. -/
theorem cut_self {pat : List α} (t : List α) : cut pat (pat ++ t) = some ([], t) := by
  have hsearch : search pat (pat ++ t) = some 0 := by
    cases h : pat ++ t with
    | nil =>
      have hnil : pat = [] := (List.append_eq_nil_iff.mp h).1
      simp [search, hnil]
    | cons x xs =>
      have hpre : pat <+: x :: xs := h ▸ List.prefix_append pat t
      simp [search, List.isPrefixOf_iff_prefix, hpre]
  rw [cut, hsearch]
  simp

/-- An element at which the pattern does not begin. -/
theorem cut_cons {pat xs : List α} {x : α} (h : ¬pat <+: x :: xs) :
    cut pat (x :: xs) = (cut pat xs).map fun y => (x :: y.1, y.2) := by
  have hnot : ¬pat.isPrefixOf (x :: xs) = true := fun hp => h (List.isPrefixOf_iff_prefix.mp hp)
  rw [cut, cut, search, if_neg hnot]
  cases search pat xs with
  | none => rfl
  | some k =>
    have hsum : k + 1 + pat.length = k + pat.length + 1 := by omega
    simp [hsum]

/-- A part that does not contain the pattern's first element. -/
theorem cut_skip {c : α} {p l : List α} (h : c ∉ l) (s : List α) :
    cut (c :: p) (l ++ s) = (cut (c :: p) s).map fun y => (l ++ y.1, y.2) := by
  induction l with
  | nil => simp
  | cons x l ih =>
    obtain ⟨hx, hl⟩ : c ≠ x ∧ c ∉ l := by simpa using h
    have hnot : ¬c :: p <+: x :: (l ++ s) := by
      rintro ⟨t, ht⟩
      exact hx (List.cons.inj ht).1
    rw [List.cons_append, cut_cons hnot, ih hl]
    cases cut (c :: p) s with
    | none => rfl
    | some y => rfl

/-- A list is cut at the first of its delimiters. -/
theorem cut_delimiter {c : α} {l : List α} (h : c ∉ l) (s : List α) :
    cut [c] (l ++ c :: s) = some (l, s) := by
  have hself : cut [c] (c :: s) = some ([], s) := cut_self s
  rw [cut_skip h, hself]
  simp

/-! ## Parts free of a pattern -/

omit [DecidableEq α] in
/-- A separator that the pattern does not contain keeps the pattern on one side. -/
theorem infix_append_cons {pat x y : List α} {sep : α} (hsep : sep ∉ pat)
    (h : pat <:+: x ++ sep :: y) : pat <:+: x ∨ pat <:+: y := by
  rcases List.infix_append_iff.mp h with h | h | ⟨p, q, rfl, hp, hq⟩
  · exact Or.inl h
  · rcases List.infix_cons_iff.mp h with h | h
    · cases pat with
      | nil => exact Or.inl (List.nil_infix)
      | cons a p =>
        obtain ⟨t, ht⟩ := h
        simp only [List.cons_append, List.cons.injEq] at ht
        -- the pattern would begin with the separator
        exact absurd (ht.1 ▸ List.mem_cons_self) hsep
    · exact Or.inr h
  · cases q with
    | nil => exact Or.inl (by simpa using hp.isInfix)
    | cons a q =>
      obtain ⟨t, ht⟩ := hq
      simp only [List.cons_append, List.cons.injEq] at ht
      -- an occurrence across it contains the separator
      exact absurd (by simp [ht.1]) hsep

omit [DecidableEq α] in
/-- For a pattern of two different elements its first one may end the part. -/
theorem pair_infix_concat {a b : α} {l : List α} (hab : a ≠ b)
    (h : [a, b] <:+: l ++ [a]) : [a, b] <:+: l := by
  rcases List.infix_concat_iff.mp h with h | h
  · rw [List.suffix_concat_iff] at h
    rcases h with h | ⟨t, ht, -⟩
    · simp at h
    · have := congrArg List.getLast? ht
      simp at this
      -- an occurrence at the end would end in `a`
      exact absurd this.symm hab
  · exact h

/-- What stands in front of the first `c`, and what behind it, is determined by the list. -/
theorem append_cons_inj {c : α} {a a' b b' : List α} (ha : c ∉ a) (ha' : c ∉ a')
    (h : a ++ c :: b = a' ++ c :: b') : a = a' ∧ b = b' := by
  have hlen : a.length = a'.length := by
    have hidx := congrArg (List.idxOf c) h
    simpa [List.idxOf_append_of_notMem ha, List.idxOf_append_of_notMem ha'] using hidx
  obtain ⟨rfl, htail⟩ := List.append_inj h hlen
  exact ⟨rfl, (List.cons.inj htail).2⟩

end LearnMuduo.Lib
