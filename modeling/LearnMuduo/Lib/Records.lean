/-
  LearnMuduo.Lib.Records

  Chunks that hold whole records.

  A record is a list of symbols, a chunk the concatenation of some records.  `Holds` says
  that the chunks, one after the other, hold these records and no part of another one.
  Cutting a sequence of chunks cuts the records between two of them; dropping chunks
  drops records.
-/
import Mathlib.Data.List.Basic

namespace LearnMuduo.Lib

variable {β : Type*}

def Holds (chunks records : List (List β)) : Prop :=
  ∃ parts : List (List (List β)), parts.map List.flatten = chunks ∧ parts.flatten = records

theorem holds_empty : Holds ([[]] : List (List β)) [] := ⟨[[]], rfl, rfl⟩

variable {c c' d x m : List (List β)}

theorem Holds.flatten (h : Holds c m) : c.flatten = m.flatten := by
  obtain ⟨parts, rfl, rfl⟩ := h
  exact List.flatten_flatten.symm

theorem Holds.append {m' : List (List β)} (h : Holds c m) (h' : Holds d m') :
    Holds (c ++ d) (m ++ m') := by
  obtain ⟨parts, rfl, rfl⟩ := h
  obtain ⟨parts', rfl, rfl⟩ := h'
  exact ⟨parts ++ parts', List.map_append, List.flatten_append⟩

/-- The records are cut between the chunks. -/
theorem Holds.split (h : Holds (c ++ d) m) : ∃ m₁ m₂, Holds c m₁ ∧ Holds d m₂ ∧ m = m₁ ++ m₂ := by
  obtain ⟨parts, hparts, rfl⟩ := h
  obtain ⟨p, r, rfl, hp, hr⟩ := List.map_eq_append_iff.mp hparts
  exact ⟨p.flatten, r.flatten, ⟨p, hp, rfl⟩, ⟨r, hr, rfl⟩, List.flatten_append⟩

theorem Holds.singleton {chunk : List β} (h : Holds [chunk] m) : chunk = m.flatten := by
  rw [← h.flatten, List.flatten_singleton]

/-- One more record at the end of the last chunk. -/
theorem Holds.record {chunk r : List β} (h : Holds (c ++ [chunk]) m) :
    Holds (c ++ [chunk ++ r]) (m ++ [r]) := by
  obtain ⟨m₁, m₂, h₁, h₂, rfl⟩ := h.split
  have hlast : Holds [chunk ++ r] (m₂ ++ [r]) := by
    refine ⟨[m₂ ++ [r]], ?_, List.flatten_singleton⟩
    rw [List.map_singleton, List.flatten_append, List.flatten_singleton, h₂.singleton]
  rw [List.append_assoc]
  exact h₁.append hlast

/-- The chunks that are left hold the records that are left. -/
theorem Holds.sublist (h : Holds c m) (hsub : c'.Sublist c) : ∃ m', Holds c' m' ∧ m'.Sublist m := by
  induction hsub generalizing m with
  | slnil => exact ⟨m, h, List.Sublist.refl m⟩
  | cons chunk _ ih =>
    obtain ⟨m₁, m₂, -, h₂, rfl⟩ := Holds.split (c := [chunk]) h
    obtain ⟨m', hm', hsub⟩ := ih h₂
    exact ⟨m', hm', hsub.trans (List.sublist_append_right m₁ m₂)⟩
  | cons_cons chunk _ ih =>
    obtain ⟨m₁, m₂, h₁, h₂, rfl⟩ := Holds.split (c := [chunk]) h
    obtain ⟨m', hm', hsub⟩ := ih h₂
    exact ⟨m₁ ++ m', h₁.append hm', hsub.append_left m₁⟩

end LearnMuduo.Lib
