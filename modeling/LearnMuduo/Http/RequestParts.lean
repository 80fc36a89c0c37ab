/-
  LearnMuduo.Http.RequestParts

  What `ParseRequestLine` accepts and what it then has read.

  `Parts line method t version` says that the line is the method, a blank, the target, a
  blank and the spelling of the version.  A line has at most one such reading; the parser
  answers `true` exactly on the lines that have one, and what it assigns is that reading,
  with the target cut at its first `'?'` (`ParseRequestLine_accepts_iff`).
-/
import LearnMuduo.Http.RequestLine

namespace LearnMuduo

open Lib

/-- The two versions the parser knows, and how they are written. -/
inductive Version.Spelled : Version → Bytes → Prop where
  | http10 : Spelled .kHttp10 (ascii "HTTP/1.0")
  | http11 : Spelled .kHttp11 (ascii "HTTP/1.1")

/-- The target `t` is the path and, behind the first `'?'`, the query. -/
structure TargetParts (t path query : Bytes) : Prop where
  path_question : QUESTION ∉ path
  whole : QUESTION ∉ t → path = t
  cut : QUESTION ∈ t → t = path ++ QUESTION :: query

namespace HttpRequest

/-- `line = method ' ' t ' ' version`. -/
structure Parts (line : Bytes) (method : Method) (t : Bytes) (version : Version) : Prop where
  blanks : ∃ v, version.Spelled v ∧ line = method.name ++ SP :: (t ++ SP :: v)
  target_sp : SP ∉ t

section Versions

variable {version : Version} {v : Bytes}

theorem spelled_digit (h : version.Spelled v) :
    version ≠ .kUnknown ∧ v = http ++ [version.digit] := by
  cases h with
  | http10 => exact ⟨by decide, rfl⟩
  | http11 => exact ⟨by decide, rfl⟩

theorem isVersion_iff_spelled : IsVersion v ↔ ∃ version : Version, version.Spelled v := by
  constructor
  · intro h
    rcases h with rfl | rfl
    · exact ⟨.kHttp10, .http10⟩
    · exact ⟨.kHttp11, .http11⟩
  · rintro ⟨version, h⟩
    cases h with
    | http10 => exact Or.inl rfl
    | http11 => exact Or.inr rfl

theorem spelled_question (h : version.Spelled v) : QUESTION ∉ SP :: v := by
  cases h with
  | http10 => decide
  | http11 => decide

end Versions

theorem wellFormed_iff_parts {line : Bytes} :
    WellFormed line ↔ ∃ method t version, Parts line method t version := by
  constructor
  · rintro ⟨method, t, v, hline, ht, hv⟩
    obtain ⟨version, hspelled⟩ := isVersion_iff_spelled.mp hv
    exact ⟨method, t, version, ⟨v, hspelled, hline⟩, ht⟩
  · rintro ⟨method, t, version, ⟨v, hspelled, hline⟩, ht⟩
    exact ⟨method, t, v, hline, ht, isVersion_iff_spelled.mpr ⟨version, hspelled⟩⟩

section Values

variable {t v pre rest : Bytes}

/-- The path and the query of a target with no `'?'` behind it. -/
theorem assignTarget_parts (r : HttpRequest) (hrest : QUESTION ∉ rest) :
    ∃ path query, TargetParts t path query ∧
      r.assignTarget (pre ++ t ++ rest) pre.length (pre.length + t.length)
        = .ok { r with path_ := path, query_ := query } := by
  by_cases hq : QUESTION ∈ t
  · obtain ⟨path, query, rfl, hpath⟩ := List.eq_append_cons_of_mem hq
    exact ⟨path, query, ⟨hpath, fun hnot => absurd hq hnot, fun _ => rfl⟩,
      assignTarget_query r hpath⟩
  · -- the query of an earlier request stays
    exact ⟨t, r.query_, ⟨hq, fun _ => rfl, fun hin => absurd hin hq⟩,
      assignTarget_path r (by simp [hq, hrest])⟩

/-- What the parser does with a line that has parts. -/
theorem Parts.parsed {line : Bytes} {method : Method} {version : Version}
    (h : Parts line method t version) (r : HttpRequest) :
    ∃ path query, TargetParts t path query ∧ r.ParseRequestLine line = .ok (true, { r with
      method_ := some method, version_ := some version, path_ := path, query_ := query }) := by
  obtain ⟨⟨v, hspelled, rfl⟩, ht⟩ := h
  obtain ⟨hknown, hv⟩ := spelled_digit hspelled
  obtain ⟨path, query, hparts, htarget⟩ := @assignTarget_parts t (method.name ++ [SP]) (SP :: v)
    { r with method_ := some method } (spelled_question hspelled)
  refine ⟨path, query, hparts, ?_⟩
  rw [ParseRequestLine_known, parseTarget_blank _ ht, htarget, ok_then, hv,
    parseVersion_digit _ _ hknown]

end Values

/-- Where it returns, the parser answers `true` exactly for the lines that have parts, and
    then it has read their method, version, path and query. -/
theorem ParseRequestLine_accepts_iff {r r' : HttpRequest} {line : Bytes} {ok : Bool}
    (h : r.ParseRequestLine line = .ok (ok, r')) :
    (ok = true ↔ ∃ method t version, Parts line method t version) ∧
    ∀ method t version, Parts line method t version →
      r'.method_ = some method ∧ r'.version_ = some version ∧ QUESTION ∉ r'.path_ ∧
      (QUESTION ∉ t → r'.path_ = t) ∧ (QUESTION ∈ t → t = r'.path_ ++ QUESTION :: r'.query_) := by
  constructor
  · rw [← wellFormed_iff_parts]
    rcases ParseRequestLine_outcome r line with ⟨-, hthrows⟩ | ⟨-, ok', r'', hok, hiff⟩
    · rw [h] at hthrows
      cases hthrows
    · rw [h] at hok
      obtain ⟨rfl, -⟩ := Prod.mk.inj (Except.ok.inj hok)
      exact hiff
  · intro method t version hparts
    obtain ⟨path, query, htarget, hok⟩ := hparts.parsed r
    rw [h] at hok
    obtain ⟨-, rfl⟩ := Prod.mk.inj (Except.ok.inj hok)
    exact ⟨rfl, rfl, htarget.path_question, htarget.whole, htarget.cut⟩

theorem ParseRequestLine_accepts_iff_example :
    (∃ method t version, Parts (ascii "GET /a?b HTTP/1.1") method t version) ∧
      ascii "/a?b" = ascii "/a" ++ QUESTION :: ascii "b" := by
  have haccepts := @ParseRequestLine_accepts_iff HttpRequest.new { HttpRequest.new with
    method_ := some .kGet, version_ := some .kHttp11, path_ := ascii "/a", query_ := ascii "b" }
    (ascii "GET /a?b HTTP/1.1") true rfl
  have hparts : Parts (ascii "GET /a?b HTTP/1.1") .kGet (ascii "/a?b") .kHttp11 :=
    ⟨⟨ascii "HTTP/1.1", .http11, by decide⟩, by decide⟩
  exact ⟨haccepts.1.mp rfl, (haccepts.2 _ _ _ hparts).2.2.2.2 (by decide)⟩

end HttpRequest

end LearnMuduo
