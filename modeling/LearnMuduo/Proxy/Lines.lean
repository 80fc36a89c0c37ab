/-
  LearnMuduo.Proxy.Lines

  What the bytes of the clients ask the proxy for.

  A line `GET target rest` sets `path_` and `version_`, and no other line does: the path is
  the target up to its `'?'`, and the version is known when the rest is one (`asked`).  A
  line with a `'?'` behind the target and none in it throws (`Behind`).  What a client has
  sent stays in its buffer until a line asks for a known version (`unread`), so its bytes
  alone say which line each of its calls looks at (`heard`).
-/
import LearnMuduo.Proxy.Forward

namespace LearnMuduo.Proxy

open Lib

/-! ## Lines -/

/-- A path and a version. -/
structure Asked where
  path : Bytes
  version : Version
  deriving DecidableEq, Repr

/-- The target of a line whose method is GET, and what stands behind the second blank. -/
def targetLine (line : Bytes) : Option (Bytes × Bytes) :=
  match cut [SP] line with
  | none => none
  | some (method, rest) => if method = ascii "GET" then cut [SP] rest else none

def versionOf (rest : Bytes) : Version :=
  if rest = http ++ [ZERO] then .kHttp10
  else if rest = http ++ [ONE] then .kHttp11
  else .kUnknown

/-- What a line asks for, up to the `'?'`. -/
def asked (line : Bytes) : Option Asked :=
  (targetLine line).map fun p =>
    { path := p.1.takeWhile (· ≠ QUESTION), version := versionOf p.2 }

/-- The first `'?'` behind the method stands behind the target. -/
def Behind (line : Bytes) : Prop :=
  ∃ t v, targetLine line = some (t, v) ∧ QUESTION ∉ t ∧ QUESTION ∈ v

/-! ## Buffers -/

/-- The first line of a buffer, when it is complete and has an `'H'`. -/
def letterLine (buffer : Bytes) : Option Bytes :=
  match cut kCRLF buffer with
  | none => none
  | some (line, _) => if LETTER_H ∈ line then some line else none

/-- What a call asks for that finds this buffer. -/
def asks (buffer : Bytes) : Option Asked := (letterLine buffer).bind asked

/-- The first line makes `ParseRequestLine` throw. -/
def Throws (buffer : Bytes) : Prop := ∃ line, letterLine buffer = some line ∧ Behind line

/-- What a call leaves of the buffer: a request takes all along. -/
def left (buffer : Bytes) : Bytes :=
  match asks buffer with
  | none => buffer
  | some a => if a.version = .kUnknown then buffer else []

/-- What a client's chunks leave in its buffer. -/
def unread (chunks : List Bytes) : Bytes := chunks.foldl (fun held chunk => left (held ++ chunk)) []

theorem unread_concat (chunks : List Bytes) (chunk : Bytes) :
    unread (chunks ++ [chunk]) = left (unread chunks ++ chunk) := by
  rw [unread, List.foldl_concat]
  rfl

/-! ## What a line leaves -/

section Line

variable {line t v rest : Bytes}

theorem targetLine_get (rest : Bytes) : targetLine (ascii "GET" ++ SP :: rest) = cut [SP] rest := by
  have hcut : cut [SP] (ascii "GET" ++ SP :: rest) = some (ascii "GET", rest) :=
    cut_delimiter (by decide) rest
  rw [targetLine, hcut]
  exact if_pos rfl

theorem targetLine_other (h : ∀ rest, line ≠ ascii "GET" ++ SP :: rest) :
    targetLine line = none := by
  rw [targetLine]
  cases hcut : cut [SP] line with
  | none => rfl
  | some p =>
    refine if_neg fun hmethod => h p.2 ?_
    rw [cut_eq hcut, hmethod, List.append_assoc]
    rfl

theorem cut_blank_none (h : cut [SP] rest = none) : SP ∉ rest := by
  intro hin
  obtain ⟨a, b, rfl, ha⟩ := List.eq_append_cons_of_mem hin
  rw [cut_delimiter ha b] at h
  cases h

theorem cut_blank_some (h : cut [SP] rest = some (t, v)) : rest = t ++ SP :: v ∧ SP ∉ t := by
  have hrest : rest = t ++ SP :: v := (cut_eq h).trans (by simp)
  refine ⟨hrest, fun hin => ?_⟩
  -- an earlier blank would have been found
  obtain ⟨a, b, rfl, ha⟩ := List.eq_append_cons_of_mem hin
  have hearlier : cut [SP] rest = some (a, b ++ SP :: v) := by
    rw [hrest, List.append_assoc]
    exact cut_delimiter ha _
  have hlen := congrArg List.length (Prod.mk.inj (Option.some.inj (hearlier.symm.trans h))).1
  simp only [List.length_append, List.length_cons] at hlen
  omega

theorem targetLine_some (h : targetLine line = some (t, v)) :
    line = ascii "GET" ++ SP :: (t ++ SP :: v) ∧ SP ∉ t := by
  by_cases hget : ∃ rest, line = ascii "GET" ++ SP :: rest
  · obtain ⟨rest, rfl⟩ := hget
    rw [targetLine_get] at h
    obtain ⟨rfl, ht⟩ := cut_blank_some h
    exact ⟨rfl, ht⟩
  · rw [targetLine_other fun rest heq => hget ⟨rest, heq⟩] at h
    cases h

theorem takeWhile_question {path query : Bytes} (h : QUESTION ∉ path) :
    (path ++ QUESTION :: query).takeWhile (· ≠ QUESTION) = path := by
  have hpath : ∀ x ∈ path, decide (x ≠ QUESTION) = true := by
    intro x hx
    exact decide_eq_true fun heq => h (heq ▸ hx)
  rw [List.takeWhile_append_of_pos hpath, List.takeWhile_cons_of_neg (by simp), List.append_nil]

theorem takeWhile_noQuestion (h : QUESTION ∉ t) : t.takeWhile (· ≠ QUESTION) = t := by
  rw [List.takeWhile_eq_self_iff]
  intro x hx
  exact decide_eq_true fun heq => h (heq ▸ hx)

theorem versionOf_known (h : versionOf v ≠ .kUnknown) : v = http ++ [(versionOf v).digit] := by
  unfold versionOf at h ⊢
  split_ifs at h ⊢ with hzero hone
  · exact hzero
  · exact hone
  · exact absurd rfl h

theorem versionOf_known_iff : versionOf v ≠ .kUnknown ↔ HttpRequest.IsVersion v := by
  unfold versionOf HttpRequest.IsVersion
  split_ifs <;> simp_all

end Line

/-! ## The parser -/

namespace Statics

/-- What the variables say. -/
def asked (s : Statics) : Asked := { path := s.path_, version := s.version_ }

@[simp] theorem asked_path (s : Statics) : s.asked.path = s.path_ := rfl

@[simp] theorem asked_version (s : Statics) : s.asked.version = s.version_ := rfl

variable {s : Statics} {line pre t v : Bytes}

/-- What the parser of Http/httpRequest.cc returns is returned here. -/
theorem exists_of_onto {r r' : HttpRequest} {x : Except Fault Statics}
    (h : (x.map fun s => s.onto r) = .ok r') : ∃ s', x = .ok s' ∧ s'.onto r = r' := by
  cases x with
  | error e => cases h
  | ok s' => exact ⟨s', rfl, Except.ok.inj h⟩

theorem assignTarget_asked (s : Statics) (h : QUESTION ∈ v → QUESTION ∈ t) :
    ∃ s', s.assignTarget (pre ++ t ++ SP :: v) pre.length (pre.length + t.length) = .ok s' ∧
      s'.path_ = t.takeWhile (· ≠ QUESTION) := by
  have hhttp := @assignTarget_http s HttpRequest.new (pre ++ t ++ SP :: v) pre.length
    (pre.length + t.length)
  by_cases ht : QUESTION ∈ t
  · obtain ⟨path, query, rfl, hpath⟩ := List.eq_append_cons_of_mem ht
    rw [HttpRequest.assignTarget_query _ hpath] at hhttp
    obtain ⟨s', hs', honto⟩ := exists_of_onto hhttp.symm
    refine ⟨s', hs', ?_⟩
    rw [takeWhile_question hpath]
    exact congrArg HttpRequest.path_ honto
  · have hsp : QUESTION ≠ SP := by decide
    have hv : QUESTION ∉ v := fun hv => ht (h hv)
    rw [HttpRequest.assignTarget_path _ (by simp [ht, hv, hsp])] at hhttp
    obtain ⟨s', hs', honto⟩ := exists_of_onto hhttp.symm
    refine ⟨s', hs', ?_⟩
    rw [takeWhile_noQuestion ht]
    exact congrArg HttpRequest.path_ honto

theorem assignTarget_throws (s : Statics) (ht : QUESTION ∉ t) (hv : QUESTION ∈ v) :
    s.assignTarget (pre ++ t ++ SP :: v) pre.length (pre.length + t.length)
      = .error .lengthError := by
  have hhttp := @assignTarget_http s HttpRequest.new (pre ++ t ++ SP :: v) pre.length
    (pre.length + t.length)
  rw [HttpRequest.assignTarget_behind _ ht hv] at hhttp
  cases hs : s.assignTarget (pre ++ t ++ SP :: v) pre.length (pre.length + t.length) with
  | error e =>
    rw [hs] at hhttp
    exact congrArg Except.error (Except.error.inj hhttp).symm
  | ok s' =>
    rw [hs] at hhttp
    cases hhttp

theorem parseVersion_unknown {start : Nat} (h : (s.parseVersion line start).1 = false) :
    (s.parseVersion line start).2 = { s with version_ := .kUnknown } := by
  simp only [parseVersion] at h ⊢
  split_ifs at h ⊢
  rfl

theorem parseVersion_asked (s : Statics) (pre v : Bytes) :
    ((s.parseVersion (pre ++ v) pre.length).1 = true ↔ versionOf v ≠ .kUnknown) ∧
      (s.parseVersion (pre ++ v) pre.length).2.asked
        = { path := s.path_, version := versionOf v } := by
  have hhttp := @parseVersion_http s HttpRequest.new (pre ++ v) pre.length
  have hverdict : (s.parseVersion (pre ++ v) pre.length).1 = true ↔ versionOf v ≠ .kUnknown := by
    rw [versionOf_known_iff, ← HttpRequest.parseVersion_fst_iff (s.onto HttpRequest.new), hhttp]
  refine ⟨hverdict, ?_⟩
  by_cases hknown : versionOf v = .kUnknown
  · -- a refused version is stored as unknown
    have hfalse : (s.parseVersion (pre ++ v) pre.length).1 = false := by
      rw [← Bool.not_eq_true, hverdict]
      exact not_not.mpr hknown
    rw [parseVersion_unknown hfalse, hknown, asked]
  · have hdigit := HttpRequest.parseVersion_digit (s.onto HttpRequest.new) pre hknown
    rw [← versionOf_known hknown, hhttp] at hdigit
    have honto := (Prod.mk.inj hdigit).2
    rw [asked, Asked.mk.injEq]
    exact ⟨congrArg HttpRequest.path_ honto,
      Option.some.inj (congrArg HttpRequest.version_ honto)⟩

/-- A line of the method GET with the two blanks throws, or it is read as `asked` says. -/
theorem ParseRequestLine_parts (s : Statics) (ht : SP ∉ t) :
    (QUESTION ∉ t ∧ QUESTION ∈ v ∧
      s.ParseRequestLine (ascii "GET" ++ SP :: (t ++ SP :: v)) = .error .lengthError) ∨
    ((QUESTION ∈ v → QUESTION ∈ t) ∧ ∃ ok s',
      s.ParseRequestLine (ascii "GET" ++ SP :: (t ++ SP :: v)) = .ok (ok, s') ∧
        s'.asked = { path := t.takeWhile (· ≠ QUESTION), version := versionOf v } ∧
        (ok = true ↔ versionOf v ≠ .kUnknown)) := by
  obtain ⟨hfind, hne, hline, hlen⟩ := @HttpRequest.targetBlank (ascii "GET" ++ [SP]) t v ht
  rw [ParseRequestLine_get, ← List.append_assoc]
  simp only [parseTarget, hfind, if_neg hne]
  -- a `'?'` behind the target is no harm when one stands in the target
  by_cases h : QUESTION ∈ v → QUESTION ∈ t
  · right
    obtain ⟨s', htarget, hpath⟩ := @assignTarget_asked (ascii "GET" ++ [SP]) t v
      { s with method_ := .kGet } h
    obtain ⟨hverdict, hasked⟩ := parseVersion_asked s' (ascii "GET" ++ [SP] ++ t ++ [SP]) v
    rw [hline, hlen] at hverdict hasked
    rw [htarget, ok_then]
    exact ⟨h, _, _, rfl, hpath ▸ hasked, hverdict⟩
  · left
    obtain ⟨hv, hnot⟩ := Classical.not_imp.mp h
    rw [assignTarget_throws _ hnot hv]
    exact ⟨hnot, hv, rfl⟩

/-- Without the two blanks or with another method nothing is kept. -/
theorem ParseRequestLine_noTarget (s : Statics) (h : targetLine line = none) :
    ∃ s', s.ParseRequestLine line = .ok (false, s') ∧ s'.asked = s.asked := by
  by_cases hget : ∃ rest, line = ascii "GET" ++ SP :: rest
  · -- the second blank is missing
    obtain ⟨rest, rfl⟩ := hget
    rw [targetLine_get] at h
    refine ⟨{ s with method_ := .kGet }, ?_, rfl⟩
    rw [ParseRequestLine_get, parseTarget, HttpRequest.stdFind_of_notMem (cut_blank_none h)]
    exact if_pos rfl
  · obtain ⟨method, hparse⟩ := ParseRequestLine_other s fun rest heq => hget ⟨rest, heq⟩
    exact ⟨_, hparse, rfl⟩

end Statics

/-- The parser throws at a line, or the line leaves in the variables what it asks for, and it
    is accepted when that has a known version. -/
theorem ParseRequestLine_asked (s : Statics) (line : Bytes) :
    (Behind line ∧ s.ParseRequestLine line = .error .lengthError) ∨
    (¬Behind line ∧ ∃ ok s', s.ParseRequestLine line = .ok (ok, s') ∧
      s'.asked = (asked line).getD s.asked ∧
      (ok = true ↔ ∃ a, asked line = some a ∧ a.version ≠ .kUnknown)) := by
  cases hline : targetLine line with
  | none =>
    have hnothing : asked line = none := by
      rw [asked, hline, Option.map_none]
    obtain ⟨s', hparse, hsame⟩ := s.ParseRequestLine_noTarget hline
    refine Or.inr ⟨?_, false, s', hparse, ?_, ?_⟩
    · rintro ⟨t, v, hparts, -⟩
      rw [hline] at hparts
      cases hparts
    · rw [hnothing, hsame, Option.getD_none]
    · rw [hnothing]
      simp
  | some p =>
    obtain ⟨t, v⟩ := p
    obtain ⟨rfl, ht⟩ := targetLine_some hline
    have hsomething : asked (ascii "GET" ++ SP :: (t ++ SP :: v))
        = some { path := t.takeWhile (· ≠ QUESTION), version := versionOf v } := by
      rw [asked, hline, Option.map_some]
    rcases s.ParseRequestLine_parts ht (v := v) with ⟨hnot, hv, hthrows⟩ | ⟨himp, hreturns⟩
    · exact Or.inl ⟨⟨t, v, hline, hnot, hv⟩, hthrows⟩
    · obtain ⟨ok, s', hparse, hasked, hverdict⟩ := hreturns
      refine Or.inr ⟨?_, ok, s', hparse, ?_, ?_⟩
      · rintro ⟨t', v', hparts, hnot, hv⟩
        obtain ⟨rfl, rfl⟩ := Prod.mk.inj (Option.some.inj (hline.symm.trans hparts))
        exact hnot (himp hv)
      · rw [hsomething, hasked, Option.getD_some]
      · simp [hsomething, hverdict]

/-! ## The calls -/

section Calls

variable {cache : Cache} {s : Statics} {buffer line rest : Bytes}

theorem letterLine_none (hcut : cut kCRLF buffer = none) : letterLine buffer = none := by
  rw [letterLine, hcut]

theorem letterLine_blank (hcut : cut kCRLF buffer = some (line, rest)) (h : LETTER_H ∉ line) :
    letterLine buffer = none := by
  rw [letterLine, hcut]
  exact if_neg h

theorem letterLine_letter (hcut : cut kCRLF buffer = some (line, rest)) (h : LETTER_H ∈ line) :
    letterLine buffer = some line := by
  rw [letterLine, hcut]
  exact if_pos h

/-- Without a line that has an `'H'` the variables and the buffer stay as they are. -/
theorem onServerMessage_noLetter (cache : Cache) (s : Statics) (h : letterLine buffer = none) :
    ∃ outs, onServerMessage cache s buffer = .ok (outs, s, buffer) := by
  cases hcut : cut kCRLF buffer with
  | none => exact ⟨errorReply, by simp [onServerMessage, Statics.ParseRequest, hcut]⟩
  | some parts =>
    obtain ⟨line, rest⟩ := parts
    have hblank : LETTER_H ∉ line := by
      intro hin
      rw [letterLine_letter hcut hin] at h
      cases h
    exact ⟨_, onServerMessage_blank cache s ⟨line, rest, hcut, hblank⟩⟩

theorem onServerMessage_letter (cache : Cache) (s : Statics) (h : letterLine buffer = some line) :
    onServerMessage cache s buffer = s.ParseRequestLine line >>= fun r =>
      if r.1 then .ok ([], r.2, []) else .ok (errorReply, r.2, buffer) := by
  cases hcut : cut kCRLF buffer with
  | none =>
    rw [letterLine_none hcut] at h
    cases h
  | some parts =>
    obtain ⟨first, rest⟩ := parts
    by_cases hletter : LETTER_H ∈ first
    · obtain rfl := Option.some.inj ((letterLine_letter hcut hletter).symm.trans h)
      simp only [onServerMessage, Statics.ParseRequest, hcut, hletter, if_true]
      cases s.ParseRequestLine first with
      | error e => rfl
      | ok r =>
        obtain ⟨ok, s'⟩ := r
        cases ok <;> rfl
    · rw [letterLine_blank hcut hletter] at h
      cases h

/-- A call throws, or it leaves the buffer and the variables as the bytes in the buffer say. -/
theorem onServerMessage_asks (cache : Cache) (s : Statics) (buffer : Bytes) :
    (Throws buffer ∧ onServerMessage cache s buffer = .error .lengthError) ∨
    (¬Throws buffer ∧ ∃ outs s', onServerMessage cache s buffer = .ok (outs, s', left buffer) ∧
      s'.asked = (asks buffer).getD s.asked) := by
  cases hletter : letterLine buffer with
  | none =>
    have hasks : asks buffer = none := by rw [asks, hletter, Option.bind_none]
    obtain ⟨outs, hmessage⟩ := onServerMessage_noLetter cache s hletter
    refine Or.inr ⟨?_, outs, s, ?_, by rw [hasks, Option.getD_none]⟩
    · rintro ⟨line, hline, -⟩
      rw [hletter] at hline
      cases hline
    · rw [hmessage, left, hasks]
  | some line =>
    have hasks : asks buffer = asked line := by rw [asks, hletter, Option.bind_some]
    have hthrows : Throws buffer ↔ Behind line := by simp [Throws, hletter]
    rw [onServerMessage_letter cache s hletter, hthrows, left, hasks]
    rcases ParseRequestLine_asked s line with
      ⟨hbehind, hparse⟩ | ⟨hnot, ok, s', hparse, hasked, hok⟩
    · rw [hparse]
      exact Or.inl ⟨hbehind, rfl⟩
    · refine Or.inr ⟨hnot, ?_⟩
      rw [hparse, ok_then]
      -- the buffer is emptied when the line is accepted
      cases ok with
      | false =>
        refine ⟨errorReply, s', ?_, hasked⟩
        cases ha : asked line with
        | none => rfl
        | some a =>
          have hunknown : a.version = .kUnknown := by
            by_contra hknown
            exact Bool.false_ne_true (hok.mpr ⟨a, ha, hknown⟩)
          simp [hunknown]
      | true =>
        obtain ⟨a, ha, hknown⟩ := hok.mp rfl
        exact ⟨[], s', by simp [ha, hknown], hasked⟩

end Calls

end LearnMuduo.Proxy
