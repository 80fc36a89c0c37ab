/-
  LearnMuduo.Http.LineState

  `HttpRequest::ParseRequestLine(start, end, state)`, the overload for a state machine,
  beside the one that returns a `bool`.

  They cut a line the same way.  The state overload looks for the version anywhere behind
  the second blank, and two of its error exits compare `state` with `kParseErrno` where
  they should set it.  So the two differ on the lines with no second blank, and on those
  with `"HTTP/1."` behind it but no version alone (`lineParsers_agree_iff`).
-/
import LearnMuduo.Http.HttpContent
import LearnMuduo.Http.RequestLine
import LearnMuduo.Lib.Search

namespace LearnMuduo

open Lib

/-- `std::search(line + first, line + last, pattern)`. -/
def stdSearch (line : Bytes) (first last : Nat) (pattern : Bytes) : Nat :=
  ((search pattern (chars line first last)).map (first + ·)).getD last

namespace HttpRequest

/-- The version of the state overload, from `start` to the end of the line, behind which the
    byte `behind` stands. -/
def searchVersion (r : HttpRequest) (line : Bytes) (behind : Byte) (start : Nat)
    (state : HttpRequestParseState) : HttpRequest × HttpRequestParseState :=
  let httpLen := http.length
  let httpindex := stdSearch line start line.length http
  if httpindex = line.length then (r, .kParseErrno)
  else
    let chr := (line ++ [behind]).getD (httpindex + httpLen) 0
    if httpindex + httpLen + 1 = line.length ∧ (chr = ONE ∨ chr = ZERO) then
      ({ r with version_ := some (if chr = ZERO then .kHttp10 else .kHttp11) },
        .kParseRequestHeader)
    else (r, state)

/-- The state overload behind the method's blank; without a second one `state` is only
    compared. -/
def targetState (r : HttpRequest) (line : Bytes) (behind : Byte) (start : Nat)
    (state : HttpRequestParseState) : Except Fault (HttpRequest × HttpRequestParseState) :=
  let space := stdFind line start line.length SP
  if space = line.length then .ok (r, state)
  else r.assignTarget line start space >>= fun r =>
    .ok (r.searchVersion line behind (space + 1) state)

/-- `ParseRequestLine(start, end, state)`. -/
def ParseRequestLineState (r : HttpRequest) (line : Bytes) (behind : Byte)
    (state : HttpRequestParseState) : Except Fault (HttpRequest × HttpRequestParseState) :=
  let space1 := stdFind line 0 line.length SP
  if space1 = line.length then .ok (r, .kParseErrno)
  else
    match r.ParseRequestMethod (chars line 0 space1) with
    | (false, r) => .ok (r, .kParseErrno)
    | (true, r) => r.targetState line behind (space1 + 1) state

/-- Both accept, with the same request read, or both reject. -/
def Agree (ok : Bool) (r r' : HttpRequest) (state : HttpRequestParseState) : Prop :=
  (state = .kParseRequestHeader ↔ ok = true) ∧
    (ok = true → r'.method_ = r.method_ ∧ r'.path_ = r.path_ ∧ r'.query_ = r.query_ ∧
      r'.version_ = r.version_) ∧
    (ok = false → state = .kParseErrno)

/-- A known method and a blank, and no other blank. -/
def OneBlank (line : Bytes) : Prop :=
  ∃ (method : Method) (s : Bytes), line = method.name ++ SP :: s ∧ SP ∉ s

/-- Behind the second blank stands `"HTTP/1."`, but not a version and nothing else. -/
def StrayVersion : Bytes → Prop := HasParts fun _ v => http <:+: v ∧ ¬IsVersion v

/-! ## The version -/

section Version

variable {pre v : Bytes} {behind : Byte} {state : HttpRequestParseState}

theorem chars_rest : chars (pre ++ v) pre.length (pre ++ v).length = v := by
  rw [chars, slice, List.drop_left, List.length_append, Nat.add_sub_cancel_left, List.take_length]

theorem stdSearch_none (h : ¬http <:+: v) :
    stdSearch (pre ++ v) pre.length (pre ++ v).length http = (pre ++ v).length := by
  rw [stdSearch, chars_rest, search_eq_none_iff.mpr h]
  rfl

theorem searchVersion_none (r : HttpRequest) (h : ¬http <:+: v) :
    r.searchVersion (pre ++ v) behind pre.length state = (r, .kParseErrno) :=
  if_pos (stdSearch_none h)

/-- Once `"HTTP/1."` is found the error state is not set. -/
theorem searchVersion_found (r : HttpRequest) (h : http <:+: v) :
    (r.searchVersion (pre ++ v) behind pre.length state).2 = .kParseRequestHeader ∨
      (r.searchVersion (pre ++ v) behind pre.length state).2 = state := by
  obtain ⟨k, hk⟩ : ∃ k, search http v = some k := by
    rw [← Option.ne_none_iff_exists']
    exact fun hnone => search_eq_none_iff.mp hnone h
  have hle := search_le hk
  have hseven : http.length = 7 := rfl
  have hindex : stdSearch (pre ++ v) pre.length (pre ++ v).length http = pre.length + k := by
    rw [stdSearch, chars_rest, hk]
    rfl
  have hinside : pre.length + k ≠ (pre ++ v).length := by
    rw [List.length_append]
    omega
  rw [searchVersion, hindex, if_neg hinside]
  dsimp only
  split
  · exact Or.inl rfl
  · exact Or.inr rfl

/-- A version and nothing else is read as `parseVersion` reads it. -/
theorem searchVersion_version (r : HttpRequest) (h : IsVersion v) :
    r.searchVersion (pre ++ v) behind pre.length state =
      ((r.parseVersion (pre ++ v) pre.length).2, .kParseRequestHeader) := by
  obtain ⟨version, hknown, rfl⟩ := h.digit
  have hfree : ¬http <:+: [] ++ http.dropLast := by decide
  have hsearch : search http (http ++ [version.digit]) = some 0 :=
    search_of_free [version.digit] hfree
  have hindex : stdSearch (pre ++ (http ++ [version.digit])) pre.length
      (pre ++ (http ++ [version.digit])).length http = pre.length := by
    rw [stdSearch, chars_rest, hsearch]
    rfl
  have hlen : pre.length + http.length + 1 = (pre ++ (http ++ [version.digit])).length := by
    rw [List.length_append, List.length_append]
    rfl
  have hinside : pre.length ≠ (pre ++ (http ++ [version.digit])).length := by omega
  have hchr : (pre ++ (http ++ [version.digit]) ++ [behind]).getD (pre.length + http.length) 0 =
      version.digit := by
    rw [← List.append_assoc, List.append_assoc, ← List.length_append]
    simp
  rw [parseVersion_digit r pre hknown, searchVersion, hindex, if_neg hinside, hchr]
  cases version with
  | kUnknown => exact absurd rfl hknown
  | kHttp10 => exact if_pos ⟨hlen, Or.inr rfl⟩
  | kHttp11 => exact if_pos ⟨hlen, Or.inl rfl⟩

end Version

/-! ## The line -/

section Line

variable {m t s v : Bytes} {behind : Byte} {state : HttpRequestParseState}

theorem ParseRequestLineState_noBlank (r : HttpRequest) {line : Bytes} (h : SP ∉ line) :
    r.ParseRequestLineState line behind state = .ok (r, .kParseErrno) := by
  have hfind := @stdFind_of_notMem [] line SP h
  simp only [List.nil_append, List.length_nil] at hfind
  simp only [ParseRequestLineState, hfind, if_true]

theorem ParseRequestLineState_unknown (r : HttpRequest) (hm : SP ∉ m) (h : UnknownMethod m) :
    r.ParseRequestLineState (m ++ SP :: s) behind state = .ok (r, .kParseErrno) := by
  obtain ⟨hfind, hne, hchars⟩ := @methodBlank m s hm
  simp only [ParseRequestLineState, hfind, if_neg hne, hchars, ParseRequestMethod_unknown r h]

theorem ParseRequestLineState_known (r : HttpRequest) (method : Method) :
    r.ParseRequestLineState (method.name ++ SP :: s) behind state
      = { r with method_ := some method }.targetState ((method.name ++ [SP]) ++ s) behind
          (method.name ++ [SP]).length state := by
  obtain ⟨hfind, hne, hchars⟩ := @methodBlank method.name s method.name_sp
  have hline : method.name ++ [SP] ++ s = method.name ++ SP :: s := by simp
  have hlen : (method.name ++ [SP]).length = method.name.length + 1 := by simp
  rw [hline, hlen]
  simp only [ParseRequestLineState, hfind, if_neg hne, hchars, ParseRequestMethod_name]

/-- Without a second blank `state` stays as it is. -/
theorem targetState_noBlank {pre : Bytes} (r : HttpRequest) (h : SP ∉ s) :
    r.targetState (pre ++ s) behind pre.length state = .ok (r, state) := by
  simp only [targetState, stdFind_of_notMem h, if_true]

theorem targetState_blank {pre : Bytes} (r : HttpRequest) (ht : SP ∉ t) :
    r.targetState (pre ++ (t ++ SP :: v)) behind pre.length state
      = r.assignTarget (pre ++ t ++ SP :: v) pre.length (pre.length + t.length) >>= fun r =>
          .ok (r.searchVersion ((pre ++ t ++ [SP]) ++ v) behind (pre ++ t ++ [SP]).length
            state) := by
  obtain ⟨hfind, hne, hline, hlen⟩ := @targetBlank pre t v ht
  rw [hline, hlen, ← List.append_assoc]
  simp only [targetState, hfind, if_neg hne]

theorem not_oneBlank {method : Method} : ¬OneBlank (method.name ++ SP :: (t ++ SP :: v)) := by
  rintro ⟨method', s, heq, hs⟩
  obtain ⟨-, rfl⟩ := append_cons_inj method.name_sp method'.name_sp heq
  exact hs (List.mem_append_right _ List.mem_cons_self)

/-- A line that both reject with the error state set. -/
theorem agree_rejected {ok : Bool} {r r' : HttpRequest} (hok : ok = false)
    (hstate : state = .kParseErrno) : Agree ok r r' state := by
  subst hok hstate
  exact ⟨iff_of_false nofun Bool.false_ne_true, nofun, fun _ => rfl⟩

/-- A line that one accepts or leaves the state of, and the other rejects. -/
theorem not_agree {ok : Bool} {r r' : HttpRequest} (hok : ok = false)
    (hstate : state ≠ .kParseErrno) : ¬Agree ok r r' state :=
  fun hagree => hstate (hagree.2.2 hok)

/-- The lines of a known method with both blanks. -/
theorem parts_agree_iff {method : Method} {r r' : HttpRequest} {ok : Bool} (ht : SP ∉ t)
    (hbool : new.ParseRequestLine (method.name ++ SP :: (t ++ SP :: v)) = .ok (ok, r))
    (hstate : new.ParseRequestLineState (method.name ++ SP :: (t ++ SP :: v)) behind
      .kParseRequestLine = .ok (r', state)) :
    Agree ok r r' state ↔ ¬(http <:+: v ∧ ¬IsVersion v) := by
  rw [ParseRequestLine_known, parseTarget_blank _ ht] at hbool
  rw [ParseRequestLineState_known, targetState_blank _ ht] at hstate
  -- the target is assigned alike
  obtain ⟨r₁, htarget, hbool⟩ := then_ok_iff.mp hbool
  rw [htarget, ok_then] at hstate
  have hok := @parseVersion_fst_iff (method.name ++ [SP] ++ t ++ [SP]) v r₁
  rw [Except.ok.inj hbool] at hok
  have hstate := Except.ok.inj hstate
  by_cases hversion : IsVersion v
  · rw [searchVersion_version r₁ hversion, Except.ok.inj hbool] at hstate
    obtain ⟨rfl, rfl⟩ := Prod.mk.inj hstate
    have hyes : ok = true := hok.mpr hversion
    subst hyes
    exact iff_of_true ⟨iff_of_true rfl rfl, fun _ => ⟨rfl, rfl, rfl, rfl⟩, nofun⟩
      fun hstray => hstray.2 hversion
  · have hno : ok = false := Bool.eq_false_iff.mpr fun h => hversion (hok.mp h)
    by_cases hhttp : http <:+: v
    · have hnot : state ≠ .kParseErrno := by
        have hfound := @searchVersion_found (method.name ++ [SP] ++ t ++ [SP]) v behind
          .kParseRequestLine r₁ hhttp
        rw [hstate] at hfound
        rcases hfound with rfl | rfl
        · decide
        · decide
      exact iff_of_false (not_agree hno hnot) fun h => h ⟨hhttp, hversion⟩
    · rw [searchVersion_none r₁ hhttp] at hstate
      exact iff_of_true (agree_rejected hno (Prod.mk.inj hstate).2.symm) fun h => hhttp h.1

end Line

/-- Where both return, the overloads agree exactly on the lines of neither kind. -/
theorem lineParsers_agree_iff {line : Bytes} {behind : Byte} {ok : Bool} {r r' : HttpRequest}
    {state : HttpRequestParseState} (hbool : new.ParseRequestLine line = .ok (ok, r))
    (hstate : new.ParseRequestLineState line behind .kParseRequestLine = .ok (r', state)) :
    Agree ok r r' state ↔ ¬OneBlank line ∧ ¬StrayVersion line := by
  by_cases hblank : SP ∈ line
  · obtain ⟨m, s, rfl, hm⟩ := List.eq_append_cons_of_mem hblank
    by_cases hmethod : ∃ method : Method, m = method.name
    · obtain ⟨method, rfl⟩ := hmethod
      by_cases hs : SP ∈ s
      · obtain ⟨t, v, rfl, ht⟩ := List.eq_append_cons_of_mem hs
        rw [parts_agree_iff ht hbool hstate, StrayVersion, hasParts_iff ht]
        exact ⟨fun h => ⟨not_oneBlank, h⟩, fun h => h.2⟩
      · rw [ParseRequestLine_known, parseTarget_noBlank _ hs] at hbool
        rw [ParseRequestLineState_known, targetState_noBlank _ hs] at hstate
        obtain ⟨rfl, -⟩ := Prod.mk.inj (Except.ok.inj hbool)
        obtain ⟨-, rfl⟩ := Prod.mk.inj (Except.ok.inj hstate)
        exact iff_of_false (not_agree rfl (by decide)) fun h => h.1 ⟨method, s, rfl, hs⟩
    · -- a method that is none of the four
      have hunknown : UnknownMethod m := fun method heq => hmethod ⟨method, heq⟩
      rw [ParseRequestLine_unknown _ hm hunknown] at hbool
      rw [ParseRequestLineState_unknown _ hm hunknown] at hstate
      obtain ⟨rfl, -⟩ := Prod.mk.inj (Except.ok.inj hbool)
      obtain ⟨-, rfl⟩ := Prod.mk.inj (Except.ok.inj hstate)
      refine iff_of_true (agree_rejected rfl rfl) ⟨?_, ?_⟩
      · rintro ⟨method, s', heq, -⟩
        exact hunknown method (append_cons_inj hm method.name_sp heq).1
      · rintro ⟨method, t, v, heq, -⟩
        exact hunknown method (append_cons_inj hm method.name_sp heq).1
  · rw [ParseRequestLine_noBlank _ hblank] at hbool
    rw [ParseRequestLineState_noBlank _ hblank] at hstate
    obtain ⟨rfl, -⟩ := Prod.mk.inj (Except.ok.inj hbool)
    obtain ⟨-, rfl⟩ := Prod.mk.inj (Except.ok.inj hstate)
    refine iff_of_true (agree_rejected rfl rfl) ⟨?_, ?_⟩
    · rintro ⟨method, s, rfl, -⟩
      exact hblank (List.mem_append_right _ List.mem_cons_self)
    · rintro ⟨method, t, v, rfl, -⟩
      exact hblank (List.mem_append_right _ List.mem_cons_self)

theorem lineParsers_agree_iff_example :
    Agree true
      { new with method_ := some .kGet, version_ := some .kHttp11, path_ := ascii "/" }
      { new with method_ := some .kGet, version_ := some .kHttp11, path_ := ascii "/" }
      .kParseRequestHeader ↔
    ¬OneBlank (ascii "GET / HTTP/1.1") ∧ ¬StrayVersion (ascii "GET / HTTP/1.1") :=
  @lineParsers_agree_iff (ascii "GET / HTTP/1.1") 13 _ _ _ _ rfl rfl

/-- `GET /` leaves the state, and `GET / xHTTP/1.1` is accepted by one of the two. -/
theorem lineParsers_differ :
    (∃ r r', new.ParseRequestLine (ascii "GET /") = .ok (false, r) ∧
      new.ParseRequestLineState (ascii "GET /") 13 .kParseRequestLine =
        .ok (r', .kParseRequestLine)) ∧
    (∃ r r', new.ParseRequestLine (ascii "GET / xHTTP/1.1") = .ok (false, r) ∧
      new.ParseRequestLineState (ascii "GET / xHTTP/1.1") 13 .kParseRequestLine =
        .ok (r', .kParseRequestHeader)) ∧
    ¬ ∀ (line : Bytes) (behind : Byte) (ok : Bool) (r r' : HttpRequest)
      (state : HttpRequestParseState), new.ParseRequestLine line = .ok (ok, r) →
      new.ParseRequestLineState line behind .kParseRequestLine = .ok (r', state) →
      Agree ok r r' state := by
  refine ⟨⟨_, _, rfl, rfl⟩, ⟨_, _, rfl, rfl⟩, fun h => ?_⟩
  have hagree := h (ascii "GET /") 13 _ _ _ _ rfl rfl
  exact absurd (hagree.2.2 rfl) (by decide)

end HttpRequest

end LearnMuduo
