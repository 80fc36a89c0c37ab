/-
  LearnMuduo.Http.RequestLine

  Which pointers `ParseRequestLine` uses.

  `ParseRequestLineChecked` is the parser with a check in front of every range it hands
  to the standard library and of every byte it reads.  On every line it does what the
  parser does (`ParseRequestLineChecked_eq`): the only check that ever fails is the one
  of `query_.assign(query_ptr + 1, space)`, on lines whose first `'?'` behind the method
  stands behind the target (`ParseRequestLine_returns_iff`).
-/
import LearnMuduo.Http.Format

namespace LearnMuduo

open Lib

/-! ## Checked pointers -/

/-- `std::find` on a range that must lie in the line. -/
def findChecked (line : Bytes) (first last : Nat) (c : Byte) : Except Fault Nat :=
  if first ≤ last ∧ last ≤ line.length then .ok (stdFind line first last c)
  else .error .outOfBounds

/-- A `std::string` from a range that must lie in the line. -/
def assignChecked (line : Bytes) (first last : Nat) : Except Fault Bytes :=
  if last ≤ line.length then assign line first last else .error .outOfBounds

/-- `std::equal(first, last, pattern)`. -/
def equalChecked (line : Bytes) (first last : Nat) (pattern : Bytes) : Except Fault Bool :=
  if first ≤ last ∧ last ≤ line.length ∧ last - first ≤ pattern.length then
    .ok (chars line first last = pattern.take (last - first))
  else .error .outOfBounds

def derefChecked (line : Bytes) (i : Nat) : Except Fault Byte :=
  if i < line.length then .ok (line.getD i 0) else .error .outOfBounds

namespace HttpRequest

def assignTargetChecked (r : HttpRequest) (line : Bytes) (start space : Nat) :
    Except Fault HttpRequest :=
  findChecked line start line.length QUESTION >>= fun query_ptr =>
    if query_ptr ≠ line.length then
      assignChecked line start query_ptr >>= fun path =>
        assignChecked line (query_ptr + 1) space >>= fun query =>
          .ok { r with path_ := path, query_ := query }
    else
      assignChecked line start space >>= fun path => .ok { r with path_ := path }

/-- `parseHttp`: the bytes are compared only when there are eight. -/
def parseHttpChecked (line : Bytes) (start : Nat) : Except Fault Bool :=
  if start + 8 = line.length then equalChecked line start (line.length - 1) http else .ok false

/-- The last byte is read only when `parseHttp` holds. -/
def parseVersionChecked (r : HttpRequest) (line : Bytes) (start : Nat) :
    Except Fault (Bool × HttpRequest) :=
  parseHttpChecked line start >>= fun parseHttp =>
    if parseHttp = false then .ok (false, { r with version_ := some .kUnknown })
    else
      derefChecked line (line.length - 1) >>= fun last =>
        if last ≠ ZERO ∧ last ≠ ONE then .ok (false, { r with version_ := some .kUnknown })
        else if last = ZERO then .ok (true, { r with version_ := some .kHttp10 })
        else .ok (true, { r with version_ := some .kHttp11 })

def parseTargetChecked (r : HttpRequest) (line : Bytes) (start : Nat) :
    Except Fault (Bool × HttpRequest) :=
  findChecked line start line.length SP >>= fun space =>
    if space = line.length then .ok (false, r)
    else
      r.assignTargetChecked line start space >>= fun r => r.parseVersionChecked line (space + 1)

/-- `ParseRequestLine(start, end)` with its pointers checked. -/
def ParseRequestLineChecked (r : HttpRequest) (line : Bytes) :
    Except Fault (Bool × HttpRequest) :=
  findChecked line 0 line.length SP >>= fun space =>
    if space = line.length then .ok (false, r)
    else
      assignChecked line 0 space >>= fun method =>
        match r.ParseRequestMethod method with
        | (false, r) => .ok (false, r)
        | (true, r) => r.parseTargetChecked line (space + 1)

/-! ## The checks that never fail -/

section Checks

variable {line : Bytes} {first last : Nat} {c : Byte}

theorem stdFind_le (h : first ≤ line.length) : stdFind line first line.length c ≤ line.length := by
  have hlen : (slice line first (line.length - first)).length = line.length - first := by
    rw [slice, List.length_take, List.length_drop]
    omega
  have hle := List.idxOf_le_length (a := c) (l := slice line first (line.length - first))
  rw [hlen] at hle
  rw [stdFind]
  omega

theorem findChecked_eq (h : first ≤ line.length) :
    findChecked line first line.length c = .ok (stdFind line first line.length c) :=
  if_pos ⟨h, le_refl _⟩

theorem assignChecked_eq (h : last ≤ line.length) :
    assignChecked line first last = assign line first last :=
  if_pos h

theorem assignTargetChecked_eq (r : HttpRequest) {start space : Nat} (hstart : start ≤ line.length)
    (hspace : space ≤ line.length) :
    r.assignTargetChecked line start space = r.assignTarget line start space := by
  have hquery : stdFind line start line.length QUESTION ≤ line.length := stdFind_le hstart
  simp only [assignTargetChecked, assignTarget, findChecked_eq hstart, ok_then,
    assignChecked_eq hquery, assignChecked_eq hspace]

theorem parseHttpChecked_eq (start : Nat) :
    parseHttpChecked line start
      = .ok (start + 8 = line.length && chars line start (line.length - 1) = http) := by
  unfold parseHttpChecked
  by_cases hlen : start + 8 = line.length
  · -- seven bytes are compared
    have hseven : line.length - 1 - start = 7 := by omega
    have hrange : start ≤ line.length - 1 ∧ line.length - 1 ≤ line.length ∧
        line.length - 1 - start ≤ http.length := by
      refine ⟨by omega, by omega, ?_⟩
      rw [hseven]
      decide
    have hall : http.take 7 = http := by decide
    rw [if_pos hlen, equalChecked, if_pos hrange, hseven, hall]
    simp [hlen]
  · simp [hlen]

theorem parseVersionChecked_eq (r : HttpRequest) (start : Nat) :
    r.parseVersionChecked line start = .ok (r.parseVersion line start) := by
  simp only [parseVersionChecked, parseHttpChecked_eq, ok_then, parseVersion]
  by_cases hhttp : (start + 8 = line.length && chars line start (line.length - 1) = http) = true
  · have hlen : start + 8 = line.length := by simp_all
    -- there is a last byte
    have hlast : line.length - 1 < line.length := by omega
    simp only [hhttp, derefChecked, if_pos hlast, ok_then, Bool.true_eq_false, false_or, if_false]
    split_ifs <;> rfl
  · rw [Bool.not_eq_true] at hhttp
    simp only [hhttp, true_or, if_true]

theorem parseTargetChecked_eq (r : HttpRequest) {start : Nat} (hstart : start ≤ line.length) :
    r.parseTargetChecked line start = r.parseTarget line start := by
  have hspace : stdFind line start line.length SP ≤ line.length := stdFind_le hstart
  simp only [parseTargetChecked, parseTarget, findChecked_eq hstart, ok_then,
    assignTargetChecked_eq r hstart hspace, parseVersionChecked_eq]

/-- The parser uses no pointer that it should not, except where it throws. -/
theorem ParseRequestLineChecked_eq (r : HttpRequest) (line : Bytes) :
    r.ParseRequestLineChecked line = r.ParseRequestLine line := by
  have hspace : stdFind line 0 line.length SP ≤ line.length := stdFind_le (Nat.zero_le _)
  simp only [ParseRequestLineChecked, ParseRequestLine, findChecked_eq (Nat.zero_le _), ok_then]
  split
  · rfl
  · rename_i hne
    have hstart : stdFind line 0 line.length SP + 1 ≤ line.length := by omega
    simp only [assignChecked_eq hspace, assign, if_pos (Nat.zero_le _), ok_then]
    generalize r.ParseRequestMethod _ = p
    obtain ⟨known, r1⟩ := p
    cases known with
    | false => rfl
    | true => exact parseTargetChecked_eq r1 hstart

end Checks

/-! ## The lines on which it returns -/

section Blanks

variable {pre m t s v : Bytes}

theorem ParseRequestLine_noBlank (r : HttpRequest) {line : Bytes} (h : SP ∉ line) :
    r.ParseRequestLine line = .ok (false, r) := by
  have hfind := @stdFind_of_notMem [] line SP h
  simp only [List.nil_append, List.length_nil] at hfind
  simp only [ParseRequestLine, hfind, if_true]

/-- The method is what stands before the first blank. -/
theorem methodBlank (hm : SP ∉ m) :
    stdFind (m ++ SP :: s) 0 (m ++ SP :: s).length SP = m.length ∧
      m.length ≠ (m ++ SP :: s).length ∧ chars (m ++ SP :: s) 0 m.length = m := by
  have hfind := @stdFind_append_cons [] m s SP hm
  simp only [List.nil_append, List.length_nil, Nat.zero_add] at hfind
  refine ⟨hfind, ?_, ?_⟩
  · simp only [List.length_append, List.length_cons]
    omega
  · rw [chars_zero, List.take_left]

/-- A method that is none of the four. -/
def UnknownMethod (m : Bytes) : Prop := ∀ method : Method, m ≠ method.name

theorem ParseRequestMethod_unknown (r : HttpRequest) (h : UnknownMethod m) :
    r.ParseRequestMethod m = (false, r) := by
  have hget : m ≠ ascii "GET" := h .kGet
  have hpost : m ≠ ascii "POST" := h .kPost
  have hput : m ≠ ascii "PUT" := h .kPut
  have hdelete : m ≠ ascii "DELETE" := h .kDelete
  simp only [ParseRequestMethod, hget, hpost, hput, hdelete, if_false]

theorem ParseRequestLine_unknown (r : HttpRequest) (hm : SP ∉ m) (h : UnknownMethod m) :
    r.ParseRequestLine (m ++ SP :: s) = .ok (false, r) := by
  obtain ⟨hfind, hne, hchars⟩ := @methodBlank m s hm
  simp only [ParseRequestLine, hfind, if_neg hne, hchars, ParseRequestMethod_unknown r h]

theorem ParseRequestLine_known (r : HttpRequest) (method : Method) :
    r.ParseRequestLine (method.name ++ SP :: s)
      = { r with method_ := some method }.parseTarget ((method.name ++ [SP]) ++ s)
          (method.name ++ [SP]).length := by
  obtain ⟨hfind, hne, hchars⟩ := @methodBlank method.name s method.name_sp
  have hline : method.name ++ [SP] ++ s = method.name ++ SP :: s := by simp
  have hlen : (method.name ++ [SP]).length = method.name.length + 1 := by simp
  rw [hline, hlen]
  simp only [ParseRequestLine, hfind, if_neg hne, hchars, ParseRequestMethod_name]

theorem parseTarget_noBlank (r : HttpRequest) (h : SP ∉ s) :
    r.parseTarget (pre ++ s) pre.length = .ok (false, r) := by
  simp only [parseTarget, stdFind_of_notMem h, if_true]

/-- The target ends at the second blank. -/
theorem targetBlank (ht : SP ∉ t) :
    stdFind (pre ++ t ++ SP :: v) pre.length (pre ++ t ++ SP :: v).length SP
        = pre.length + t.length ∧
      pre.length + t.length ≠ (pre ++ t ++ SP :: v).length ∧
      pre ++ t ++ [SP] ++ v = pre ++ t ++ SP :: v ∧
      (pre ++ t ++ [SP]).length = pre.length + t.length + 1 := by
  refine ⟨stdFind_append_cons ht, ?_, ?_, ?_⟩
  · simp only [List.length_append, List.length_cons]
    omega
  · simp
  · simp [Nat.add_assoc]

/-- The target is what stands before the second blank. -/
theorem parseTarget_blank (r : HttpRequest) (ht : SP ∉ t) :
    r.parseTarget (pre ++ (t ++ SP :: v)) pre.length
      = r.assignTarget (pre ++ t ++ SP :: v) pre.length (pre.length + t.length) >>= fun r =>
          .ok (r.parseVersion ((pre ++ t ++ [SP]) ++ v) (pre ++ t ++ [SP]).length) := by
  obtain ⟨hfind, hne, hline, hlen⟩ := @targetBlank pre t v ht
  rw [hline, hlen, ← List.append_assoc]
  simp only [parseTarget, hfind, if_neg hne]

/-- The `'?'` is found behind the target: the query would end before it begins. -/
theorem assignTarget_behind (r : HttpRequest) (ht : QUESTION ∉ t) (hv : QUESTION ∈ v) :
    r.assignTarget (pre ++ t ++ SP :: v) pre.length (pre.length + t.length)
      = .error .lengthError := by
  obtain ⟨a, b, rfl, ha⟩ := List.eq_append_cons_of_mem hv
  have hline : pre ++ t ++ SP :: (a ++ QUESTION :: b)
      = pre ++ (t ++ SP :: a) ++ QUESTION :: b := by simp
  have hnot : QUESTION ∉ t ++ SP :: a := by
    have hsp : QUESTION ≠ SP := by decide
    simp [ht, ha, hsp]
  have hfind : stdFind (pre ++ (t ++ SP :: a) ++ QUESTION :: b) pre.length
      (pre ++ (t ++ SP :: a) ++ QUESTION :: b).length QUESTION
      = pre.length + (t ++ SP :: a).length := stdFind_append_cons hnot
  have hne : pre.length + (t ++ SP :: a).length
      ≠ (pre ++ (t ++ SP :: a) ++ QUESTION :: b).length := by
    simp only [List.length_append, List.length_cons]
    omega
  have hinverted : ¬pre.length + (t ++ SP :: a).length + 1 ≤ pre.length + t.length := by
    simp only [List.length_append, List.length_cons]
    omega
  rw [hline]
  simp only [assignTarget, hfind, ne_eq, hne, not_false_eq_true, if_true, assign,
    if_pos (Nat.le_add_right _ _), ok_then, if_neg hinverted, error_then]

/-- Any other target gives a path and, behind a `'?'`, a query. -/
theorem assignTarget_returns (r : HttpRequest) (h : QUESTION ∈ v → QUESTION ∈ t) :
    ∃ path query, r.assignTarget (pre ++ t ++ SP :: v) pre.length (pre.length + t.length)
      = .ok { r with path_ := path, query_ := query } := by
  by_cases ht : QUESTION ∈ t
  · obtain ⟨path, q, rfl, hpath⟩ := List.eq_append_cons_of_mem ht
    exact ⟨path, q, assignTarget_query r hpath⟩
  · have hsp : QUESTION ≠ SP := by decide
    have hv : QUESTION ∉ v := fun hv => ht (h hv)
    exact ⟨t, r.query_, assignTarget_path r (by simp [ht, hv, hsp])⟩

/-- What may stand behind the second blank. -/
def IsVersion (v : Bytes) : Prop := v = http ++ [ZERO] ∨ v = http ++ [ONE]

theorem parseVersion_concat (r : HttpRequest) {w : Bytes} {x : Byte} :
    (r.parseVersion (pre ++ (w ++ [x])) pre.length).1 = true ↔
      w = http ∧ (x = ZERO ∨ x = ONE) := by
  have hlast : (pre ++ (w ++ [x])).length - 1 = (pre ++ w).length := by simp
  have hw : chars (pre ++ (w ++ [x])) pre.length (pre ++ w).length = w := by
    rw [← List.append_assoc, List.length_append]
    exact chars_append
  have hx : (pre ++ (w ++ [x])).getD (pre ++ w).length 0 = x := by
    rw [← List.append_assoc]
    simp
  have hlen : pre.length + 8 = (pre ++ (w ++ [x])).length ↔ w.length = 7 := by
    simp only [List.length_append, List.length_singleton]
    omega
  have hseven : w = http → w.length = 7 := fun h => h ▸ rfl
  simp only [parseVersion, hlast, hw, hx]
  split_ifs with hbad hzero
  · simp only [Bool.and_eq_false_iff, decide_eq_false_iff_not, hlen] at hbad
    simp only [false_iff, not_and, not_or]
    intro hhttp
    rcases hbad with (hno | hno) | hdigit
    · exact absurd (hseven hhttp) hno
    · exact absurd hhttp hno
    · exact hdigit
  · simp_all
  · simp_all

theorem parseVersion_fst_iff (r : HttpRequest) :
    (r.parseVersion (pre ++ v) pre.length).1 = true ↔ IsVersion v := by
  rcases List.eq_nil_or_concat v with rfl | ⟨w, x, rfl⟩
  · -- nothing stands behind the blank
    simp [parseVersion, IsVersion]
  · rw [List.concat_eq_append, parseVersion_concat, IsVersion]
    simp only [List.append_singleton_inj]
    tauto

/-- A line of a known method, a target without blanks, which may be empty, and a rest of
    which `P` holds. -/
def HasParts (P : Bytes → Bytes → Prop) (line : Bytes) : Prop :=
  ∃ (method : Method) (t v : Bytes),
    line = method.name ++ SP :: (t ++ SP :: v) ∧ SP ∉ t ∧ P t v

/-- The lines that the parser is for. -/
def WellFormed : Bytes → Prop := HasParts fun _ v => IsVersion v

/-- No `'?'` stands in the target, and one stands behind it. -/
def QuestionBehindTarget : Bytes → Prop := HasParts fun t v => QUESTION ∉ t ∧ QUESTION ∈ v

variable {P : Bytes → Bytes → Prop}

theorem hasParts_iff {method : Method} (ht : SP ∉ t) :
    HasParts P (method.name ++ SP :: (t ++ SP :: v)) ↔ P t v := by
  constructor
  · rintro ⟨method', t', v', heq, ht', hp⟩
    obtain ⟨-, hrest⟩ := append_cons_inj method.name_sp method'.name_sp heq
    obtain ⟨rfl, rfl⟩ := append_cons_inj ht ht' hrest
    exact hp
  · intro hp
    exact ⟨method, t, v, rfl, ht, hp⟩

/-- What the parser does with a line that has the two blanks and a method. -/
theorem ParseRequestLine_parts (r : HttpRequest) (method : Method) (ht : SP ∉ t) :
    (QUESTION ∉ t ∧ QUESTION ∈ v ∧
      r.ParseRequestLine (method.name ++ SP :: (t ++ SP :: v)) = .error .lengthError) ∨
    ((QUESTION ∈ v → QUESTION ∈ t) ∧ ∃ ok r',
      r.ParseRequestLine (method.name ++ SP :: (t ++ SP :: v)) = .ok (ok, r') ∧
        (ok = true ↔ IsVersion v)) := by
  rw [ParseRequestLine_known, parseTarget_blank _ ht]
  by_cases h : QUESTION ∈ v → QUESTION ∈ t
  · right
    obtain ⟨path, query, htarget⟩ := @assignTarget_returns (method.name ++ [SP]) t v
      { r with method_ := some method } h
    rw [htarget, ok_then]
    exact ⟨h, _, _, rfl, parseVersion_fst_iff _⟩
  · left
    obtain ⟨hv, hnot⟩ := Classical.not_imp.mp h
    rw [assignTarget_behind _ hnot hv]
    exact ⟨hnot, hv, rfl⟩

/-- A line without the two blanks or without a method is answered with `false`. -/
theorem ParseRequestLine_noParts (r : HttpRequest) {line : Bytes}
    (h : ¬HasParts (fun _ _ => True) line) : ∃ r', r.ParseRequestLine line = .ok (false, r') := by
  by_cases hblank : SP ∈ line
  · obtain ⟨m, s, rfl, hm⟩ := List.eq_append_cons_of_mem hblank
    by_cases hmethod : ∃ method : Method, m = method.name
    · obtain ⟨method, rfl⟩ := hmethod
      -- there is no second blank
      have hs : SP ∉ s := by
        intro hs
        obtain ⟨t, v, rfl, ht⟩ := List.eq_append_cons_of_mem hs
        exact h ⟨method, t, v, rfl, ht, trivial⟩
      exact ⟨_, by rw [ParseRequestLine_known, parseTarget_noBlank _ hs]⟩
    · exact ⟨r, ParseRequestLine_unknown r hm fun method heq => hmethod ⟨method, heq⟩⟩
  · exact ⟨r, ParseRequestLine_noBlank r hblank⟩

theorem HasParts.mono {Q : Bytes → Bytes → Prop} {line : Bytes} (h : HasParts P line)
    (himp : ∀ t v, P t v → Q t v) : HasParts Q line := by
  obtain ⟨method, t, v, hline, ht, hp⟩ := h
  exact ⟨method, t, v, hline, ht, himp t v hp⟩

end Blanks

/-- The parser throws on the lines whose first `'?'` behind the method stands behind the
    target, and answers every other one by whether it is well formed. -/
theorem ParseRequestLine_outcome (r : HttpRequest) (line : Bytes) :
    (QuestionBehindTarget line ∧ r.ParseRequestLine line = .error .lengthError) ∨
    (¬QuestionBehindTarget line ∧ ∃ ok r', r.ParseRequestLine line = .ok (ok, r') ∧
      (ok = true ↔ WellFormed line)) := by
  by_cases hparts : HasParts (fun _ _ => True) line
  · obtain ⟨method, t, v, rfl, ht, -⟩ := hparts
    rw [WellFormed, QuestionBehindTarget, hasParts_iff ht, hasParts_iff ht]
    rcases ParseRequestLine_parts r method ht (v := v) with ⟨hnot, hv, hthrows⟩ | ⟨himp, hreturns⟩
    · exact Or.inl ⟨⟨hnot, hv⟩, hthrows⟩
    · exact Or.inr ⟨fun h => h.1 (himp h.2), hreturns⟩
  · -- the line is malformed, and `false` is the answer
    have hnone : ∀ P : Bytes → Bytes → Prop, ¬HasParts P line :=
      fun P h => hparts (h.mono fun _ _ _ => trivial)
    obtain ⟨r', hreturns⟩ := ParseRequestLine_noParts r hparts
    refine Or.inr ⟨hnone _, false, r', hreturns, ?_⟩
    exact iff_of_false Bool.false_ne_true (hnone _)

/-- The parser returns, with `true` for the well-formed lines only and no bad pointer,
    exactly when it is not the case that the first `'?'` behind the method stands behind
    the target. -/
theorem ParseRequestLine_returns_iff (r : HttpRequest) (line : Bytes) :
    (∃ ok r', r.ParseRequestLineChecked line = .ok (ok, r') ∧ (ok = true ↔ WellFormed line)) ↔
      ¬QuestionBehindTarget line := by
  rw [ParseRequestLineChecked_eq]
  rcases ParseRequestLine_outcome r line with ⟨hbehind, hthrows⟩ | ⟨hnot, hreturns⟩
  · rw [hthrows]
    simp [hbehind]
  · exact iff_of_true hreturns hnot

/-- `GET / HTTP/1.1?` throws. -/
theorem question_behind_throws :
    NoCRLF (ascii "GET / HTTP/1.1?") ∧
      HttpRequest.new.ParseRequestLineChecked (ascii "GET / HTTP/1.1?") = .error .lengthError := by
  refine ⟨by decide, ?_⟩
  rw [ParseRequestLineChecked_eq]
  rfl

/-! ## The accepted lines -/

theorem wellFormed_of_accepted {r r' : HttpRequest} {line : Bytes}
    (h : r.ParseRequestLine line = .ok (true, r')) : WellFormed line := by
  rcases ParseRequestLine_outcome r line with ⟨-, hthrows⟩ | ⟨-, ok, r'', hok, hiff⟩
  · rw [h] at hthrows
    cases hthrows
  · rw [h] at hok
    exact hiff.mp (congrArg Prod.fst (Except.ok.inj hok)).symm

theorem IsVersion.digit {v : Bytes} (h : IsVersion v) :
    ∃ version : Version, version ≠ .kUnknown ∧ v = http ++ [version.digit] := by
  rcases h with rfl | rfl
  · exact ⟨.kHttp10, by decide, rfl⟩
  · exact ⟨.kHttp11, by decide, rfl⟩

/-- A well-formed line is the request line of a request. -/
theorem WellFormed.request {line : Bytes} (h : WellFormed line) (hcrlf : NoCRLF line) :
    ∃ q : Request, q.headers = [] ∧ line = q.requestLine := by
  obtain ⟨method, t, v, rfl, ht, hv⟩ := h
  obtain ⟨version, hknown, rfl⟩ := hv.digit
  have hinfix : t <:+: method.name ++ SP :: (t ++ SP :: (http ++ [version.digit])) :=
    ⟨method.name ++ [SP], SP :: (http ++ [version.digit]), by simp⟩
  have htarget : NoCRLF t := fun hin => hcrlf (hin.trans hinfix)
  by_cases hq : QUESTION ∈ t
  · obtain ⟨path, query, rfl, hpath⟩ := List.eq_append_cons_of_mem hq
    have hsp : SP ∉ path ∧ ¬SP = QUESTION ∧ SP ∉ query := by simpa [not_or] using ht
    have hfree : NoCRLF path ∧ NoCRLF query :=
      ⟨fun hin => htarget (hin.trans (List.prefix_append _ _).isInfix),
        fun hin => htarget (hin.trans ⟨path ++ [QUESTION], [], by simp⟩)⟩
    exact ⟨{ method := method, path := path, query := some query, version := version
             headers := [], path_sp := hsp.1, path_question := hpath, path_crlf := hfree.1
             query_sp := by simpa using hsp.2.2, query_crlf := by simpa using hfree.2
             version_known := hknown }, rfl, rfl⟩
  · exact ⟨{ method := method, path := t, query := none, version := version, headers := []
             path_sp := ht, path_question := hq, path_crlf := htarget, query_sp := by simp
             query_crlf := by simp, version_known := hknown }, rfl, rfl⟩

end HttpRequest

end LearnMuduo
