/-
  LearnMuduo.Http.Format

  Body-less requests and the bytes a client sends for them:

    METHOD path[?query] HTTP/1.x CRLF
    name: value CRLF          for each header
    CRLF

  `Header` and `Request` carry the conditions under which these bytes can be read
  back.  Exactly one blank stands behind a header's `':'`; the parser takes lines with
  none or with more as well, but they are not among the bytes of a `Request`.  `parseBytes_serialise` is the round trip from any state in which the
  parser waits for a request line, with whatever an earlier request left in it;
  `ParseContent_serialise` is its instance for a fresh `HttpContent`.
-/
import LearnMuduo.Http.HttpContent

namespace LearnMuduo

open Lib

def Method.name : Method → Bytes
  | .kGet => ascii "GET"
  | .kPost => ascii "POST"
  | .kPut => ascii "PUT"
  | .kDelete => ascii "DELETE"

/-- The last byte of the version. -/
def Version.digit : Version → Byte
  | .kHttp10 => ZERO
  | _ => ONE

/-- No CRLF stands in the bytes. -/
def NoCRLF (s : Bytes) : Prop := ¬ kCRLF <:+: s

instance (s : Bytes) : Decidable (NoCRLF s) := inferInstanceAs (Decidable (¬ _))

structure Header where
  name : Bytes
  value : Bytes
  name_colon : COLON ∉ name
  name_crlf : NoCRLF name
  value_crlf : NoCRLF value
  value_sp : value.head? ≠ some SP

structure Request where
  method : Method
  path : Bytes
  query : Option Bytes
  version : Version
  headers : List Header
  path_sp : SP ∉ path
  path_question : QUESTION ∉ path
  path_crlf : NoCRLF path
  query_sp : ∀ q ∈ query, SP ∉ q
  query_crlf : ∀ q ∈ query, NoCRLF q
  version_known : version ≠ .kUnknown

def Header.line (h : Header) : Bytes := h.name ++ COLON :: SP :: h.value

namespace Request

/-- `path[?query]`. -/
def target (r : Request) : Bytes :=
  match r.query with
  | none => r.path
  | some q => r.path ++ QUESTION :: q

def requestLine (r : Request) : Bytes :=
  r.method.name ++ SP :: (r.target ++ SP :: (http ++ [r.version.digit]))

def serialise (r : Request) : Bytes :=
  r.requestLine ++ kCRLF ++ ((r.headers.flatMap fun h => h.line ++ kCRLF) ++ kCRLF)

/-- `GET /a?b HTTP/1.1` with one header. -/
def getExample : Request where
  method := .kGet
  path := ascii "/a"
  query := some (ascii "b")
  version := .kHttp11
  headers :=
    [{ name := ascii "k", value := ascii "v", name_colon := by decide, name_crlf := by decide,
       value_crlf := by decide, value_sp := by decide }]
  path_sp := by decide
  path_question := by decide
  path_crlf := by decide
  query_sp := by decide
  query_crlf := by decide
  version_known := by decide

/-- The value of the last header of that name. -/
def lastWins (hs : List Header) (name : Bytes) : Option Bytes :=
  (hs.reverse.find? (·.name = name)).map Header.value

/-- What the request leaves in an `HttpRequest` that an earlier one has filled. -/
def onto (r : Request) (old : HttpRequest) : HttpRequest :=
  { method_ := some r.method
    version_ := some r.version
    path_ := r.path
    query_ := r.query.getD old.query_
    hearders_ := fun name => (lastWins r.headers name).or (old.hearders_ name) }

end Request

/-! ## Lines are found where they end -/

section Lines

theorem NoCRLF.append_cons {x y : Bytes} {sep : Byte} (hsep : sep ∉ kCRLF) (hx : NoCRLF x)
    (hy : NoCRLF y) : NoCRLF (x ++ sep :: y) :=
  fun h => (infix_append_cons hsep h).elim hx hy

/-- A line and its CRLF are cut off whatever follows; the line may end in a CR. -/
theorem NoCRLF.cut {line : Bytes} (h : NoCRLF line) (t : Bytes) :
    Lib.cut kCRLF (line ++ kCRLF ++ t) = some (line, t) := by
  refine cut_of_free t fun hin => h ?_
  exact pair_infix_concat (a := CR) (b := LF) (by decide) hin

theorem noCRLF_of_cut {s line rest : Bytes} (h : Lib.cut kCRLF s = some (line, rest)) :
    NoCRLF line := fun hin =>
  cut_free (by decide) h (hin.trans (List.prefix_append line _).isInfix)

theorem Header.line_crlf (h : Header) : NoCRLF h.line := by
  have hblank : NoCRLF ([] ++ SP :: h.value) :=
    NoCRLF.append_cons (by decide) (by decide) h.value_crlf
  exact NoCRLF.append_cons (by decide) h.name_crlf hblank

theorem Request.target_crlf (r : Request) : NoCRLF r.target := by
  unfold target
  split
  · exact r.path_crlf
  · rename_i q hq
    exact NoCRLF.append_cons (by decide) r.path_crlf (r.query_crlf q hq)

theorem Request.requestLine_crlf (r : Request) : NoCRLF r.requestLine := by
  refine NoCRLF.append_cons (by decide) ?_ (NoCRLF.append_cons (by decide) r.target_crlf ?_)
  · cases r.method <;> decide
  · cases r.version <;> decide

end Lines

/-! ## The request line -/

theorem Method.name_sp (m : Method) : SP ∉ m.name := by cases m <;> decide

theorem Request.target_sp (r : Request) : SP ∉ r.target := by
  unfold target
  split
  · exact r.path_sp
  · rename_i q hq
    have hne : SP ≠ QUESTION := by decide
    simp [r.path_sp, r.query_sp q hq, hne]

namespace HttpRequest

theorem ParseRequestMethod_name (old : HttpRequest) (m : Method) :
    old.ParseRequestMethod m.name = (true, { old with method_ := some m }) := by
  cases m <;> rfl

/-- The version in front of the line's end. -/
theorem parseVersion_digit (old : HttpRequest) (pre : Bytes) {v : Version}
    (hv : v ≠ .kUnknown) :
    old.parseVersion (pre ++ (http ++ [v.digit])) pre.length
      = (true, { old with version_ := some v }) := by
  have hlen : (pre ++ (http ++ [v.digit])).length = pre.length + 8 := by
    simp only [List.length_append]
    rfl
  -- the code compares seven bytes and then looks at the last one
  have hhttp : chars (pre ++ (http ++ [v.digit])) pre.length (pre.length + 8 - 1) = http := by
    rw [← List.append_assoc]
    exact chars_append
  have hlast : (pre ++ (http ++ [v.digit])).getD (pre.length + 8 - 1) 0 = v.digit := by
    rw [← List.append_assoc, show pre.length + 8 - 1 = (pre ++ http).length by
      rw [List.length_append]; rfl]
    simp
  simp only [parseVersion, hlen, hhttp, hlast]
  cases v with
  | kUnknown => exact absurd rfl hv
  | kHttp10 => simp [Version.digit]
  | kHttp11 => simp [Version.digit, ONE, ZERO]

/-- A target without `'?'`: the query of an earlier request stays. -/
theorem assignTarget_path (old : HttpRequest) {pre path rest : Bytes}
    (hq : QUESTION ∉ path ++ rest) :
    old.assignTarget (pre ++ path ++ rest) pre.length (pre.length + path.length)
      = .ok { old with path_ := path } := by
  have hfind : stdFind (pre ++ path ++ rest) pre.length (pre ++ path ++ rest).length QUESTION
      = (pre ++ path ++ rest).length := by
    rw [List.append_assoc]
    exact stdFind_of_notMem hq
  simp only [assignTarget, hfind, ne_eq, not_true_eq_false, if_false, assign,
    if_pos (Nat.le_add_right _ _), chars_append, ok_then]

theorem assignTarget_query (old : HttpRequest) {pre path q rest : Bytes}
    (hq : QUESTION ∉ path) :
    old.assignTarget (pre ++ (path ++ QUESTION :: q) ++ rest) pre.length
        (pre.length + (path ++ QUESTION :: q).length)
      = .ok { old with path_ := path, query_ := q } := by
  have hline : pre ++ (path ++ QUESTION :: q) ++ rest = pre ++ path ++ QUESTION :: (q ++ rest) := by
    simp
  -- the first question mark ends the path; the query may hold others
  have hfind : stdFind (pre ++ (path ++ QUESTION :: q) ++ rest) pre.length
      (pre ++ (path ++ QUESTION :: q) ++ rest).length QUESTION = pre.length + path.length := by
    rw [hline]
    exact stdFind_append_cons hq
  have hne : pre.length + path.length ≠ (pre ++ (path ++ QUESTION :: q) ++ rest).length := by
    simp only [List.length_append, List.length_cons]
    omega
  have hpath : chars (pre ++ (path ++ QUESTION :: q) ++ rest) pre.length
      (pre.length + path.length) = path := by
    rw [hline]
    exact chars_append
  have hquery : chars (pre ++ (path ++ QUESTION :: q) ++ rest) (pre.length + path.length + 1)
      (pre.length + (path ++ QUESTION :: q).length) = q := by
    have := @chars_append (pre ++ path ++ [QUESTION]) q rest
    simpa [Nat.add_assoc, Nat.add_comm, Nat.add_left_comm] using this
  have hle : pre.length + path.length + 1 ≤ pre.length + (path ++ QUESTION :: q).length := by
    simp only [List.length_append, List.length_cons]
    omega
  simp only [assignTarget, hfind, ne_eq, hne, not_false_eq_true, if_true, assign,
    if_pos (Nat.le_add_right _ _), if_pos hle, hpath, hquery, ok_then]

/-- The target of a request, between any method and any version. -/
theorem assignTarget_target (old : HttpRequest) (r : Request) {pre rest : Bytes}
    (hrest : QUESTION ∉ rest) :
    old.assignTarget (pre ++ r.target ++ rest) pre.length (pre.length + r.target.length)
      = .ok { old with path_ := r.path, query_ := r.query.getD old.query_ } := by
  unfold Request.target
  cases r.query with
  | none => exact assignTarget_path old (by simp [r.path_question, hrest])
  | some q => exact assignTarget_query old r.path_question

theorem parseTarget_target (old : HttpRequest) (r : Request) (pre : Bytes) :
    old.parseTarget (pre ++ (r.target ++ SP :: (http ++ [r.version.digit]))) pre.length
      = .ok (true, { old with
          version_ := some r.version, path_ := r.path, query_ := r.query.getD old.query_ }) := by
  have hfind := @stdFind_append_cons pre _ (http ++ [r.version.digit]) _ r.target_sp
  have hrest : QUESTION ∉ SP :: (http ++ [r.version.digit]) := by
    cases r.version <;> decide
  -- the space behind the target is found before the end of the line
  have hne : pre.length + r.target.length
      ≠ (pre ++ r.target ++ SP :: (http ++ [r.version.digit])).length := by
    simp only [List.length_append, List.length_cons]
    omega
  -- the version is read behind that space
  have hversion := parseVersion_digit
    { old with path_ := r.path, query_ := r.query.getD old.query_ }
    (pre ++ r.target ++ [SP]) r.version_known
  have hpre : (pre ++ r.target ++ [SP]).length = pre.length + r.target.length + 1 := by
    simp [Nat.add_assoc]
  have hline : pre ++ r.target ++ [SP] ++ (http ++ [r.version.digit])
      = pre ++ r.target ++ SP :: (http ++ [r.version.digit]) := by simp
  rw [hpre, hline] at hversion
  rw [← List.append_assoc]
  simp only [parseTarget, hfind, if_neg hne, assignTarget_target old r hrest, ok_then, hversion]

theorem ParseRequestLine_requestLine (old : HttpRequest) (r : Request) :
    old.ParseRequestLine r.requestLine
      = .ok (true, { old with
          method_ := some r.method, version_ := some r.version, path_ := r.path
          query_ := r.query.getD old.query_ }) := by
  have hfind := @stdFind_append_cons [] r.method.name
    (r.target ++ SP :: (http ++ [r.version.digit])) _ r.method.name_sp
  -- no method name has a space in it
  have hne : r.method.name.length ≠ r.requestLine.length := by
    simp only [Request.requestLine, List.length_append, List.length_cons]
    omega
  have hmethod : chars r.requestLine 0 r.method.name.length = r.method.name := by
    rw [chars_zero, Request.requestLine, List.take_left]
  -- the rest of the line, as `parseTarget` sees it
  have htarget := parseTarget_target { old with method_ := some r.method } r
    (r.method.name ++ [SP])
  have hpre : (r.method.name ++ [SP]).length = r.method.name.length + 1 := by simp
  have hline : r.method.name ++ [SP] ++ (r.target ++ SP :: (http ++ [r.version.digit]))
      = r.requestLine := by simp [Request.requestLine]
  rw [hpre, hline] at htarget
  simp only [List.nil_append, List.length_nil, Nat.zero_add] at hfind
  rw [← Request.requestLine] at hfind
  simp only [ParseRequestLine, hfind, if_neg hne, hmethod, ParseRequestMethod_name, htarget]

/-! ## Header lines -/

theorem ParseHeaders_line (old : HttpRequest) (h : Header) :
    old.ParseHeaders h.line (h.line.idxOf COLON)
      = (true, { old with
          hearders_ := Function.update old.hearders_ h.name (some h.value) }) := by
  have hcolon : h.line.idxOf COLON = h.name.length := by
    rw [Header.line, List.idxOf_append_of_notMem h.name_colon, List.idxOf_cons_self,
      Nat.add_zero]
  have hname : chars h.line 0 h.name.length = h.name := by
    rw [chars_zero, Header.line, List.take_left]
  -- one space is written behind the colon, and all of them are skipped
  have hdrop : h.line.drop (h.name.length + 1) = SP :: h.value := by
    simp [Header.line, ← List.drop_drop]
  have hvalue : (SP :: h.value).dropWhile (· = SP) = h.value := by
    have hsp := h.value_sp
    cases hv : h.value with
    | nil => rfl
    | cons x xs =>
      have hx : x ≠ SP := by simpa [hv] using hsp
      simp [hx]
  rw [ParseHeaders, hcolon, hname, hdrop, hvalue]

end HttpRequest

/-! ## The round trip -/

section RoundTrip

namespace Request

theorem lastWins_cons (h : Header) (hs : List Header) (name : Bytes) :
    lastWins (h :: hs) name
      = (lastWins hs name).or (if h.name = name then some h.value else none) := by
  simp only [lastWins, List.reverse_cons, List.find?_append, List.find?_singleton,
    decide_eq_true_eq]
  cases hs.reverse.find? (·.name = name) with
  | none => split_ifs <;> rfl
  | some _ => rfl

/-- Storing a header first and the rest of the list over it. -/
theorem lastWins_update (h : Header) (hs : List Header) (old : Bytes → Option Bytes) :
    (fun name => (lastWins hs name).or (Function.update old h.name (some h.value) name))
      = fun name => (lastWins (h :: hs) name).or (old name) := by
  funext name
  rw [lastWins_cons, Function.update_apply]
  cases lastWins hs name with
  | some _ => rfl
  | none =>
    by_cases hn : h.name = name
    · simp [hn]
    · simp [hn, Ne.symm hn]

end Request

namespace HttpContent

theorem onLine_header {c : HttpContent} (hc : c.parse_state_ = .kParseRequestHeader) (h : Header) :
    c.onLine h.line = .ok (true, true,
      { c with request_ := { c.request_ with
        hearders_ := Function.update c.request_.hearders_ h.name (some h.value) } }) := by
  have hmem : COLON ∈ h.line := by simp [Header.line]
  simp only [onLine, hc, if_pos hmem, HttpRequest.ParseHeaders_line]

theorem onLine_empty {c : HttpContent} (hc : c.parse_state_ = .kParseRequestHeader) :
    c.onLine [] = .ok (false, true, { c with parse_state_ := .kParseGotCompleteRequest }) := by
  simp [onLine, hc]

theorem onLine_requestLine {c : HttpContent} (hc : c.parse_state_ = .kParseRequestLine)
    (r : Request) :
    c.onLine r.requestLine = .ok (true, true,
      { request_ := { c.request_ with
          method_ := some r.method, version_ := some r.version, path_ := r.path
          query_ := r.query.getD c.request_.query_ }
        parse_state_ := .kParseRequestHeader }) := by
  simp only [onLine, hc, HttpRequest.ParseRequestLine_requestLine, ok_then, if_true]

/-- The header section, up to and with the empty line. -/
theorem parseBytes_headers (hs : List Header) {c : HttpContent}
    (hc : c.parse_state_ = .kParseRequestHeader) (t : Bytes) :
    c.parseBytes ((hs.flatMap fun h => h.line ++ kCRLF) ++ kCRLF ++ t) = .ok (true,
      { request_ := { c.request_ with
          hearders_ := fun name => (Request.lastWins hs name).or (c.request_.hearders_ name) }
        parse_state_ := .kParseGotCompleteRequest }, t) := by
  have hreads : c.Reads := Or.inr hc
  induction hs generalizing c with
  | nil =>
    -- the empty line completes the request
    have hempty : NoCRLF [] := by decide
    rw [List.flatMap_nil, parseBytes_some hreads (hempty.cut t), onLine_empty hc]
    rfl
  | cons h hs ih =>
    -- one header line is cut off and stored; the others are stored over it
    have hline := h.line_crlf.cut ((hs.flatMap fun h => h.line ++ kCRLF) ++ kCRLF ++ t)
    rw [List.flatMap_cons, List.append_assoc, List.append_assoc, ← List.append_assoc _ kCRLF t,
      parseBytes_some hreads hline, onLine_header hc, ok_then, if_pos rfl]
    refine Eq.trans (ih ?_ ?_) ?_
    · exact hc
    · exact Or.inr hc
    · simp only [Request.lastWins_update]

/-- Parsing what a request serialises to, from any state that waits for a request
    line, completes that request and leaves what follows it. -/
theorem parseBytes_serialise {c : HttpContent} (hc : c.parse_state_ = .kParseRequestLine)
    (r : Request) (t : Bytes) :
    c.parseBytes (r.serialise ++ t) = .ok (true,
      { request_ := r.onto c.request_, parse_state_ := .kParseGotCompleteRequest }, t) := by
  have hline := r.requestLine_crlf.cut
    ((r.headers.flatMap fun h => h.line ++ kCRLF) ++ kCRLF ++ t)
  rw [Request.serialise, List.append_assoc, parseBytes_some (Or.inl hc) hline,
    onLine_requestLine hc, ok_then, if_pos rfl, parseBytes_headers _ rfl]
  rfl

/-- A request of which bytes are missing keeps the parser waiting for them. -/
theorem parseBytes_prefix {c : HttpContent} (hc : c.parse_state_ = .kParseRequestLine)
    {r : Request} {p q : Bytes} (hpq : p ++ q = r.serialise) (hq : q ≠ []) :
    ∃ c' s', c.parseBytes p = .ok (true, c', s') ∧ c'.GetCompleteRequest = false := by
  have hfull := parseBytes_serialise hc r []
  rw [List.append_nil, ← hpq] at hfull
  cases hp : c.parseBytes p with
  | error e =>
    rw [parseBytes_error_append q hp] at hfull
    simp at hfull
  | ok res =>
    obtain ⟨ok, c', s'⟩ := res
    -- a decided parse would have left the missing bytes unread
    by_cases hdone : ok = false ∨ c'.GetCompleteRequest = true
    · rw [parseBytes_append q hp hdone] at hfull
      obtain ⟨-, -, hrest⟩ : ok = true ∧ _ ∧ s' ++ q = [] := by simpa using hfull
      exact absurd (List.append_eq_nil_iff.mp hrest).2 hq
    · obtain ⟨hok, hwait⟩ := not_or.mp hdone
      obtain rfl : ok = true := by simpa using hok
      exact ⟨c', s', rfl, by simpa using hwait⟩

/-- **The format is read back.**  A fresh `HttpContent` on a Buffer that holds a
    serialised request and `t` completes the request with exactly its method, path,
    query and version and its last-wins header map, and leaves `t`. -/
theorem ParseContent_serialise (r : Request) (t : Bytes) {b : Buffer} (hwf : b.WF)
    (hread : b.readable = r.serialise ++ t) (hlen : (r.serialise ++ t).length < 2 ^ 31) :
    ∃ c b', HttpContent.new.ParseContent b = .ok (true, c, b') ∧ c.GetCompleteRequest = true ∧
      c.request_ =
        { method_ := some r.method, version_ := some r.version, path_ := r.path
          query_ := r.query.getD [], hearders_ := Request.lastWins r.headers } ∧
      b'.readable = t := by
  have hparse := parseBytes_serialise (c := HttpContent.new) rfl r t
  rw [← hread] at hparse hlen
  obtain ⟨b', hb, -, hrest⟩ := ParseContent_ok hwf (LinesShort.of_length hlen) hparse
  refine ⟨_, b', hb, rfl, ?_, hrest⟩
  have hmap : (fun name => (Request.lastWins r.headers name).or none)
      = Request.lastWins r.headers := funext fun _ => Option.or_none
  simp only [Request.onto, HttpContent.new, HttpRequest.new, hmap]

/-- The example request with the first two bytes of a next one behind it. -/
theorem ParseContent_serialise_example :
    ∃ c b', HttpContent.new.ParseContent
        ⟨List.replicate 8 0 ++ Request.getExample.serialise ++ ascii "GE", 8, 37⟩
          = .ok (true, c, b') ∧
      c.GetCompleteRequest = true ∧
      c.request_ =
        { method_ := some .kGet, version_ := some .kHttp11, path_ := ascii "/a"
          query_ := ascii "b", hearders_ := Request.lastWins Request.getExample.headers } ∧
      b'.readable = ascii "GE" :=
  ParseContent_serialise Request.getExample (ascii "GE") (by decide +kernel)
    (by decide +kernel) (by decide +kernel)

end HttpContent

end RoundTrip

end LearnMuduo
