/-
  LearnMuduo.Http.HttpRequest

  `bing::HttpRequest` (Http/httpRequest.h, Http/httpRequest.cc): what the parser
  has read of a request, and the parsers of a request line and of a header line.

  A line is the byte range `[start, end)` of the source; a pointer into it is its
  distance from `start`.  `assign(first, last)` throws when the range is inverted.
-/
import LearnMuduo.Base.CTypes
import LearnMuduo.Lib.Overwrite
import LearnMuduo.Lib.Run
import Mathlib.Logic.Function.Basic

namespace LearnMuduo

open Lib

inductive Method where
  | kGet | kPost | kPut | kDelete
  deriving DecidableEq, Repr

inductive Version where
  | kUnknown | kHttp10 | kHttp11
  deriving DecidableEq, Repr

/-- `static const char http[]`. -/
def http : Bytes := ascii "HTTP/1."

def SP : Byte := 32
def QUESTION : Byte := 63
def COLON : Byte := 58
def ZERO : Byte := 48
def ONE : Byte := 49

/-- `std::find(line + first, line + last, c)`: `last` when `c` does not occur. -/
def stdFind (line : Bytes) (first last : Nat) (c : Byte) : Nat :=
  first + (slice line first (last - first)).idxOf c

/-- The bytes of `[first, last)`. -/
def chars (line : Bytes) (first last : Nat) : Bytes := slice line first (last - first)

/-- `std::string::assign(first, last)`. -/
def assign (line : Bytes) (first last : Nat) : Except Fault Bytes :=
  if first ≤ last then .ok (chars line first last) else .error .lengthError

/-- `method_` and `version_` have no initialiser: `none` until they are set. -/
structure HttpRequest where
  method_ : Option Method
  version_ : Option Version
  path_ : Bytes
  query_ : Bytes
  hearders_ : Bytes → Option Bytes

namespace HttpRequest

def new : HttpRequest :=
  { method_ := none, version_ := none, path_ := [], query_ := [], hearders_ := fun _ => none }

def GetHeader (r : HttpRequest) (header : Bytes) : Bytes := (r.hearders_ header).getD []

def ParseRequestMethod (r : HttpRequest) (method : Bytes) : Bool × HttpRequest :=
  if method = ascii "GET" then (true, { r with method_ := some .kGet })
  else if method = ascii "POST" then (true, { r with method_ := some .kPost })
  else if method = ascii "PUT" then (true, { r with method_ := some .kPut })
  else if method = ascii "DELETE" then (true, { r with method_ := some .kDelete })
  else (false, r)

/-- The path and query of `ParseRequestLine`: the target starts at `start` and ends
    at `space`, but the `'?'` is searched up to the end of the line. -/
def assignTarget (r : HttpRequest) (line : Bytes) (start space : Nat) :
    Except Fault HttpRequest :=
  let query_ptr := stdFind line start line.length QUESTION
  if query_ptr ≠ line.length then
    assign line start query_ptr >>= fun path =>
      assign line (query_ptr + 1) space >>= fun query =>
        .ok { r with path_ := path, query_ := query }
  else
    assign line start space >>= fun path => .ok { r with path_ := path }

/-- The version of `ParseRequestLine`, from `start` to the end of the line. -/
def parseVersion (r : HttpRequest) (line : Bytes) (start : Nat) : Bool × HttpRequest :=
  let parseHttp : Bool := start + 8 = line.length && chars line start (line.length - 1) = http
  let last := line.getD (line.length - 1) 0
  if parseHttp = false ∨ (last ≠ ZERO ∧ last ≠ ONE) then
    (false, { r with version_ := some .kUnknown })
  else if last = ZERO then
    (true, { r with version_ := some .kHttp10 })
  else
    (true, { r with version_ := some .kHttp11 })

/-- `ParseRequestLine` behind the method's blank. -/
def parseTarget (r : HttpRequest) (line : Bytes) (start : Nat) :
    Except Fault (Bool × HttpRequest) :=
  let space := stdFind line start line.length SP
  if space = line.length then .ok (false, r)
  else r.assignTarget line start space >>= fun r => .ok (r.parseVersion line (space + 1))

/-- `ParseRequestLine(start, end)`, the overload that returns a `bool`. -/
def ParseRequestLine (r : HttpRequest) (line : Bytes) : Except Fault (Bool × HttpRequest) :=
  let space := stdFind line 0 line.length SP
  if space = line.length then .ok (false, r)
  else
    match r.ParseRequestMethod (chars line 0 space) with
    | (false, r) => .ok (false, r)
    | (true, r) => r.parseTarget line (space + 1)

/-- `ParseHeaders(start, colon, end)`.  The loop that skips blanks stops at `end` at
    the latest, where the CR of the line's CRLF stands. -/
def ParseHeaders (r : HttpRequest) (line : Bytes) (colon : Nat) : Bool × HttpRequest :=
  let value := (line.drop (colon + 1)).dropWhile (· = SP)
  (true, { r with hearders_ := Function.update r.hearders_ (chars line 0 colon) (some value) })

/-! ## Searching a line -/

theorem chars_zero (line : Bytes) (last : Nat) : chars line 0 last = line.take last := by
  simp [chars, slice]

/-- The search stops at the first occurrence. -/
theorem stdFind_append_cons {pre a b : Bytes} {c : Byte} (ha : c ∉ a) :
    stdFind (pre ++ a ++ c :: b) pre.length (pre ++ a ++ c :: b).length c
      = pre.length + a.length := by
  have hrest : slice (pre ++ a ++ c :: b) pre.length
      ((pre ++ a ++ c :: b).length - pre.length) = a ++ c :: b := by
    rw [slice, List.append_assoc, List.drop_left, List.take_of_length_le]
    simp only [List.length_append]
    omega
  rw [stdFind, hrest, List.idxOf_append_of_notMem ha, List.idxOf_cons_self, Nat.add_zero]

/-- A search that does not succeed ends at the end of the range. -/
theorem stdFind_of_notMem {pre a : Bytes} {c : Byte} (ha : c ∉ a) :
    stdFind (pre ++ a) pre.length (pre ++ a).length c = (pre ++ a).length := by
  have hrest : slice (pre ++ a) pre.length ((pre ++ a).length - pre.length) = a := by
    rw [slice, List.drop_left, List.take_of_length_le]
    simp only [List.length_append]
    omega
  rw [stdFind, hrest, List.idxOf_eq_length ha, List.length_append]

theorem chars_append {pre a b : Bytes} :
    chars (pre ++ a ++ b) pre.length (pre.length + a.length) = a := by
  rw [chars, slice, List.append_assoc, List.drop_left, Nat.add_sub_cancel_left, List.take_left]

/-! ## What the request line parser looks at -/

/-- Whether a method is known depends on its bytes only. -/
theorem ParseRequestMethod_fst (r r' : HttpRequest) (m : Bytes) :
    (r.ParseRequestMethod m).1 = (r'.ParseRequestMethod m).1 := by
  unfold ParseRequestMethod
  split_ifs <;> rfl

theorem parseVersion_fst (r r' : HttpRequest) (line : Bytes) (start : Nat) :
    (r.parseVersion line start).1 = (r'.parseVersion line start).1 := by
  simp only [parseVersion]
  split_ifs <;> rfl

theorem parseTarget_fst (r r' : HttpRequest) (line : Bytes) (start : Nat) :
    (r.parseTarget line start).map Prod.fst = (r'.parseTarget line start).map Prod.fst := by
  simp only [parseTarget, assignTarget]
  split
  · rfl
  · split
    · cases assign line start (stdFind line start line.length QUESTION) with
      | error e => rfl
      | ok path =>
        cases assign line (stdFind line start line.length QUESTION + 1)
            (stdFind line start line.length SP) with
        | error e => rfl
        | ok query => exact congrArg Except.ok (parseVersion_fst ..)
    · cases assign line start (stdFind line start line.length SP) with
      | error e => rfl
      | ok path => exact congrArg Except.ok (parseVersion_fst ..)

/-- The line is accepted, rejected or thrown at whatever was parsed before it. -/
theorem ParseRequestLine_fst (r r' : HttpRequest) (line : Bytes) :
    (r.ParseRequestLine line).map Prod.fst = (r'.ParseRequestLine line).map Prod.fst := by
  have hm := ParseRequestMethod_fst r r' (chars line 0 (stdFind line 0 line.length SP))
  simp only [ParseRequestLine]
  split
  · rfl
  · generalize r.ParseRequestMethod _ = p at hm ⊢
    generalize r'.ParseRequestMethod _ = p' at hm ⊢
    obtain ⟨ok, s⟩ := p
    obtain ⟨ok', s'⟩ := p'
    obtain rfl : ok = ok' := hm
    cases ok with
    | false => rfl
    | true => exact parseTarget_fst ..

/-! ## What the request line parser leaves alone -/

theorem ParseRequestMethod_hearders (r : HttpRequest) (m : Bytes) :
    (r.ParseRequestMethod m).2.hearders_ = r.hearders_ := by
  unfold ParseRequestMethod
  split_ifs <;> rfl

theorem parseVersion_hearders (r : HttpRequest) (line : Bytes) (start : Nat) :
    (r.parseVersion line start).2.hearders_ = r.hearders_ := by
  simp only [parseVersion]
  split_ifs <;> rfl

theorem assignTarget_hearders {r r' : HttpRequest} {line : Bytes} {start space : Nat}
    (h : r.assignTarget line start space = .ok r') : r'.hearders_ = r.hearders_ := by
  simp only [assignTarget] at h
  split at h
  · obtain ⟨path, -, h⟩ := then_ok_iff.mp h
    obtain ⟨query, -, h⟩ := then_ok_iff.mp h
    obtain rfl := Except.ok.inj h
    rfl
  · obtain ⟨path, -, h⟩ := then_ok_iff.mp h
    obtain rfl := Except.ok.inj h
    rfl

theorem parseTarget_hearders {r : HttpRequest} {line : Bytes} {start : Nat}
    {p : Bool × HttpRequest} (h : r.parseTarget line start = .ok p) :
    p.2.hearders_ = r.hearders_ := by
  simp only [parseTarget] at h
  split at h
  · obtain rfl := Except.ok.inj h
    rfl
  · obtain ⟨r1, htarget, h⟩ := then_ok_iff.mp h
    obtain rfl := Except.ok.inj h
    rw [parseVersion_hearders, assignTarget_hearders htarget]

/-- A request line leaves the headers as they are. -/
theorem ParseRequestLine_hearders {r : HttpRequest} {line : Bytes} {p : Bool × HttpRequest}
    (h : r.ParseRequestLine line = .ok p) : p.2.hearders_ = r.hearders_ := by
  have hmethod := ParseRequestMethod_hearders r (chars line 0 (stdFind line 0 line.length SP))
  simp only [ParseRequestLine] at h
  split at h
  · obtain rfl := Except.ok.inj h
    rfl
  · generalize r.ParseRequestMethod _ = q at hmethod h
    obtain ⟨known, r1⟩ := q
    cases known with
    | false =>
      obtain rfl := Except.ok.inj h
      exact hmethod
    | true =>
      rw [parseTarget_hearders h]
      exact hmethod

end HttpRequest

end LearnMuduo
