/-
  LearnMuduo.Proxy.Proxy

  The caching proxy (Proxy/Proxy.cc): its request line parser, `ParseRequest`, `readItem`
  without its semaphores, and `onServerMessage`.

  What the parser reads goes to variables of the file (`Statics`), which every client
  shares and which stay between two calls.  `muduo::net::Buffer` is a byte queue.  The
  file's parser is the one of Http/httpRequest.cc for the method GET
  (`ParseRequestLine_http`).
-/
import LearnMuduo.Http.RequestLine

namespace LearnMuduo.Proxy

open Lib

inductive Method where
  | kGet
  | kOther
  deriving DecidableEq, Repr

/-- The letter that `ParseRequest` looks for. -/
def LETTER_H : Byte := 72

/-- The parse results kept in static variables. -/
structure Statics where
  method_ : Method
  path_ : Bytes
  query_ : Bytes
  version_ : Version
  deriving DecidableEq, Repr

/-- As the program starts: the enumerators with the value 0, and empty strings. -/
def Statics.zero : Statics := { method_ := .kGet, path_ := [], query_ := [], version_ := .kUnknown }

namespace Statics

def ParseRequestMethod (s : Statics) (method : Bytes) : Bool × Statics :=
  let s := { s with method_ := if method = ascii "GET" then .kGet else .kOther }
  (s.method_ = .kGet, s)

/-- The path and query of `ParseRequestLine`. -/
def assignTarget (s : Statics) (line : Bytes) (start space : Nat) : Except Fault Statics :=
  let query_ptr := stdFind line start line.length QUESTION
  if query_ptr ≠ line.length then
    assign line start query_ptr >>= fun path =>
      assign line (query_ptr + 1) space >>= fun query =>
        .ok { s with path_ := path, query_ := query }
  else
    assign line start space >>= fun path => .ok { s with path_ := path }

/-- The version of `ParseRequestLine`. -/
def parseVersion (s : Statics) (line : Bytes) (start : Nat) : Bool × Statics :=
  let parseHttp : Bool := start + 8 = line.length && chars line start (line.length - 1) = http
  let last := line.getD (line.length - 1) 0
  if parseHttp = false ∨ (last ≠ ZERO ∧ last ≠ ONE) then
    (false, { s with version_ := .kUnknown })
  else if last = ZERO then
    (true, { s with version_ := .kHttp10 })
  else
    (true, { s with version_ := .kHttp11 })

/-- `ParseRequestLine` behind the method's blank. -/
def parseTarget (s : Statics) (line : Bytes) (start : Nat) : Except Fault (Bool × Statics) :=
  let space := stdFind line start line.length SP
  if space = line.length then .ok (false, s)
  else s.assignTarget line start space >>= fun s => .ok (s.parseVersion line (space + 1))

def ParseRequestLine (s : Statics) (line : Bytes) : Except Fault (Bool × Statics) :=
  let space := stdFind line 0 line.length SP
  if space = line.length then .ok (false, s)
  else
    match s.ParseRequestMethod (chars line 0 space) with
    | (false, s) => .ok (false, s)
    | (true, s) => s.parseTarget line (space + 1)

/-- `ParseRequest(buffer)`: 1 for a request line, 2 for a blank line and 0 for an error.
    `parsestate` never leaves `kParseRequest`, so the loop makes one turn; a line without
    an `'H'` counts as blank and stays in the buffer, a request line takes all behind it
    along. -/
def ParseRequest (s : Statics) (buffer : Bytes) : Except Fault (Nat × Statics × Bytes) :=
  match cut kCRLF buffer with
  | none => .ok (0, s, buffer)
  | some (line, _) =>
    if LETTER_H ∈ line then
      s.ParseRequestLine line >>= fun r => .ok (if r.1 then (1, r.2, []) else (0, r.2, buffer))
    else .ok (2, s, buffer)

end Statics

/-! ## The cache -/

/-- A C string in a byte array: what stands in front of the first NUL. -/
def cStr (s : Bytes) : Bytes := s.takeWhile (· ≠ 0)

/-- `obj_t`. -/
structure Obj where
  uri : Bytes
  respBody : Bytes
  deriving DecidableEq, Repr

/-- The objects between `cache.head` and the node flagged `'@'`. -/
abbrev Cache := List Obj

def readItem (cache : Cache) (targetURI : Bytes) : Option Obj :=
  cache.find? fun obj => cStr targetURI = cStr obj.uri

theorem readItem_congr {cache : Cache} {p p' : Bytes} (h : cStr p = cStr p') :
    readItem cache p = readItem cache p' := by
  simp only [readItem, h]

/-! ## Messages -/

def resStatus : Bytes := ascii "HTTP/1.0 200 OK\r\n"
def resConn : Bytes := ascii "Connection: close\r\n"
def rescrlf : Bytes := ascii "\r\n"
def resError : Bytes := ascii "HTTP/1.0 404 Not Found\r\n"

/-- What a call of `onServerMessage` does to the outside. -/
inductive Output where
  /-- `readItem` was called for this C string. -/
  | lookup (targetURI : Bytes)
  /-- `conn->send`. -/
  | toClient (data : Bytes)
  | shutdown
  /-- `clientConn->send`. -/
  | toServer (data : Bytes)
  deriving DecidableEq, Repr

/-- The reply for an object of the cache. -/
def reply (obj : Obj) : List Output :=
  [.toClient resStatus, .toClient resConn, .toClient rescrlf, .toClient (cStr obj.respBody),
    .shutdown]

/-- `tmp`: the request line for the server. -/
def Statics.tmp (s : Statics) : Bytes :=
  ascii "GET " ++ s.path_ ++
    if s.version_ = .kHttp10 then ascii " HTTP/1.0\r\n" else ascii " HTTP/1.1\r\n"

/-- The request for the server: `send(const char*)` stops at a NUL. -/
def Statics.forward (s : Statics) : List Output := [.toServer (cStr s.tmp), .toServer rescrlf]

def errorReply : List Output := [.toClient resError, .toClient resConn, .toClient rescrlf]

/-- What the blank line is answered with. -/
def answer (cache : Cache) (s : Statics) : List Output :=
  .lookup (cStr s.path_) ::
    match readItem cache s.path_ with
    | some obj => reply obj
    | none => s.forward

/-- `onServerMessage` on a connection whose tunnel is there. -/
def onServerMessage (cache : Cache) (s : Statics) (buffer : Bytes) :
    Except Fault (List Output × Statics × Bytes) :=
  s.ParseRequest buffer >>= fun (res, s, buffer) =>
    if res = 1 then .ok ([], s, buffer)
    else if res = 2 then .ok (answer cache s, s, buffer)
    else .ok (errorReply, s, buffer)

/-! ## The request line parser -/

namespace Statics

/-- The results in an `HttpRequest` of method GET. -/
def onto (s : Statics) (r : HttpRequest) : HttpRequest :=
  { r with
    method_ := some .kGet
    version_ := some s.version_
    path_ := s.path_
    query_ := s.query_ }

/-- What an accepted request line leaves. -/
def after (s : Statics) (q : Request) : Statics :=
  { method_ := .kGet, path_ := q.path, query_ := q.query.getD s.query_, version_ := q.version }

variable {s s' : Statics} {r : HttpRequest} {line : Bytes} {start space : Nat}

theorem assignTarget_http :
    (s.onto r).assignTarget line start space
      = (s.assignTarget line start space).map fun s => s.onto r := by
  simp only [HttpRequest.assignTarget, assignTarget]
  split
  · cases assign line start (stdFind line start line.length QUESTION) with
    | error e => rfl
    | ok path =>
      cases assign line (stdFind line start line.length QUESTION + 1) space with
      | error e => rfl
      | ok query => rfl
  · cases assign line start space with
    | error e => rfl
    | ok path => rfl

theorem parseVersion_http :
    (s.onto r).parseVersion line start
      = ((s.parseVersion line start).1, (s.parseVersion line start).2.onto r) := by
  simp only [HttpRequest.parseVersion, parseVersion]
  split_ifs <;> rfl

/-- Behind the method the two parsers do the same. -/
theorem parseTarget_http :
    (s.onto r).parseTarget line start
      = (s.parseTarget line start).map fun x => (x.1, x.2.onto r) := by
  simp only [HttpRequest.parseTarget, parseTarget]
  split
  · rfl
  · rw [assignTarget_http]
    cases s.assignTarget line start (stdFind line start line.length SP) with
    | error e => rfl
    | ok s => exact congrArg Except.ok parseVersion_http

theorem assignTarget_method (h : s.assignTarget line start space = .ok s') :
    s'.method_ = s.method_ := by
  simp only [assignTarget] at h
  split at h
  · obtain ⟨path, -, h⟩ := then_ok_iff.mp h
    obtain ⟨query, -, h⟩ := then_ok_iff.mp h
    obtain rfl := Except.ok.inj h
    rfl
  · obtain ⟨path, -, h⟩ := then_ok_iff.mp h
    obtain rfl := Except.ok.inj h
    rfl

theorem parseVersion_method : (s.parseVersion line start).2.method_ = s.method_ := by
  simp only [parseVersion]
  split_ifs <;> rfl

theorem parseTarget_method {ok : Bool} (h : s.parseTarget line start = .ok (ok, s')) :
    s'.method_ = s.method_ := by
  simp only [parseTarget] at h
  split at h
  · obtain rfl := congrArg Prod.snd (Except.ok.inj h)
    rfl
  · obtain ⟨m, hm, h⟩ := then_ok_iff.mp h
    obtain rfl := congrArg Prod.snd (Except.ok.inj h)
    exact parseVersion_method.trans (assignTarget_method hm)

theorem eq_of_onto (hmethod : s.method_ = s'.method_) (h : s.onto r = s'.onto r) : s = s' := by
  obtain ⟨method, path, query, version⟩ := s
  obtain ⟨method', path', query', version'⟩ := s'
  simp only [onto, HttpRequest.mk.injEq, Option.some.injEq] at h
  obtain ⟨-, rfl, rfl, rfl, -⟩ := h
  obtain rfl : method = method' := hmethod
  rfl

theorem ParseRequestLine_get {rest : Bytes} :
    s.ParseRequestLine (ascii "GET" ++ SP :: rest)
      = { s with method_ := .kGet }.parseTarget (ascii "GET" ++ [SP] ++ rest)
          (ascii "GET" ++ [SP]).length := by
  obtain ⟨hfind, hne, hchars⟩ := @HttpRequest.methodBlank (ascii "GET") rest (by decide)
  have hline : ascii "GET" ++ [SP] ++ rest = ascii "GET" ++ SP :: rest := by simp
  have hlen : (ascii "GET" ++ [SP]).length = (ascii "GET").length + 1 := by simp
  rw [hline, hlen]
  simp only [ParseRequestLine, hfind, if_neg hne, hchars, ParseRequestMethod, if_true,
    decide_true]

/-- A line whose method is GET is read as an `HttpRequest` reads it. -/
theorem ParseRequestLine_http {rest : Bytes} :
    (s.onto r).ParseRequestLine (ascii "GET" ++ SP :: rest)
      = (s.ParseRequestLine (ascii "GET" ++ SP :: rest)).map fun x => (x.1, x.2.onto r) := by
  rw [ParseRequestLine_get]
  exact (HttpRequest.ParseRequestLine_known (s.onto r) .kGet).trans
    (parseTarget_http (s := { s with method_ := .kGet }))

/-- Every other line is refused, and at most the method is kept of it. -/
theorem ParseRequestLine_other (s : Statics) (h : ∀ rest, line ≠ ascii "GET" ++ SP :: rest) :
    ∃ method, s.ParseRequestLine line = .ok (false, { s with method_ := method }) := by
  by_cases hblank : SP ∈ line
  · obtain ⟨m, rest, rfl, hm⟩ := List.eq_append_cons_of_mem hblank
    obtain ⟨hfind, hne, hchars⟩ := @HttpRequest.methodBlank m rest hm
    have hget : m ≠ ascii "GET" := fun heq => h rest (by rw [heq])
    exact ⟨.kOther, by
      simp only [ParseRequestLine, hfind, if_neg hne, hchars, ParseRequestMethod, hget, if_false,
        reduceCtorEq, decide_false]⟩
  · have hfind := @HttpRequest.stdFind_of_notMem [] line SP hblank
    simp only [List.nil_append, List.length_nil] at hfind
    exact ⟨s.method_, by simp [ParseRequestLine, hfind]⟩

/-- The verdict on a line does not depend on what was parsed before it. -/
theorem ParseRequestLine_fst (s s' : Statics) (line : Bytes) :
    (s.ParseRequestLine line).map Prod.fst = (s'.ParseRequestLine line).map Prod.fst := by
  by_cases hget : ∃ rest, line = ascii "GET" ++ SP :: rest
  · obtain ⟨rest, rfl⟩ := hget
    have hfst : ∀ u : Statics, (u.ParseRequestLine (ascii "GET" ++ SP :: rest)).map Prod.fst
        = (HttpRequest.new.ParseRequestLine (ascii "GET" ++ SP :: rest)).map Prod.fst := by
      intro u
      rw [HttpRequest.ParseRequestLine_fst HttpRequest.new (u.onto HttpRequest.new),
        ParseRequestLine_http]
      cases u.ParseRequestLine (ascii "GET" ++ SP :: rest) with
      | error e => rfl
      | ok x => rfl
    rw [hfst s, hfst s']
  · have hother : ∀ rest, line ≠ ascii "GET" ++ SP :: rest := fun rest heq => hget ⟨rest, heq⟩
    obtain ⟨t, ht⟩ := ParseRequestLine_other s hother
    obtain ⟨t', ht'⟩ := ParseRequestLine_other s' hother
    rw [ht, ht']
    rfl

theorem get_of_accepted (h : s.ParseRequestLine line = .ok (true, s')) :
    ∃ rest, line = ascii "GET" ++ SP :: rest := by
  by_contra hno
  obtain ⟨t, ht⟩ := ParseRequestLine_other s fun rest heq => hno ⟨rest, heq⟩
  rw [h] at ht
  cases ht

theorem ParseRequestLine_requestLine (s : Statics) {q : Request} (hget : q.method = .kGet) :
    s.ParseRequestLine q.requestLine = .ok (true, s.after q) := by
  obtain ⟨rest, hline⟩ : ∃ rest, q.requestLine = ascii "GET" ++ SP :: rest :=
    ⟨_, by rw [Request.requestLine, hget]; rfl⟩
  have hread := HttpRequest.ParseRequestLine_requestLine (s.onto HttpRequest.new) q
  rw [hline, ParseRequestLine_http] at hread
  rw [hline]
  cases hparse : s.ParseRequestLine (ascii "GET" ++ SP :: rest) with
  | error e =>
    rw [hparse] at hread
    cases hread
  | ok x =>
    obtain ⟨ok, t⟩ := x
    rw [hparse] at hread
    obtain ⟨rfl, honto⟩ := Prod.mk.inj (Except.ok.inj hread)
    rw [ParseRequestLine_get] at hparse
    have hmethod : t.method_ = .kGet := parseTarget_method hparse
    have heq : t = s.after q := by
      refine eq_of_onto (r := HttpRequest.new) hmethod (honto.trans ?_)
      simp [onto, after, hget]
    rw [heq]

/-- The accepted lines are the request lines of GET requests. -/
theorem request_of_accepted (h : s.ParseRequestLine line = .ok (true, s'))
    (hcrlf : NoCRLF line) :
    ∃ q : Request, q.method = .kGet ∧ line = q.requestLine ∧ s' = s.after q := by
  obtain ⟨rest, rfl⟩ := get_of_accepted h
  have hread := @ParseRequestLine_http s HttpRequest.new rest
  rw [h] at hread
  obtain ⟨q, -, hline⟩ := (HttpRequest.wellFormed_of_accepted hread).request hcrlf
  have hget : q.method = .kGet := by
    have heq : ascii "GET" ++ SP :: rest = q.method.name ++ SP :: _ := hline
    have hname := (append_cons_inj (by decide) q.method.name_sp heq).1
    revert hname
    cases q.method <;> decide
  refine ⟨q, hget, hline, ?_⟩
  rw [hline, ParseRequestLine_requestLine s hget] at h
  exact (congrArg Prod.snd (Except.ok.inj h)).symm

end Statics

/-! ## One message -/

/-- The buffer's first line is complete and has no `'H'`. -/
def StartsBlank (buffer : Bytes) : Prop :=
  ∃ line rest, cut kCRLF buffer = some (line, rest) ∧ LETTER_H ∉ line

/-- The buffer begins with the request line of `q`. -/
def StartsRequest (q : Request) (buffer : Bytes) : Prop :=
  q.method = .kGet ∧ ∃ rest, buffer = q.requestLine ++ kCRLF ++ rest

theorem requestLine_letter (q : Request) : LETTER_H ∈ q.requestLine := by
  have hhttp : LETTER_H ∈ http := by decide
  simp [Request.requestLine, hhttp]

section Message

variable {cache : Cache} {s s' : Statics} {buffer buffer' : Bytes} {q : Request}
  {outs : List Output}

theorem onServerMessage_request (cache : Cache) (s : Statics) (h : StartsRequest q buffer) :
    onServerMessage cache s buffer = .ok ([], s.after q, []) := by
  obtain ⟨hget, rest, rfl⟩ := h
  have hcut := NoCRLF.cut q.requestLine_crlf rest
  have hletter := requestLine_letter q
  simp only [onServerMessage, Statics.ParseRequest, hcut, hletter, if_true,
    Statics.ParseRequestLine_requestLine s hget, ok_then]

theorem onServerMessage_blank (cache : Cache) (s : Statics) (h : StartsBlank buffer) :
    onServerMessage cache s buffer = .ok (answer cache s, s, buffer) := by
  obtain ⟨line, rest, hcut, hletter⟩ := h
  simp [onServerMessage, Statics.ParseRequest, hcut, hletter]

theorem not_startsBlank_of_request (h : StartsRequest q buffer) : ¬StartsBlank buffer := by
  obtain ⟨-, rest, rfl⟩ := h
  rintro ⟨line, rest', hcut, hletter⟩
  rw [NoCRLF.cut q.requestLine_crlf rest] at hcut
  obtain ⟨rfl, rfl⟩ := Prod.mk.inj (Option.some.inj hcut)
  exact hletter (requestLine_letter q)

/-- A request line is remembered and takes the buffer along, a blank line is answered,
    and everything else is an error; what is not a request line stays in the buffer. -/
theorem onServerMessage_cases (h : onServerMessage cache s buffer = .ok (outs, s', buffer')) :
    (∃ q, StartsRequest q buffer ∧ outs = [] ∧ s' = s.after q ∧ buffer' = []) ∨
    (StartsBlank buffer ∧ outs = answer cache s ∧ s' = s ∧ buffer' = buffer) ∨
    (¬StartsBlank buffer ∧ (∀ q, ¬StartsRequest q buffer) ∧ outs = errorReply ∧
      buffer' = buffer) := by
  by_cases hreq : ∃ q, StartsRequest q buffer
  · obtain ⟨q, hq⟩ := hreq
    rw [onServerMessage_request cache s hq] at h
    obtain ⟨rfl, rfl, rfl⟩ : [] = outs ∧ s.after q = s' ∧ [] = buffer' := by simpa using h
    exact Or.inl ⟨q, hq, rfl, rfl, rfl⟩
  by_cases hblank : StartsBlank buffer
  · rw [onServerMessage_blank cache s hblank] at h
    obtain ⟨rfl, rfl, rfl⟩ : answer cache s = outs ∧ s = s' ∧ buffer = buffer' := by simpa using h
    exact Or.inr (Or.inl ⟨hblank, rfl, rfl, rfl⟩)
  refine Or.inr (Or.inr ⟨hblank, fun q hq => hreq ⟨q, hq⟩, ?_⟩)
  cases hcut : cut kCRLF buffer with
  | none =>
    simp only [onServerMessage, Statics.ParseRequest, hcut, ok_then] at h
    obtain ⟨rfl, -, rfl⟩ : errorReply = outs ∧ s = s' ∧ buffer = buffer' := by simpa using h
    exact ⟨rfl, rfl⟩
  | some parts =>
    obtain ⟨line, rest⟩ := parts
    have hletter : LETTER_H ∈ line := by
      by_contra hno
      exact hblank ⟨line, rest, hcut, hno⟩
    simp only [onServerMessage, Statics.ParseRequest, hcut, hletter, if_true] at h
    obtain ⟨r, hparse, h⟩ := then_ok_iff.mp h
    obtain ⟨⟨ok, t⟩, hline, hr⟩ := then_ok_iff.mp hparse
    obtain rfl := Except.ok.inj hr
    cases ok with
    | false =>
      obtain ⟨rfl, -, rfl⟩ : errorReply = outs ∧ t = s' ∧ buffer = buffer' := by simpa using h
      exact ⟨rfl, rfl⟩
    | true =>
      -- an accepted line is a request line
      obtain ⟨q, hget, rfl, -⟩ := Statics.request_of_accepted hline (noCRLF_of_cut hcut)
      exact absurd ⟨q, hget, rest, cut_eq hcut⟩ hreq

/-- A refused line is refused whatever was parsed before. -/
theorem onServerMessage_error (h : onServerMessage cache s buffer = .ok (errorReply, s', buffer'))
    (t : Statics) : ∃ t', onServerMessage cache t buffer = .ok (errorReply, t', buffer) := by
  cases hcut : cut kCRLF buffer with
  | none => exact ⟨t, by simp [onServerMessage, Statics.ParseRequest, hcut]⟩
  | some parts =>
    obtain ⟨line, rest⟩ := parts
    by_cases hletter : LETTER_H ∈ line
    · simp only [onServerMessage, Statics.ParseRequest, hcut, hletter, if_true] at h ⊢
      have hfst := Statics.ParseRequestLine_fst s t line
      cases hs : s.ParseRequestLine line with
      | error e =>
        rw [hs] at h
        cases h
      | ok x =>
        cases ht : t.ParseRequestLine line with
        | error e =>
          rw [hs, ht] at hfst
          cases hfst
        | ok y =>
          rw [hs, ht] at hfst
          obtain ⟨ok, u⟩ := x
          obtain ⟨ok', u'⟩ := y
          obtain rfl : ok = ok' := Except.ok.inj hfst
          cases ok with
          | false => exact ⟨u', rfl⟩
          | true =>
            rw [hs] at h
            cases h
    · -- a blank line is answered
      have hblank := onServerMessage_blank cache s ⟨line, rest, hcut, hletter⟩
      obtain ⟨heq, -⟩ := Prod.mk.inj (Except.ok.inj (hblank.symm.trans h))
      cases heq

/-- Whatever was parsed before, a call returns or throws and leaves the same in the buffer;
    only the answer to a blank line depends on it. -/
theorem onServerMessage_alike (h : onServerMessage cache s buffer = .ok (outs, s', buffer'))
    (t : Statics) :
    ∃ outs' t', onServerMessage cache t buffer = .ok (outs', t', buffer') ∧
      (outs' = outs ↔ (StartsBlank buffer → answer cache t = answer cache s)) := by
  rcases onServerMessage_cases h with
    ⟨q, hq, rfl, rfl, rfl⟩ | ⟨hblank, rfl, rfl, rfl⟩ | ⟨hblank, hreq, rfl, rfl⟩
  · refine ⟨_, _, onServerMessage_request cache t hq, ?_⟩
    exact iff_of_true rfl fun hblank => absurd hblank (not_startsBlank_of_request hq)
  · exact ⟨_, _, onServerMessage_blank cache t hblank, by simp [hblank]⟩
  · obtain ⟨t', hmessage⟩ := onServerMessage_error h t
    exact ⟨_, t', hmessage, iff_of_true rfl fun hyes => absurd hyes hblank⟩

end Message

end LearnMuduo.Proxy
