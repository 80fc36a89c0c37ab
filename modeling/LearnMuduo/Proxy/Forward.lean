/-
  LearnMuduo.Proxy.Forward

  What the origin server reads of a request that the proxy forwards.

  The proxy keeps the path, the query and the version apart and writes the path and the
  version only, through a C string.  The server's parser gives the same path, query and
  version as for the client's line exactly when there is nothing else to write
  (`forward_same_iff`).
-/
import LearnMuduo.Proxy.Proxy
import Mathlib.Data.List.TakeWhile

namespace LearnMuduo.Proxy

open Lib

/-- The bytes that go to the server. -/
def sentToServer (outs : List Output) : Bytes :=
  outs.flatMap fun out =>
    match out with
    | .toServer data => data
    | _ => []

/-- The server's `ParseRequestLine` accepts both lines and reads the same from them. -/
def SameMeaning (r0 : HttpRequest) (client server : Bytes) : Prop :=
  ∃ r r', r0.ParseRequestLine client = .ok (true, r) ∧
    r0.ParseRequestLine server = .ok (true, r') ∧
    r'.path_ = r.path_ ∧ r'.query_ = r.query_ ∧ r'.version_ = r.version_

/-- At the blank line the proxy, with the parse results `s`, sends the server a request
    line with the meaning of `line`. -/
def ForwardsSame (cache : Cache) (s : Statics) (r0 : HttpRequest) (line : Bytes) : Prop :=
  ∃ outs buffer server rest, onServerMessage cache s kCRLF = .ok (outs, s, buffer) ∧
    cut kCRLF (sentToServer outs) = some (server, rest) ∧ SameMeaning r0 line server

/-! ## C strings -/

section CStrings

variable {s pre path rest : Bytes}

theorem cStr_of_notMem (h : 0 ∉ s) : cStr s = s := by
  rw [cStr, List.takeWhile_eq_self_iff]
  intro b hb
  have hne : b ≠ 0 := fun h0 => h (h0 ▸ hb)
  simpa using hne

/-- The string ends at a NUL in its middle. -/
theorem cStr_append (hpre : 0 ∉ pre) (hpath : 0 ∈ path) :
    cStr (pre ++ path ++ rest) = pre ++ cStr path := by
  obtain ⟨a, b, rfl, ha⟩ := List.eq_append_cons_of_mem hpath
  have hfree : 0 ∉ pre ++ a := by simp [hpre, ha]
  have hall : ∀ {l : Bytes} (t : Bytes), 0 ∉ l → cStr (l ++ 0 :: t) = l := by
    intro l t hl
    have hself := cStr_of_notMem hl
    rw [cStr] at hself ⊢
    rw [List.takeWhile_append, hself]
    simp
  have hline : pre ++ (a ++ 0 :: b) ++ rest = pre ++ a ++ 0 :: (b ++ rest) := by simp
  rw [hline, hall _ hfree, hall _ ha]

theorem cStr_prefix : cStr s <+: s := List.takeWhile_prefix _

end CStrings

/-! ## The line that is sent -/

/-- The request that is written. -/
def bare (q : Request) : Request := { q with query := none, query_sp := nofun, query_crlf := nofun }

theorem tmp_version {version : Version} (h : version ≠ .kUnknown) :
    (if version = .kHttp10 then ascii " HTTP/1.0\r\n" else ascii " HTTP/1.1\r\n")
      = SP :: (http ++ [version.digit]) ++ kCRLF := by
  cases version with
  | kUnknown => exact absurd rfl h
  | kHttp10 => decide
  | kHttp11 => decide

theorem tmp_after (s : Statics) {q : Request} (hget : q.method = .kGet) :
    (s.after q).tmp = (bare q).requestLine ++ kCRLF := by
  have hmethod : ascii "GET " = ascii "GET" ++ [SP] := by decide
  have htmp : (s.after q).tmp = ascii "GET " ++ q.path ++
      if q.version = .kHttp10 then ascii " HTTP/1.0\r\n" else ascii " HTTP/1.1\r\n" := rfl
  rw [htmp, tmp_version q.version_known, hmethod]
  simp [Request.requestLine, Request.target, bare, LearnMuduo.Method.name, hget]

/-- No NUL is written beside those of the path. -/
theorem nul_notMem_tmp {s : Statics} (h : 0 ∉ s.path_) : 0 ∉ s.tmp := by
  have hget : 0 ∉ ascii "GET " := by decide
  have htail : 0 ∉ (if s.version_ = .kHttp10 then ascii " HTTP/1.0\r\n"
      else ascii " HTTP/1.1\r\n") := by
    split <;> decide
  simp [Statics.tmp, hget, h, htail]

theorem sentToServer_miss {cache : Cache} {s : Statics} (hmiss : readItem cache s.path_ = none) :
    sentToServer (answer cache s) = cStr s.tmp ++ kCRLF := by
  simp only [sentToServer, answer, hmiss, Statics.forward]
  rfl

theorem startsBlank_crlf : StartsBlank kCRLF := ⟨[], [], by decide, by decide⟩

section Forwarded

variable {cache : Cache} {s : Statics} {r0 : HttpRequest} {line : Bytes} {q : Request}

/-- What the server gets is cut at the first CRLF of the C string. -/
theorem forwardsSame_iff_of_cut {server rest : Bytes} (hmiss : readItem cache s.path_ = none)
    (hcut : cut kCRLF (cStr s.tmp ++ kCRLF) = some (server, rest)) :
    ForwardsSame cache s r0 line ↔ SameMeaning r0 line server := by
  rw [← sentToServer_miss hmiss] at hcut
  constructor
  · rintro ⟨outs, buffer, server', rest', hmessage, hcut', hsame⟩
    rw [onServerMessage_blank cache s startsBlank_crlf] at hmessage
    obtain ⟨rfl, -⟩ := Prod.mk.inj (Except.ok.inj hmessage)
    obtain ⟨rfl, -⟩ := Prod.mk.inj (Option.some.inj (hcut.symm.trans hcut'))
    exact hsame
  · intro hsame
    exact ⟨_, _, server, rest, onServerMessage_blank cache s startsBlank_crlf, hcut, hsame⟩

/-- The path is written whole: the server reads the request without its query. -/
theorem sameMeaning_bare :
    SameMeaning r0 q.requestLine (bare q).requestLine ↔ ∀ query ∈ q.query, query = r0.query_ := by
  have hclient := HttpRequest.ParseRequestLine_requestLine r0 q
  have hserver := HttpRequest.ParseRequestLine_requestLine r0 (bare q)
  constructor
  · rintro ⟨r, r', hr, hr', -, hquery, -⟩ query hmem
    obtain rfl := congrArg Prod.snd (Except.ok.inj (hclient.symm.trans hr))
    obtain rfl := congrArg Prod.snd (Except.ok.inj (hserver.symm.trans hr'))
    have hsome : q.query = some query := hmem
    simpa [bare, hsome, eq_comm] using hquery
  · intro hall
    refine ⟨_, _, hclient, hserver, rfl, ?_, rfl⟩
    cases hq : q.query with
    | none => rfl
    | some query => exact (hall query hq).symm

theorem query_iff : (QUESTION ∈ q.requestLine → (s.after q).query_ = r0.query_) ↔
    ∀ query ∈ q.query, query = r0.query_ := by
  have hmethod : QUESTION ∉ q.method.name := by cases q.method <;> decide
  have hversion : QUESTION ∉ http ++ [q.version.digit] := by cases q.version <;> decide
  have hsp : QUESTION ≠ SP := by decide
  have hline : QUESTION ∈ q.requestLine ↔ QUESTION ∈ q.target := by
    simp only [Request.requestLine, List.mem_append, List.mem_cons, hmethod, hsp, false_or]
    simp only [List.mem_append, List.mem_cons] at hversion
    tauto
  rw [hline, Request.target, Statics.after]
  cases q.query with
  | none => simp [q.path_question]
  | some query => simp

/-- The path is cut at a NUL: nothing behind it is written, and the line has one blank. -/
theorem not_sameMeaning_nul {path : Bytes} (hsp : SP ∉ path) :
    ¬SameMeaning r0 line (ascii "GET " ++ path) := by
  rintro ⟨r, r', -, hr', -⟩
  have hline : ascii "GET " ++ path = ascii "GET" ++ SP :: path := by
    have hmethod : ascii "GET " = ascii "GET" ++ [SP] := by decide
    simp [hmethod]
  have hfalse := HttpRequest.ParseRequestLine_known (s := path) r0 .kGet
  rw [HttpRequest.parseTarget_noBlank _ hsp] at hfalse
  rw [hline] at hr'
  have heq := hfalse.symm.trans hr'
  cases heq

end Forwarded

/-- What the server reads of a request that missed the cache is what it would read of the
    client's line exactly when the path holds no NUL and the line has no query, or the one
    that the server's `HttpRequest` holds already. -/
theorem forward_same_iff {cache : Cache} {s s' : Statics} {line : Bytes} (hcrlf : NoCRLF line)
    (haccepted : s.ParseRequestLine line = .ok (true, s'))
    (hmiss : readItem cache s'.path_ = none) (r0 : HttpRequest) :
    ForwardsSame cache s' r0 line ↔
      0 ∉ s'.path_ ∧ (QUESTION ∈ line → s'.query_ = r0.query_) := by
  obtain ⟨q, hget, rfl, rfl⟩ := Statics.request_of_accepted haccepted hcrlf
  by_cases hnul : 0 ∈ q.path
  · -- the C string ends in the path
    have hcstr : cStr (s.after q).tmp = ascii "GET " ++ cStr q.path :=
      cStr_append (by decide) hnul
    have hpath : cStr q.path <+: q.path := cStr_prefix
    have hsp : SP ∉ cStr q.path := fun hin => q.path_sp (hpath.subset hin)
    have hfree : NoCRLF (ascii "GET" ++ SP :: cStr q.path) :=
      NoCRLF.append_cons (by decide) (by decide) fun hin => q.path_crlf (hin.trans hpath.isInfix)
    have hcut : cut kCRLF (cStr (s.after q).tmp ++ kCRLF)
        = some (ascii "GET " ++ cStr q.path, []) := by
      have hline := hfree.cut []
      rw [List.append_nil] at hline
      rw [hcstr]
      exact hline
    rw [forwardsSame_iff_of_cut hmiss hcut]
    exact iff_of_false (not_sameMeaning_nul hsp) fun h => h.1 hnul
  · have hcut : cut kCRLF (cStr (s.after q).tmp ++ kCRLF) = some ((bare q).requestLine, kCRLF) := by
      rw [cStr_of_notMem (nul_notMem_tmp hnul), tmp_after s hget]
      exact NoCRLF.cut (bare q).requestLine_crlf kCRLF
    rw [forwardsSame_iff_of_cut hmiss hcut, sameMeaning_bare, query_iff]
    exact (and_iff_right hnul).symm

/-- A request without a query, for a server that has read nothing yet. -/
theorem forward_same_iff_example :
    ForwardsSame [] { Statics.zero with path_ := ascii "/a", version_ := .kHttp11 }
      HttpRequest.new (ascii "GET /a HTTP/1.1") :=
  (forward_same_iff (s := Statics.zero) (by decide) rfl rfl HttpRequest.new).mpr
    ⟨by decide, by decide⟩

/-- For `GET /a?b HTTP/1.1` the server is sent `GET /a HTTP/1.1`. -/
theorem query_lost :
    let line := ascii "GET /a?b HTTP/1.1"
    let s : Statics :=
      { method_ := .kGet, path_ := ascii "/a", query_ := ascii "b", version_ := .kHttp11 }
    NoCRLF line ∧ Statics.zero.ParseRequestLine line = .ok (true, s) ∧
      readItem [] s.path_ = none ∧ ¬ForwardsSame [] s HttpRequest.new line := by
  intro line s
  refine ⟨by decide, by decide +kernel, rfl, ?_⟩
  have hcut : cut kCRLF (cStr s.tmp ++ kCRLF) = some (ascii "GET /a HTTP/1.1", kCRLF) := by decide
  rw [forwardsSame_iff_of_cut rfl hcut]
  rintro ⟨r, r', hr, hr', -, hquery, -⟩
  have hclient : r.query_ = ascii "b" :=
    congrArg (fun x => x.2.query_) (Except.ok.inj hr).symm
  have hserver : r'.query_ = [] := congrArg (fun x => x.2.query_) (Except.ok.inj hr').symm
  rw [hclient, hserver] at hquery
  exact absurd hquery (by decide)

end LearnMuduo.Proxy
