/-
  LearnMuduo.Proxy.Split

  How the bytes of a request reach the proxy.

  `ParseRequest` looks at the first line only: a request line takes everything behind it
  out of the buffer, and a line without an `'H'` is answered and stays.  A request is
  answered exactly when its blank line comes in a call of its own
  (`head_answered_iff`).
-/
import LearnMuduo.Proxy.Proxy

namespace LearnMuduo.Proxy

open Lib

/-- A GET request: a request line and header lines.  Of `request` only the request line
    is used. -/
structure GetHead where
  request : Request
  headers : List Bytes
  get : request.method = .kGet
  header_colon : ∀ h ∈ headers, COLON ∈ h
  header_crlf : ∀ h ∈ headers, NoCRLF h

def GetHead.bytes (h : GetHead) : Bytes :=
  h.request.requestLine ++ kCRLF ++ ((h.headers.flatMap fun line => line ++ kCRLF) ++ kCRLF)

/-- The calls of `onServerMessage` for the bytes that arrive, one after the other. -/
def receiveAll (cache : Cache) : Statics → Bytes → List Bytes →
    Except Fault (List Output × Statics × Bytes)
  | s, buffer, [] => .ok ([], s, buffer)
  | s, buffer, chunk :: chunks =>
    onServerMessage cache s (buffer ++ chunk) >>= fun r =>
      receiveAll cache r.2.1 r.2.2 chunks >>= fun rest => .ok (r.1 ++ rest.1, rest.2)

/-- One lookup for the path, and behind it the reply from the cache or one request to the
    server. -/
def Answered (cache : Cache) (path : Bytes) (outs : List Output) : Prop :=
  match readItem cache path with
  | some obj => outs = .lookup (cStr path) :: reply obj
  | none => ∃ data, outs = [.lookup (cStr path), .toServer data, .toServer rescrlf]

/-- The last call finds a blank line first, and each call before it a request line, the
    last of these with the path of the request. -/
def BlankAlone (path : Bytes) (chunks : List Bytes) : Prop :=
  ∃ init chunk last, chunks = init ++ [chunk, last] ∧
    (∀ c ∈ init, ∃ q, StartsRequest q c) ∧
    (∃ q, StartsRequest q chunk ∧ cStr q.path = cStr path) ∧ StartsBlank last

/-! ## Answers -/

section Answers

variable {cache : Cache} {s : Statics} {path : Bytes} {outs outs' : List Output}

theorem answered_answer (h : cStr s.path_ = cStr path) : Answered cache path (answer cache s) := by
  unfold Answered answer
  rw [readItem_congr h, h]
  cases readItem cache path with
  | some obj => rfl
  | none => exact ⟨_, rfl⟩

/-- An answer has one lookup, and it comes first. -/
theorem Answered.lookup (h : Answered cache path outs) :
    ∃ rest, outs = .lookup (cStr path) :: rest ∧ ∀ p, .lookup p ∉ rest := by
  unfold Answered at h
  split at h
  · exact ⟨_, h, by simp [reply]⟩
  · obtain ⟨data, h⟩ := h
    exact ⟨_, h, by simp⟩

/-- Nothing comes behind an answer that is a whole outcome. -/
theorem Answered.of_append (h : Answered cache path (answer cache s ++ outs)) :
    cStr s.path_ = cStr path ∧ ∀ p, .lookup p ∉ outs := by
  obtain ⟨rest, heq, hnone⟩ := h.lookup
  obtain ⟨hpath, rfl⟩ := List.cons.inj heq
  refine ⟨Output.lookup.inj hpath, fun p hp => hnone p ?_⟩
  exact List.mem_append_right _ hp

end Answers

/-! ## Calls -/

section Calls

variable {cache : Cache} {s s' : Statics} {buffer buffer' : Bytes} {path : Bytes}
  {outs : List Output} {chunks : List Bytes}

theorem receiveAll_cons {chunk : Bytes}
    (h : receiveAll cache s buffer (chunk :: chunks) = .ok (outs, s', buffer')) :
    ∃ first t b rest, onServerMessage cache s (buffer ++ chunk) = .ok (first, t, b) ∧
      receiveAll cache t b chunks = .ok (rest, s', buffer') ∧ outs = first ++ rest := by
  obtain ⟨⟨first, t, b⟩, hmessage, h⟩ := then_ok_iff.mp h
  obtain ⟨⟨rest, u, b'⟩, hrest, h⟩ := then_ok_iff.mp h
  obtain ⟨rfl, rfl, rfl⟩ : first ++ rest = outs ∧ u = s' ∧ b' = buffer' := by simpa using h
  exact ⟨first, t, b, rest, hmessage, hrest, rfl⟩

/-- A blank line that was found stays the first line. -/
theorem StartsBlank.append (h : StartsBlank buffer) (more : Bytes) :
    StartsBlank (buffer ++ more) := by
  obtain ⟨line, rest, hcut, hletter⟩ := h
  exact ⟨line, rest ++ more, cut_append more hcut, hletter⟩

/-- Every call behind it looks up a path again. -/
theorem lookup_of_blank (hblank : StartsBlank buffer) (hne : chunks ≠ [])
    (h : receiveAll cache s buffer chunks = .ok (outs, s', buffer')) :
    ∃ p, Output.lookup p ∈ outs := by
  cases chunks with
  | nil => exact absurd rfl hne
  | cons chunk chunks =>
    obtain ⟨first, t, b, rest, hmessage, -, rfl⟩ := receiveAll_cons h
    rw [onServerMessage_blank cache s (hblank.append chunk)] at hmessage
    obtain ⟨rfl, -⟩ := Prod.mk.inj (Except.ok.inj hmessage)
    exact ⟨cStr s.path_, by simp [answer]⟩

theorem receiveAll_request {chunk : Bytes} {q : Request} (h : StartsRequest q chunk)
    (more : List Bytes) :
    receiveAll cache s [] (chunk :: more) = receiveAll cache (s.after q) [] more := by
  rw [receiveAll, List.nil_append, onServerMessage_request cache s h, ok_then]
  cases receiveAll cache (s.after q) [] more with
  | error e => rfl
  | ok r => rfl

/-- Request lines leave an empty buffer, and nothing else. -/
theorem receiveAll_requests (hall : ∀ c ∈ chunks, ∃ q, StartsRequest q c) (more : List Bytes) :
    ∃ t, receiveAll cache s [] (chunks ++ more) = receiveAll cache t [] more := by
  induction chunks generalizing s with
  | nil => exact ⟨s, rfl⟩
  | cons chunk chunks ih =>
    obtain ⟨q, hq⟩ := hall chunk List.mem_cons_self
    obtain ⟨t, ht⟩ := ih (s := s.after q) fun c hc => hall c (List.mem_cons_of_mem chunk hc)
    exact ⟨t, (receiveAll_request hq (chunks ++ more)).trans ht⟩

/-- The calls in front of an answer, which comes in the last call; the path is that of the
    last request line, or was there at the start. -/
theorem blank_of_answered (hans : Answered cache path outs)
    (h : receiveAll cache s [] chunks = .ok (outs, s', buffer')) :
    ∃ init last, chunks = init ++ [last] ∧ (∀ c ∈ init, ∃ q, StartsRequest q c) ∧
      StartsBlank last ∧
      (init = [] ∧ cStr s.path_ = cStr path ∨
        ∃ init' chunk q, init = init' ++ [chunk] ∧ StartsRequest q chunk ∧
          cStr q.path = cStr path) := by
  induction chunks generalizing s with
  | nil =>
    obtain ⟨rest, hlookup, -⟩ := hans.lookup
    obtain ⟨rfl, -⟩ := Prod.mk.inj (Except.ok.inj h)
    cases hlookup
  | cons chunk chunks ih =>
    obtain ⟨first, t, b, rest, hmessage, hrest, rfl⟩ := receiveAll_cons h
    rw [List.nil_append] at hmessage
    rcases onServerMessage_cases hmessage with
      ⟨q, hq, rfl, rfl, rfl⟩ | ⟨hblank, rfl, rfl, rfl⟩ | ⟨-, -, rfl, -⟩
    · -- a request line, and the rest of the calls
      obtain ⟨init, last, rfl, hinit, hlast, hpath⟩ := ih hrest
      refine ⟨chunk :: init, last, rfl, ?_, hlast, Or.inr ?_⟩
      · intro c hc
        rcases List.mem_cons.mp hc with rfl | hc
        · exact ⟨q, hq⟩
        · exact hinit c hc
      · rcases hpath with ⟨rfl, hpath⟩ | ⟨init', chunk', q', rfl, hq', hpath⟩
        · exact ⟨[], chunk, q, rfl, hq, hpath⟩
        · exact ⟨chunk :: init', chunk', q', rfl, hq', hpath⟩
    · -- a blank line: a further call would look up once more
      obtain ⟨hpath, hnone⟩ := hans.of_append
      have hnil : chunks = [] := by
        by_contra hne
        obtain ⟨p, hp⟩ := lookup_of_blank hblank hne hrest
        exact hnone p hp
      exact ⟨[], b, by rw [hnil]; rfl, nofun, hblank, Or.inl ⟨rfl, hpath⟩⟩
    · -- an error reply is no lookup
      obtain ⟨tail, hlookup, -⟩ := hans.lookup
      cases hlookup

end Calls

theorem GetHead.starts (h : GetHead) : StartsRequest h.request h.bytes := ⟨h.get, _, rfl⟩

/-- A request is answered, by one lookup of its path and one reply or one request to the
    server, exactly when its bytes come so that the last call finds a blank line first
    and each call before it a request line. -/
theorem head_answered_iff (cache : Cache) (s : Statics) (h : GetHead) {chunks : List Bytes}
    (hbytes : chunks.flatten = h.bytes) :
    (∃ outs s' buffer, receiveAll cache s [] chunks = .ok (outs, s', buffer) ∧
      Answered cache h.request.path outs) ↔ BlankAlone h.request.path chunks := by
  constructor
  · rintro ⟨outs, s', buffer, hrun, hans⟩
    obtain ⟨init, last, rfl, hinit, hlast, ⟨rfl, -⟩ | ⟨init', chunk, q, rfl, hq, hpath⟩⟩ :=
      blank_of_answered hans hrun
    · -- a single call has the request line in front
      have hwhole : last = h.bytes := by simpa using hbytes
      exact absurd hlast (not_startsBlank_of_request (hwhole ▸ h.starts))
    · refine ⟨init', chunk, last, by simp, fun c hc => hinit c ?_, ⟨q, hq, hpath⟩, hlast⟩
      exact List.mem_append_left _ hc
  · rintro ⟨init, chunk, last, rfl, hinit, ⟨q, hq, hpath⟩, hlast⟩
    obtain ⟨t, ht⟩ := @receiveAll_requests cache s _ hinit [chunk, last]
    have hlast' : receiveAll cache (t.after q) [] [last]
        = .ok (answer cache (t.after q) ++ [], t.after q, last) := by
      rw [receiveAll, List.nil_append, onServerMessage_blank cache _ hlast]
      rfl
    refine ⟨_, _, _, (ht.trans (receiveAll_request hq [last])).trans hlast', ?_⟩
    rw [List.append_nil]
    exact answered_answer hpath

/-- `GET /a?b HTTP/1.1`, without headers. -/
def getAlone : GetHead where
  request := Request.getExample
  headers := []
  get := rfl
  header_colon _ h := absurd h List.not_mem_nil
  header_crlf _ h := absurd h List.not_mem_nil

/-- The request line in one call and the blank line in the next. -/
theorem head_answered_iff_example :
    ∃ outs s' buffer, receiveAll [] .zero [] [getAlone.request.requestLine ++ kCRLF, kCRLF]
        = .ok (outs, s', buffer) ∧ Answered [] getAlone.request.path outs := by
  have hline : StartsRequest getAlone.request (getAlone.request.requestLine ++ kCRLF) :=
    ⟨rfl, [], by simp⟩
  have hblank : StartsBlank kCRLF := ⟨[], [], by decide, by decide⟩
  exact (head_answered_iff [] .zero getAlone (by decide)).mpr
    ⟨[], _, _, rfl, nofun, ⟨_, hline, rfl⟩, hblank⟩

/-- The whole request in one call: nothing is looked up and nothing sent. -/
theorem whole_head_ignored :
    (receiveAll [] .zero [] [getAlone.bytes]).map Prod.fst = .ok [] ∧
      ¬∃ outs s' buffer, receiveAll [] .zero [] [getAlone.bytes] = .ok (outs, s', buffer) ∧
        Answered [] getAlone.request.path outs := by
  have hrun : receiveAll [] .zero [] [getAlone.bytes]
      = .ok ([], Statics.zero.after getAlone.request, []) := receiveAll_request getAlone.starts []
  refine ⟨by rw [hrun]; rfl, ?_⟩
  rintro ⟨outs, s', buffer, h, hans⟩
  obtain ⟨rfl, -⟩ := Prod.mk.inj (Except.ok.inj (hrun.symm.trans h))
  obtain ⟨rest, hlookup, -⟩ := hans.lookup
  cases hlookup

end LearnMuduo.Proxy
