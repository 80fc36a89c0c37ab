/-
  LearnMuduo.Http.Segmentation

  The parser and the chunks in which TCP delivers the bytes.

  `receive` is what happens to a chunk: `readFd` appends it to the Buffer, the
  message callback calls `ParseContent`.  A call that wants more bytes resumes
  where it stopped (`parseBytes_resume`), so the outcome for one request is that
  of a single call on all the bytes, for any number of chunks and any cuts.
-/
import LearnMuduo.Http.Format

namespace LearnMuduo.HttpContent

open Lib

/-- What a caller can see of a call: the value returned, the parser, and the bytes left. -/
def outcome (m : Except Fault (Bool × HttpContent × Buffer)) :
    Except Fault (Bool × HttpContent × Bytes) :=
  m.map fun r => (r.1, r.2.1, r.2.2.readable)

/-- A chunk arrives. -/
def receive (c : HttpContent) (b : Buffer) (chunk : Bytes) :
    Except Fault (Bool × HttpContent × Buffer) :=
  b.appendString chunk >>= fun b => c.ParseContent b

/-- A chunk arrives while one request is parsed: after a call that returned false the
    bytes are only collected. -/
def onChunk (r : Bool × HttpContent × Buffer) (chunk : Bytes) :
    Except Fault (Bool × HttpContent × Buffer) :=
  if r.1 then receive r.2.1 r.2.2 chunk
  else r.2.2.appendString chunk >>= fun b => .ok (r.1, r.2.1, b)

theorem Computes.outcome {m : Except Fault (Bool × HttpContent × Buffer)}
    {p : Except Fault (Bool × HttpContent × Bytes)} (h : Computes m p) :
    HttpContent.outcome m = p := by
  cases p with
  | error e =>
    obtain rfl : m = .error e := h
    rfl
  | ok r =>
    obtain ⟨ok, c, s⟩ := r
    obtain ⟨b, rfl, -, rfl⟩ := h
    rfl

theorem ParseContent_outcome (c : HttpContent) {b : Buffer} (hwf : b.WF)
    (hshort : LinesShort b.readable) :
    outcome (c.ParseContent b) = c.parseBytes b.readable :=
  (ParseContent_spec c hwf hshort).outcome

/-- The bounds under which a run of chunks is followed on bytes. -/
structure Bounded (s : Bytes) : Prop where
  length : s.length < 2 ^ 61
  short : LinesShort s

theorem Bounded.of_length {s : Bytes} (h : s.length < 2 ^ 31) : Bounded s :=
  ⟨Nat.lt_trans h (by decide), LinesShort.of_length h⟩

theorem Bounded.of_append {s t : Bytes} (h : Bounded (s ++ t)) : Bounded s := by
  have hlen := h.length
  rw [List.length_append] at hlen
  exact ⟨by omega, h.short.of_append⟩

/-- Parsing leaves the bounds as they are. -/
theorem Bounded.parseBytes {c c' : HttpContent} {s s' t : Bytes} {ok : Bool}
    (hb : Bounded (s ++ t)) (h : c.parseBytes s = .ok (ok, c', s')) : Bounded (s' ++ t) := by
  have hlen := hb.length
  have hle := (parseBytes_suffix h).length_le
  rw [List.length_append] at hlen
  refine ⟨?_, parseBytes_short h hb.short⟩
  rw [List.length_append]
  exact Nat.lt_of_le_of_lt (Nat.add_le_add_right hle _) hlen

/-- A chunk that fits is appended. -/
theorem appendString_chunk {b : Buffer} (hwf : b.WF) {chunk : Bytes}
    (hlen : (b.readable ++ chunk).length < 2 ^ 61) :
    ∃ b', b.appendString chunk = .ok b' ∧ b'.WF ∧ b'.readable = b.readable ++ chunk := by
  rw [List.length_append] at hlen
  exact Buffer.appendString_returns hwf (by unfold kMaxSize kcheapPrepend; omega)

/-- What a chunk does, on bytes. -/
theorem receive_computes (c : HttpContent) {b : Buffer} (hwf : b.WF) {chunk : Bytes}
    (hb : Bounded (b.readable ++ chunk)) :
    Computes (receive c b chunk) (c.parseBytes (b.readable ++ chunk)) := by
  obtain ⟨b', hb', hwf', hread⟩ := appendString_chunk hwf hb.length
  rw [receive, hb', ok_then, ← hread]
  exact ParseContent_spec c hwf' (hread ▸ hb.short)

/-- What is left to do after a call: nothing but collect bytes when it returned false,
    otherwise parse on. -/
def goOn (ok : Bool) (c : HttpContent) (s : Bytes) : Except Fault (Bool × HttpContent × Bytes) :=
  if ok then c.parseBytes s else .ok (false, c, s)

theorem goOn_true (c : HttpContent) (s : Bytes) : goOn true c s = c.parseBytes s := if_pos rfl

theorem goOn_false (c : HttpContent) (s : Bytes) : goOn false c s = .ok (false, c, s) :=
  if_neg Bool.false_ne_true

/-- Parsing on from where a call stopped is parsing everything at once. -/
theorem parseBytes_goOn {c c' : HttpContent} {s s' : Bytes} {ok : Bool} (t : Bytes)
    (h : c.parseBytes s = .ok (ok, c', s')) : goOn ok c' (s' ++ t) = c.parseBytes (s ++ t) := by
  by_cases hdone : ok = false ∨ c'.GetCompleteRequest = true
  · rw [parseBytes_append t h hdone]
    cases ok with
    | false => rw [goOn_false]
    | true =>
      -- a finished request leaves the bytes behind it alone
      obtain hfalse | hcomp := hdone
      · simp at hfalse
      · rw [goOn_true, parseBytes_complete hcomp]
  · obtain ⟨hok, hwait⟩ := not_or.mp hdone
    obtain rfl : ok = true := by simpa using hok
    rw [goOn_true]
    by_cases hc : c.Reads
    · exact (parseBytes_resume t h hc (by simpa using hwait)).1
    · -- a state that reads no lines returns only when the request is complete
      rw [parseBytes, if_neg hc] at h
      split at h
      · rename_i hcomp
        obtain ⟨rfl, rfl⟩ : c = c' ∧ s = s' := by simpa using h
        exact absurd hcomp hwait
      · simp at h

theorem goOn_append {ok ok' : Bool} {c c' : HttpContent} {s s' : Bytes} (t : Bytes)
    (h : goOn ok c s = .ok (ok', c', s')) : goOn ok' c' (s' ++ t) = goOn ok c (s ++ t) := by
  cases ok with
  | true =>
    rw [goOn_true] at h ⊢
    exact parseBytes_goOn t h
  | false =>
    rw [goOn_false] at h
    obtain ⟨rfl, rfl, rfl⟩ : false = ok' ∧ c = c' ∧ s = s' := by simpa using h
    rw [goOn_false]

theorem goOn_error_append {ok : Bool} {c : HttpContent} {s : Bytes} {e : Fault} (t : Bytes)
    (h : goOn ok c s = .error e) : goOn ok c (s ++ t) = .error e := by
  cases ok with
  | true =>
    rw [goOn_true] at h ⊢
    exact parseBytes_error_append t h
  | false => simp [goOn_false] at h

/-- A parser that stopped has nothing to do until more bytes come. -/
theorem goOn_rests {ok ok' : Bool} {c c' : HttpContent} {s s' : Bytes}
    (h : goOn ok c s = .ok (ok', c', s')) : goOn ok' c' s' = .ok (ok', c', s') := by
  have hgo := goOn_append [] h
  rwa [List.append_nil, List.append_nil, h] at hgo

theorem onChunk_computes {r : Bool × HttpContent × Buffer} (hwf : r.2.2.WF) {chunk : Bytes}
    (hb : Bounded (r.2.2.readable ++ chunk)) :
    Computes (onChunk r chunk) (goOn r.1 r.2.1 (r.2.2.readable ++ chunk)) := by
  cases hr : r.1 with
  | true =>
    rw [onChunk, hr, if_pos rfl, goOn_true]
    exact receive_computes r.2.1 hwf hb
  | false =>
    obtain ⟨b', happ, hwf', hread⟩ := appendString_chunk hwf hb.length
    -- after a failed request no byte is looked at any more
    rw [onChunk, hr, if_neg Bool.false_ne_true, happ, ok_then, goOn_false]
    exact ⟨b', rfl, hwf', hread⟩

/-- What is left unread, with what comes later, stays within the bounds. -/
theorem Bounded.goOn {ok ok' : Bool} {c c' : HttpContent} {s s' t : Bytes}
    (hb : Bounded (s ++ t)) (h : HttpContent.goOn ok c s = .ok (ok', c', s')) :
    Bounded (s' ++ t) := by
  cases ok with
  | true =>
    rw [goOn_true] at h
    exact hb.parseBytes h
  | false =>
    rw [goOn_false] at h
    obtain ⟨-, -, rfl⟩ : false = ok' ∧ c = c' ∧ s = s' := by simpa using h
    exact hb

/-- A run of chunks, from a parser at rest, comes out as one call on all the bytes. -/
theorem run_onChunk {r : Bool × HttpContent × Buffer} {chunks : List Bytes} (hwf : r.2.2.WF)
    (hrest : goOn r.1 r.2.1 r.2.2.readable = .ok (r.1, r.2.1, r.2.2.readable))
    (hb : Bounded (r.2.2.readable ++ chunks.flatten)) :
    Computes (run onChunk r chunks) (goOn r.1 r.2.1 (r.2.2.readable ++ chunks.flatten)) := by
  induction chunks generalizing r with
  | nil =>
    rw [List.flatten_nil, List.append_nil, hrest]
    exact ⟨r.2.2, rfl, hwf, rfl⟩
  | cons chunk chunks ih =>
    rw [List.flatten_cons, ← List.append_assoc] at hb ⊢
    have hchunk := @onChunk_computes _ hwf chunk hb.of_append
    rw [run_cons]
    cases hgo : goOn r.1 r.2.1 (r.2.2.readable ++ chunk) with
    | error e =>
      rw [hgo] at hchunk
      rw [show onChunk r chunk = .error e from hchunk, error_then, goOn_error_append _ hgo]
      rfl
    | ok q =>
      obtain ⟨ok, c, s⟩ := q
      rw [hgo] at hchunk
      obtain ⟨b, hcall, hbwf, rfl⟩ := hchunk
      -- what this chunk left, with the other chunks behind it, is what is still to be parsed
      rw [hcall, ok_then, ← goOn_append _ hgo]
      exact ih hbwf (goOn_rests hgo) (hb.goOn hgo)

theorem parseBytes_nil {c : HttpContent} (hc : c.Reads) : c.parseBytes [] = .ok (true, c, []) :=
  parseBytes_none hc (by decide)

/-- **The parse of one request does not depend on how its bytes are cut.**  When the
    first part waits for more, the second part gives what one call on both gives; and
    a run of chunks gives what one call on all of them gives. -/
theorem ParseContent_segmentation :
    (∀ (s1 s2 : Bytes) (b1 b2 b : Buffer) (c : HttpContent), (s1 ++ s2).length < 2 ^ 31 →
      b1.WF → b1.readable = s1 → HttpContent.new.ParseContent b1 = .ok (true, c, b2) →
      c.GetCompleteRequest = false → b.WF → b.readable = s1 ++ s2 →
        outcome (receive c b2 s2) = outcome (HttpContent.new.ParseContent b)) ∧
      ∀ (chunks : List Bytes) (b0 b : Buffer), chunks.flatten.length < 2 ^ 31 →
        b0.WF → b0.readable = [] → b.WF → b.readable = chunks.flatten →
          outcome (run onChunk (true, HttpContent.new, b0) chunks)
            = outcome (HttpContent.new.ParseContent b) := by
  have hnew : HttpContent.new.Reads := Or.inl rfl
  constructor
  · rintro s1 s2 b1 b2 b c hlen hwf1 rfl hcall hwait hwf hread
    have hlen1 : b1.readable.length < 2 ^ 31 := by
      rw [List.length_append] at hlen
      omega
    obtain ⟨hparse, hwf2⟩ := ParseContent_inv hwf1 (LinesShort.of_length hlen1) hcall
    have hle := (parseBytes_suffix hparse).length_le
    have hlen2 : (b2.readable ++ s2).length < 2 ^ 31 := by
      rw [List.length_append] at hlen ⊢
      omega
    -- the second call resumes on what the first one left in the Buffer
    rw [(receive_computes c hwf2 (.of_length hlen2)).outcome,
      (parseBytes_resume s2 hparse hnew hwait).1, ← hread]
    exact (ParseContent_outcome _ hwf (LinesShort.of_length (by rw [hread]; exact hlen))).symm
  · intro chunks b0 b hlen hwf0 hempty hwf hread
    have hrun := @run_onChunk (true, HttpContent.new, b0) chunks hwf0
      (by rw [goOn_true, hempty, parseBytes_nil hnew])
      (by rw [hempty, List.nil_append]; exact .of_length hlen)
    rw [hrun.outcome, goOn_true, hempty, List.nil_append, ← hread]
    exact (ParseContent_outcome _ hwf (LinesShort.of_length (by rw [hread]; exact hlen))).symm

/-- Cut in the middle of the first CRLF. -/
theorem ParseContent_segmentation_example :
    (∃ b2, HttpContent.new.ParseContent ⟨List.replicate 8 0 ++ ascii "GET / HTTP/1.1\r", 8, 23⟩
        = .ok (true, HttpContent.new, b2) ∧
      outcome (receive HttpContent.new b2 (ascii "\n\r\n"))
        = outcome (HttpContent.new.ParseContent
          ⟨List.replicate 8 0 ++ ascii "GET / HTTP/1.1\r\n\r\n", 8, 26⟩)) ∧
      outcome (run onChunk (true, HttpContent.new, ⟨List.replicate 8 0, 8, 8⟩)
          [ascii "GET / HTTP/1.1\r", ascii "\n\r\n"])
        = outcome (HttpContent.new.ParseContent
          ⟨List.replicate 8 0 ++ ascii "GET / HTTP/1.1\r\n\r\n", 8, 26⟩) := by
  constructor
  · have hwf : Buffer.WF ⟨List.replicate 8 0 ++ ascii "GET / HTTP/1.1\r", 8, 23⟩ := by
      decide +kernel
    have hread : Buffer.readable ⟨List.replicate 8 0 ++ ascii "GET / HTTP/1.1\r", 8, 23⟩
        = ascii "GET / HTTP/1.1\r" := by decide +kernel
    have hwait := parseBytes_none (c := HttpContent.new) (Or.inl rfl)
      (by decide +kernel : cut kCRLF (ascii "GET / HTTP/1.1\r") = none)
    obtain ⟨b2, hcall, -, -⟩ := ParseContent_ok hwf
      (LinesShort.of_length (by rw [hread]; decide)) (hread ▸ hwait)
    exact ⟨b2, hcall, ParseContent_segmentation.1 _ (ascii "\n\r\n") _ b2 _ _ (by decide) hwf
      hread hcall rfl (by decide +kernel) (by decide +kernel)⟩
  · exact ParseContent_segmentation.2 [ascii "GET / HTTP/1.1\r", ascii "\n\r\n"] _ _ (by decide)
      (by decide +kernel) (by decide +kernel) (by decide +kernel) (by decide +kernel)

end LearnMuduo.HttpContent
