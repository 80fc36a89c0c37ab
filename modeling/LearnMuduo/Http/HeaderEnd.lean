/-
  LearnMuduo.Http.HeaderEnd

  Where the header section ends.

  The header branch of `ParseContent` takes the first line without a `':'` for the
  empty line (its comment there says that an empty line was read).  `EndsAt` is
  the shape of the bytes consumed by a parser that completes; the shape a request
  has ends in the empty line, and the parser keeps to it exactly on the byte
  strings whose first such line is empty.
-/
import LearnMuduo.Http.Segmentation

namespace LearnMuduo.HttpContent

open Lib

/-- The verdict of `ParseRequestLine`, which does not depend on earlier requests. -/
def accepts (line : Bytes) : Except Fault Bool :=
  (HttpRequest.new.ParseRequestLine line).map Prod.fst

/-- The line at which a parser stops that reads header lines, or first skips rejected
    request lines up to an accepted one. -/
def endLine (header : Bool) (s : Bytes) : Option Bytes :=
  match _h : cut kCRLF s with
  | none => none
  | some (line, rest) =>
    if header then
      if COLON ∈ line then endLine true rest else some line
    else
      match accepts line with
      | .ok ok => endLine ok rest
      | .error _ => none
  termination_by s.length
  decreasing_by all_goals exact cut_rest_lt _h

/-- `s` is rejected lines and an accepted request line (unless `header`), header
    lines with a `':'`, the line `last` without one, and `rest`. -/
inductive EndsAt : Bool → Bytes → Bytes → Bytes → Prop where
  | last {last rest : Bytes} (hfree : NoCRLF last) (hcolon : COLON ∉ last) :
      EndsAt true (last ++ kCRLF ++ rest) last rest
  | header {line s last rest : Bytes} (hfree : NoCRLF line) (hcolon : COLON ∈ line)
      (h : EndsAt true s last rest) : EndsAt true (line ++ kCRLF ++ s) last rest
  | requestLine {line s last rest : Bytes} {ok : Bool} (hfree : NoCRLF line)
      (hline : accepts line = .ok ok) (h : EndsAt ok s last rest) :
      EndsAt false (line ++ kCRLF ++ s) last rest

/-- A chunk arrives; the next call is made whatever this one returns. -/
def feed (p : HttpContent × Buffer) (chunk : Bytes) : Except Fault (HttpContent × Buffer) :=
  receive p.1 p.2 chunk >>= fun r => .ok (r.2.1, r.2.2)

/-! ## The stopping line -/

section EndLine

variable {s line rest : Bytes}

theorem endLine_none {header : Bool} (h : cut kCRLF s = none) : endLine header s = none := by
  rw [endLine]
  split
  · rfl
  · rename_i h'
    rw [h] at h'
    simp at h'

theorem endLine_header (h : cut kCRLF s = some (line, rest)) :
    endLine true s = if COLON ∈ line then endLine true rest else some line := by
  rw [endLine]
  split
  · rename_i h'
    rw [h] at h'
    simp at h'
  · rename_i h'
    rw [h] at h'
    obtain ⟨rfl, rfl⟩ := Prod.mk.inj (Option.some.inj h')
    rfl

theorem endLine_requestLine {ok : Bool} (h : cut kCRLF s = some (line, rest))
    (hline : accepts line = .ok ok) : endLine false s = endLine ok rest := by
  rw [endLine]
  split
  · rename_i h'
    rw [h] at h'
    simp at h'
  · rename_i h'
    rw [h] at h'
    obtain ⟨rfl, rfl⟩ := Prod.mk.inj (Option.some.inj h')
    simp [hline]

theorem endLine_throws {e : Fault} (h : cut kCRLF s = some (line, rest))
    (hline : accepts line = .error e) : endLine false s = none := by
  rw [endLine]
  split
  · rfl
  · rename_i h'
    rw [h] at h'
    obtain ⟨rfl, rfl⟩ := Prod.mk.inj (Option.some.inj h')
    simp [hline]

/-- Bytes have this shape for one last line only. -/
theorem EndsAt.endLine_eq {header : Bool} {last : Bytes} (h : EndsAt header s last rest) :
    endLine header s = some last := by
  induction h with
  | last hfree hcolon => rw [endLine_header (hfree.cut _), if_neg hcolon]
  | header hfree hcolon _ ih => rw [endLine_header (hfree.cut _), if_pos hcolon, ih]
  | requestLine hfree hline _ ih => rw [endLine_requestLine (hfree.cut _) hline, ih]

end EndLine

/-! ## A parser that completes has consumed this shape -/

/-- The bytes `s` take this parser to the completed request and leave `rest`. -/
def Ends (c : HttpContent) (s rest : Bytes) : Prop :=
  match c.parse_state_ with
  | .kParseRequestLine => ∃ last, EndsAt false s last rest
  | .kParseRequestHeader => ∃ last, EndsAt true s last rest
  | _ => s = rest

theorem accepts_eq {r r' : HttpRequest} {line : Bytes} {ok : Bool}
    (h : r.ParseRequestLine line = .ok (ok, r')) : accepts line = .ok ok := by
  rw [accepts, HttpRequest.ParseRequestLine_fst HttpRequest.new r, h]
  rfl

theorem ParseRequestLine_of_accepts {line : Bytes} {ok : Bool} (h : accepts line = .ok ok)
    (r : HttpRequest) : ∃ r', r.ParseRequestLine line = .ok (ok, r') := by
  rw [accepts, HttpRequest.ParseRequestLine_fst HttpRequest.new r] at h
  cases hp : r.ParseRequestLine line with
  | error e => simp [hp, Except.map] at h
  | ok p =>
    obtain ⟨ok', r'⟩ := p
    obtain rfl : ok' = ok := by simpa [hp, Except.map] using h
    exact ⟨r', rfl⟩

/-- One line consumed: what came before the end of the rest came before the end. -/
theorem onLine_ends {c : HttpContent} {s line s' rest : Bytes} {r : Bool × Bool × HttpContent}
    (hcut : cut kCRLF s = some (line, s')) (h : c.onLine line = .ok r)
    (hends : Ends r.2.2 s' rest) : Ends c s rest := by
  have hfree := noCRLF_of_cut hcut
  rw [cut_eq hcut]
  unfold onLine at h
  split at h
  · rename_i hc
    obtain ⟨⟨ok, r'⟩, hline, hr⟩ := then_ok_iff.mp h
    obtain rfl := Except.ok.inj hr
    have hacc := accepts_eq hline
    rw [Ends, hc]
    cases ok with
    -- an accepted request line leads on to the headers, a rejected one to the next line
    | true =>
      obtain ⟨last, hlast⟩ := hends
      exact ⟨last, .requestLine hfree hacc hlast⟩
    | false =>
      obtain ⟨last, hlast⟩ := hends
      exact ⟨last, .requestLine hfree hacc hlast⟩
  · rename_i hc
    rw [Ends, hc]
    split at h
    · -- a line with a colon is a header, one without it is the last
      rename_i hcolon
      obtain rfl := Except.ok.inj h
      rw [Ends, hc] at hends
      obtain ⟨last, hlast⟩ := hends
      exact ⟨last, .header hfree hcolon hlast⟩
    · rename_i hcolon
      obtain rfl := Except.ok.inj h
      obtain rfl : s' = rest := hends
      exact ⟨line, .last hfree hcolon⟩
  · simp at h

theorem parseBytes_ends {c c' : HttpContent} {s s' t rest : Bytes} {ok : Bool}
    (h : c.parseBytes s = .ok (ok, c', s')) (hends : Ends c' (s' ++ t) rest) :
    Ends c (s ++ t) rest := by
  by_cases hc : c.Reads
  · cases hcut : cut kCRLF s with
    | none =>
      rw [parseBytes_none hc hcut] at h
      obtain ⟨-, rfl, rfl⟩ : true = ok ∧ c = c' ∧ s = s' := by simpa using h
      exact hends
    | some p =>
      obtain ⟨line, s1⟩ := p
      rw [parseBytes_some hc hcut] at h
      obtain ⟨r, hr, h⟩ := then_ok_iff.mp h
      refine onLine_ends (cut_append t hcut) hr ?_
      split at h
      · have := cut_rest_lt hcut
        exact parseBytes_ends h hends
      · obtain ⟨-, rfl, rfl⟩ : r.2.1 = ok ∧ r.2.2 = c' ∧ s1 = s' := by simpa using h
        exact hends
  · rw [parseBytes, if_neg hc] at h
    split at h
    · obtain ⟨-, rfl, rfl⟩ : true = ok ∧ c = c' ∧ s = s' := by simpa using h
      exact hends
    · simp at h
  termination_by s.length

theorem feed_spec {p q : HttpContent × Buffer} {chunk t : Bytes} (hwf : p.2.WF)
    (hb : Bounded (p.2.readable ++ chunk ++ t)) (h : feed p chunk = .ok q) :
    q.2.WF ∧ Bounded (q.2.readable ++ t) ∧
      ∃ ok, p.1.parseBytes (p.2.readable ++ chunk) = .ok (ok, q.1, q.2.readable) := by
  obtain ⟨r, hr, hq⟩ := then_ok_iff.mp h
  obtain rfl := Except.ok.inj hq
  obtain ⟨hparse, hwf'⟩ := (receive_computes p.1 hwf hb.of_append).inv hr
  exact ⟨hwf', hb.parseBytes hparse, r.1, hparse⟩

/-- A chunk whose parse returns is taken in. -/
theorem feed_returns {p : HttpContent × Buffer} {chunk s' : Bytes} {ok : Bool} {c' : HttpContent}
    (hwf : p.2.WF) (hb : Bounded (p.2.readable ++ chunk))
    (h : p.1.parseBytes (p.2.readable ++ chunk) = .ok (ok, c', s')) :
    ∃ b', feed p chunk = .ok (c', b') ∧ b'.WF ∧ b'.readable = s' := by
  have hcomp := receive_computes p.1 hwf hb
  rw [h] at hcomp
  obtain ⟨b', hb', hwf', hread⟩ := hcomp
  exact ⟨b', by rw [feed, hb', ok_then], hwf', hread⟩

/-- The run lemma: a run that completes has consumed a shape that ends. -/
theorem run_feed_ends {p q : HttpContent × Buffer} {chunks : List Bytes} (hwf : p.2.WF)
    (hb : Bounded (p.2.readable ++ chunks.flatten)) (hrun : run feed p chunks = .ok q)
    (hcomp : q.1.GetCompleteRequest = true) :
    Ends p.1 (p.2.readable ++ chunks.flatten) q.2.readable := by
  induction chunks generalizing p with
  | nil =>
    obtain rfl := Except.ok.inj hrun
    simp only [GetCompleteRequest, decide_eq_true_eq] at hcomp
    simp [Ends, hcomp]
  | cons chunk chunks ih =>
    -- the chunk ends somewhere in the shape that the others complete
    obtain ⟨m, hm, hrest⟩ := then_ok_iff.mp hrun
    rw [List.flatten_cons, ← List.append_assoc] at hb ⊢
    obtain ⟨hmwf, hmb, ok, hparse⟩ := feed_spec hwf hb hm
    exact parseBytes_ends hparse (ih hmwf hmb hrest)

/-! ## Every stopping line is reached -/

/-- Behind an accepted request line one call reaches the stopping line. -/
theorem parseBytes_endLine {c : HttpContent} {s last : Bytes}
    (hc : c.parse_state_ = .kParseRequestHeader) (h : endLine true s = some last) :
    ∃ c' s', c.parseBytes s = .ok (true, c', s') ∧ c'.GetCompleteRequest = true := by
  cases hcut : cut kCRLF s with
  | none => simp [endLine_none hcut] at h
  | some p =>
    obtain ⟨line, rest⟩ := p
    rw [endLine_header hcut] at h
    rw [parseBytes_some (Or.inr hc) hcut, onLine, hc]
    by_cases hcolon : COLON ∈ line
    · rw [if_pos hcolon] at h ⊢
      have := cut_rest_lt hcut
      exact parseBytes_endLine rfl h
    · rw [if_neg hcolon]
      exact ⟨_, _, rfl, rfl⟩
  termination_by s.length

theorem parseBytes_accepted {c : HttpContent} {s line rest last : Bytes}
    (hc : c.parse_state_ = .kParseRequestLine) (hcut : cut kCRLF s = some (line, rest))
    (hacc : accepts line = .ok true) (h : endLine true rest = some last) :
    ∃ c' s', c.parseBytes s = .ok (true, c', s') ∧ c'.GetCompleteRequest = true := by
  obtain ⟨r', hline⟩ := ParseRequestLine_of_accepts hacc c.request_
  rw [parseBytes_some (Or.inl hc) hcut, onLine, hc, hline]
  exact parseBytes_endLine rfl h

/-- One call for each rejected line and one for the rest reach the stopping line. -/
theorem run_feed_endLine {p : HttpContent × Buffer} {s last : Bytes}
    (hc : p.1.parse_state_ = .kParseRequestLine) (hwf : p.2.WF) (hempty : p.2.readable = [])
    (hb : Bounded s) (h : endLine false s = some last) :
    ∃ chunks q, chunks.flatten = s ∧ run feed p chunks = .ok q ∧
      q.1.GetCompleteRequest = true := by
  cases hcut : cut kCRLF s with
  | none => simp [endLine_none hcut] at h
  | some pr =>
    obtain ⟨line, rest⟩ := pr
    have hs := cut_eq hcut
    have hlt := cut_rest_lt hcut
    cases hacc : accepts line with
    | error e => simp [endLine_throws hcut hacc] at h
    | ok ok =>
      rw [endLine_requestLine hcut hacc] at h
      cases ok with
      | true =>
        -- accepted: one chunk with everything
        obtain ⟨c', s', hparse, hcomp⟩ := parseBytes_accepted hc hcut hacc h
        obtain ⟨b', hfeed, -, -⟩ := @feed_returns p s _ _ _ hwf
          (by rw [hempty]; exact hb) (by rw [hempty]; exact hparse)
        exact ⟨[s], (c', b'), by simp, by rw [run_cons, hfeed]; rfl, hcomp⟩
      | false =>
        -- rejected: the line alone, so that the next call starts behind it
        obtain ⟨r', hline⟩ := ParseRequestLine_of_accepts hacc p.1.request_
        have hcall : p.1.parseBytes (p.2.readable ++ (line ++ kCRLF))
            = .ok (false, { request_ := r', parse_state_ := .kParseRequestLine }, []) := by
          have hcut' := (noCRLF_of_cut hcut).cut []
          rw [List.append_nil] at hcut'
          rw [hempty, List.nil_append, parseBytes_some (Or.inl hc) hcut', onLine, hc, hline]
          rfl
        have hfst : Bounded (line ++ kCRLF) := by
          rw [hs] at hb
          exact hb.of_append
        obtain ⟨b', hfeed, hwf', hread⟩ := feed_returns hwf (by rw [hempty]; exact hfst) hcall
        obtain ⟨chunks, q, hflat, hrun, hcomp⟩ := run_feed_endLine
          (p := ({ request_ := r', parse_state_ := .kParseRequestLine }, b')) rfl hwf' hread
          ⟨by have := hb.length; omega, hb.short.tail hcut⟩ h
        exact ⟨(line ++ kCRLF) :: chunks, q, by rw [List.flatten_cons, hflat, ← hs],
          by rw [run_cons, hfeed]; exact hrun, hcomp⟩
  termination_by s.length

/-! ## The header section ends in the empty line -/

/-- **When completion means an empty line.**  Whatever the chunks, a parser that
    completes has consumed rejected lines, an accepted request line, header lines with
    a `':'` and the empty line, if and only if the first line without a `':'` behind
    the first accepted request line, where there is one, is empty. -/
theorem completes_at_empty_line_iff (s : Bytes) (hlen : s.length < 2 ^ 61)
    (hshort : LinesShort s) :
    (∀ chunks c b, chunks.flatten = s → run feed (HttpContent.new, Buffer.new) chunks = .ok (c, b) →
        c.GetCompleteRequest = true → EndsAt false s [] b.readable)
      ↔ ∀ line ∈ endLine false s, line = [] := by
  have hwf : Buffer.new.WF := Buffer.new_wf (by decide)
  have hempty := Buffer.new_readable kInitialSize
  constructor
  · intro hall line hline
    -- some run stops at the line in question, and by assumption it stops at an empty one
    obtain ⟨chunks, q, hflat, hrun, hcomp⟩ := run_feed_endLine
      (p := (HttpContent.new, Buffer.new)) rfl hwf hempty ⟨hlen, hshort⟩ hline
    have heq := (hall chunks q.1 q.2 hflat hrun hcomp).endLine_eq
    rw [heq] at hline
    exact (Option.some.inj hline).symm
  · rintro hline chunks c b rfl hrun hcomp
    -- a run that completes has consumed a shape, and the shape fixes the line
    have hends := run_feed_ends (p := (HttpContent.new, Buffer.new)) hwf
      (by rw [hempty]; exact ⟨hlen, hshort⟩) hrun hcomp
    rw [hempty, List.nil_append] at hends
    obtain ⟨last, hlast⟩ := hends
    obtain rfl := hline last hlast.endLine_eq
    exact hlast

/-- A header line `foo` ends the section. -/
theorem completes_at_empty_line_example :
    (∀ chunks c b, chunks.flatten = ascii "GET / HTTP/1.1\r\nfoo\r\n" →
        run feed (HttpContent.new, Buffer.new) chunks = .ok (c, b) →
          c.GetCompleteRequest = true →
            EndsAt false (ascii "GET / HTTP/1.1\r\nfoo\r\n") [] b.readable)
      ↔ ∀ line ∈ endLine false (ascii "GET / HTTP/1.1\r\nfoo\r\n"), line = [] :=
  completes_at_empty_line_iff _ (by decide) (LinesShort.of_length (by decide))

theorem completes_at_nonempty_line :
    ∃ q, run feed (HttpContent.new, Buffer.new) [ascii "GET / HTTP/1.1\r\nfoo\r\n"] = .ok q ∧
      q.1.GetCompleteRequest = true ∧
      ¬ EndsAt false (ascii "GET / HTTP/1.1\r\nfoo\r\n") [] q.2.readable := by
  have hcut : cut kCRLF (ascii "GET / HTTP/1.1\r\nfoo\r\n")
      = some (ascii "GET / HTTP/1.1", ascii "foo\r\n") := by decide +kernel
  have hacc : accepts (ascii "GET / HTTP/1.1") = .ok true := by decide +kernel
  -- `foo` has no colon
  have hfoo : endLine true (ascii "foo\r\n") = some (ascii "foo") := by
    rw [@endLine_header _ (ascii "foo") [] (by decide +kernel),
      if_neg (by decide)]
  have hempty := Buffer.new_readable kInitialSize
  obtain ⟨c, s', hparse, hcomp⟩ := parseBytes_accepted (c := HttpContent.new) rfl hcut hacc hfoo
  obtain ⟨b, hfeed, -, -⟩ := @feed_returns (HttpContent.new, Buffer.new)
    (ascii "GET / HTTP/1.1\r\nfoo\r\n") _ _ _ (Buffer.new_wf (by decide))
    (by rw [hempty]; exact ⟨by decide, LinesShort.of_length (by decide)⟩)
    (by rw [hempty]; exact hparse)
  refine ⟨(c, b), by rw [run_cons, hfeed]; rfl, hcomp, fun hends => ?_⟩
  have hline := hends.endLine_eq
  rw [endLine_requestLine hcut hacc, hfoo] at hline
  exact absurd hline (by decide)

end LearnMuduo.HttpContent
