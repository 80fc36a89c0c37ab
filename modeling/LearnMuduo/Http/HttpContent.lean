/-
  LearnMuduo.Http.HttpContent

  `bing::HttpContent` (Http/httpContent.h, Http/httpContent.cc): the main state
  machine that reads requests line by line from the input Buffer.

  `ParseContent` is translated as it stands, over the Buffer and its indices.
  `parseBytes` says what it does to the readable bytes: cut off a line at the
  first CRLF, hand it to `onLine`, go on while `onLine` wants more.  The two agree
  (`ParseContent_eq`), and everything about the parser is proved on `parseBytes`.
-/
import LearnMuduo.Http.HttpRequest
import LearnMuduo.Net.BufferSpec

namespace LearnMuduo

open Lib

inductive HttpRequestParseState where
  | kParseRequestLine
  | kParseRequestHeader
  | kParseBody
  | kParseGotCompleteRequest
  | kParseErrno
  deriving DecidableEq, Repr

structure HttpContent where
  request_ : HttpRequest
  parse_state_ : HttpRequestParseState

namespace HttpContent

def new : HttpContent :=
  { request_ := HttpRequest.new, parse_state_ := .kParseRequestLine }

def GetCompleteRequest (c : HttpContent) : Bool :=
  c.parse_state_ = .kParseGotCompleteRequest

def ResetContentState (c : HttpContent) : HttpContent :=
  { c with parse_state_ := .kParseRequestLine }

/-- The locals of `ParseContent`; `crlf` outlives an iteration. -/
structure ParseLocals where
  lineMore : Bool
  parseOk : Bool
  crlf : Option Nat

/-- What `findCRLF()` finds: the CRLF and the line `[peek(), crlf)` in front of it. -/
def nextLine (b : Buffer) : Option (Nat × Bytes) :=
  b.findCRLF.map fun crlf => (crlf, chars b.buffer_ b.readIdx_ crlf)

/-- The branch of `kParseRequestLine`. -/
def branchRequestLine (c : HttpContent) (found : Option (Nat × Bytes)) (v : ParseLocals) :
    Except Fault (HttpContent × ParseLocals) :=
  match found with
  | some (crlf, line) =>
    c.request_.ParseRequestLine line >>= fun r =>
      if r.1 then
        .ok ({ request_ := r.2, parse_state_ := .kParseRequestHeader },
          { v with parseOk := r.1, crlf := some crlf })
      else
        .ok ({ c with request_ := r.2 }, { lineMore := false, parseOk := r.1, crlf := some crlf })
  | none => .ok (c, { v with lineMore := false, crlf := none })

/-- The branch of `kParseRequestHeader`: a line in which no `':'` is found counts as
    the empty line. -/
def branchRequestHeader (c : HttpContent) (found : Option (Nat × Bytes)) (v : ParseLocals) :
    HttpContent × ParseLocals :=
  match found with
  | some (crlf, line) =>
    let colon := stdFind line 0 line.length COLON
    if colon = line.length then
      ({ c with parse_state_ := .kParseGotCompleteRequest },
        { v with lineMore := false, crlf := some crlf })
    else
      let r := c.request_.ParseHeaders line colon
      ({ c with request_ := r.2 },
        { lineMore := v.lineMore && r.1, parseOk := r.1, crlf := some crlf })
  | none => (c, { v with lineMore := false, crlf := none })

/-- The branch on `parse_state_` in one iteration of the loop. -/
def parseBranch (c : HttpContent) (found : Option (Nat × Bytes)) (v : ParseLocals) :
    Except Fault (HttpContent × ParseLocals) :=
  match c.parse_state_ with
  | .kParseRequestLine => c.branchRequestLine found v
  | .kParseRequestHeader => .ok (c.branchRequestHeader found v)
  | .kParseGotCompleteRequest => .ok (c, { v with lineMore := false })
  | .kParseBody | .kParseErrno => .ok (c, v)

/-- `while (lineMore)`. -/
def parseLoop : Nat → HttpContent → Buffer → ParseLocals →
    Except Fault (Bool × HttpContent × Buffer)
  | 0, _, _, _ => .error .spin
  | fuel + 1, c, b, v =>
    if v.lineMore then
      c.parseBranch (nextLine b) v >>= fun r =>
        (match r.2.crlf with
          | some crlf => b.retrieveUntilIdx (crlf + 2)
          | none => .ok b) >>= fun b => parseLoop fuel r.1 b r.2
    else .ok (v.parseOk, c, b)

/-- An iteration that goes on has consumed a CRLF, so one per readable byte, one
    that stops and the last test of the condition are enough; a loop that makes
    no progress runs into `Fault.spin`. -/
def ParseContent (c : HttpContent) (b : Buffer) : Except Fault (Bool × HttpContent × Buffer) :=
  parseLoop (b.readableBytes + 2) c b { lineMore := true, parseOk := true, crlf := none }

/-! ## The parser on bytes -/

/-- One line without its CRLF: whether to go on, the value returned if not, and the
    new state. -/
def onLine (c : HttpContent) (line : Bytes) : Except Fault (Bool × Bool × HttpContent) :=
  match c.parse_state_ with
  | .kParseRequestLine =>
    c.request_.ParseRequestLine line >>= fun r =>
      .ok (r.1, r.1, { request_ := r.2
                       parse_state_ := if r.1 then .kParseRequestHeader else .kParseRequestLine })
  | .kParseRequestHeader =>
    if COLON ∈ line then
      .ok (true, true, { c with request_ := (c.request_.ParseHeaders line (line.idxOf COLON)).2 })
    else .ok (false, true, { c with parse_state_ := .kParseGotCompleteRequest })
  | _ => .error .spin

/-- The states in which a line is looked for. -/
def Reads (c : HttpContent) : Prop :=
  c.parse_state_ = .kParseRequestLine ∨ c.parse_state_ = .kParseRequestHeader

instance (c : HttpContent) : Decidable c.Reads := inferInstanceAs (Decidable (_ ∨ _))

theorem cut_rest_lt {s line rest : Bytes} (h : cut kCRLF s = some (line, rest)) :
    rest.length < s.length := by
  have := cut_length h
  simp only [kCRLF, List.length_cons, List.length_nil] at this
  omega

def parseBytes (c : HttpContent) (s : Bytes) : Except Fault (Bool × HttpContent × Bytes) :=
  if c.Reads then
    match _h : cut kCRLF s with
    | none => .ok (true, c, s)
    | some (line, rest) =>
      c.onLine line >>= fun r =>
        if r.1 then parseBytes r.2.2 rest else .ok (r.2.1, r.2.2, rest)
  else if c.GetCompleteRequest then .ok (true, c, s)
  else .error .spin
  termination_by s.length
  decreasing_by exact cut_rest_lt _h

/-- No line of the bytes is so long that its length does not fit an `int`. -/
inductive LinesShort : Bytes → Prop where
  | rest {s : Bytes} (h : cut kCRLF s = none) : LinesShort s
  | line {s line rest : Bytes} (h : cut kCRLF s = some (line, rest))
      (hline : line.length + 2 < 2 ^ 31) (hrest : LinesShort rest) : LinesShort s

theorem LinesShort.of_length {s : Bytes} (h : s.length < 2 ^ 31) : LinesShort s := by
  cases hc : cut kCRLF s with
  | none => exact .rest hc
  | some p =>
    have := cut_length hc
    simp only [kCRLF, List.length_cons, List.length_nil] at this
    exact .line hc (by omega) (LinesShort.of_length (by omega))
  termination_by s.length
  decreasing_by exact cut_rest_lt hc

theorem LinesShort.of_append {s t : Bytes} (h : LinesShort (s ++ t)) : LinesShort s := by
  cases hc : cut kCRLF s with
  | none => exact .rest hc
  | some p =>
    cases h with
    | rest hn =>
      rw [cut_append t hc] at hn
      simp at hn
    | line hs hline hrest =>
      rw [cut_append t hc] at hs
      obtain ⟨rfl, rfl⟩ := Prod.mk.inj (Option.some.inj hs)
      exact .line hc hline (LinesShort.of_append hrest)
  termination_by s.length
  decreasing_by exact cut_rest_lt hc

theorem LinesShort.tail {s line rest : Bytes} (h : LinesShort s)
    (hcut : cut kCRLF s = some (line, rest)) : LinesShort rest := by
  cases h with
  | rest hn =>
    rw [hcut] at hn
    simp at hn
  | line hs _ hrest =>
    rw [hcut] at hs
    obtain ⟨-, rfl⟩ := Prod.mk.inj (Option.some.inj hs)
    exact hrest

/-! ## parseBytes, one line at a time -/

section Unfold

variable {c : HttpContent} {s : Bytes}

theorem parseBytes_none (hc : c.Reads) (h : cut kCRLF s = none) :
    c.parseBytes s = .ok (true, c, s) := by
  rw [parseBytes, if_pos hc]
  split
  · rfl
  · rename_i h'
    rw [h] at h'
    simp at h'

theorem parseBytes_some {line rest : Bytes} (hc : c.Reads)
    (h : cut kCRLF s = some (line, rest)) :
    c.parseBytes s = c.onLine line >>= fun r =>
      if r.1 then r.2.2.parseBytes rest else .ok (r.2.1, r.2.2, rest) := by
  rw [parseBytes, if_pos hc]
  split
  · rename_i h'
    rw [h] at h'
    simp at h'
  · rename_i h'
    rw [h] at h'
    obtain ⟨rfl, rfl⟩ := Prod.mk.inj (Option.some.inj h')
    rfl

theorem parseBytes_complete (hc : c.GetCompleteRequest = true) :
    c.parseBytes s = .ok (true, c, s) := by
  have : ¬ c.Reads := by
    simp only [GetCompleteRequest, decide_eq_true_eq] at hc
    simp [Reads, hc]
  rw [parseBytes, if_neg this, if_pos hc]

/-- A line that asks for more leaves a state that reads lines. -/
theorem onLine_reads {line : Bytes} {r : Bool × Bool × HttpContent}
    (h : c.onLine line = .ok r) (hmore : r.1 = true) : r.2.2.Reads := by
  unfold onLine at h
  split at h
  · obtain ⟨p, -, hp⟩ := then_ok_iff.mp h
    obtain rfl := Except.ok.inj hp
    simp only at hmore
    simp [Reads, hmore]
  · rename_i hs
    split at h
    · obtain rfl := Except.ok.inj h
      exact Or.inr hs
    · obtain rfl := Except.ok.inj h
      simp at hmore
  · simp at h

/-- Only a line that was parsed asks for more. -/
theorem onLine_ok {line : Bytes} {r : Bool × Bool × HttpContent}
    (h : c.onLine line = .ok r) (hmore : r.1 = true) : r.2.1 = true := by
  unfold onLine at h
  split at h
  · obtain ⟨p, -, hp⟩ := then_ok_iff.mp h
    obtain rfl := Except.ok.inj hp
    exact hmore
  · split at h <;> obtain rfl := Except.ok.inj h <;> rfl
  · simp at h

/-- A line that stops the loop without failing completes the request. -/
theorem onLine_stop {line : Bytes} {r : Bool × Bool × HttpContent}
    (h : c.onLine line = .ok r) (hmore : r.1 = false) (hok : r.2.1 = true) :
    r.2.2.GetCompleteRequest = true := by
  unfold onLine at h
  split at h
  · obtain ⟨p, -, hp⟩ := then_ok_iff.mp h
    obtain rfl := Except.ok.inj hp
    rw [hmore] at hok
    simp at hok
  · split at h
    · obtain rfl := Except.ok.inj h
      simp at hmore
    · obtain rfl := Except.ok.inj h
      rfl
  · simp at h

end Unfold

/-- A call cuts lines off and does nothing else to the bytes: what holds of them, and of
    the rest behind each line, holds of those left unread. -/
theorem parseBytes_rest {P : Bytes → Prop}
    (hcuts : ∀ s line rest, cut kCRLF s = some (line, rest) → P s → P rest)
    {c c' : HttpContent} {s s' : Bytes} {ok : Bool} (h : c.parseBytes s = .ok (ok, c', s'))
    (hp : P s) : P s' := by
  by_cases hc : c.Reads
  · cases hcut : cut kCRLF s with
    | none =>
      -- no line is there: the call waits
      rw [parseBytes_none hc hcut] at h
      obtain ⟨-, -, rfl⟩ : true = ok ∧ c = c' ∧ s = s' := by simpa using h
      exact hp
    | some p =>
      obtain ⟨line, rest⟩ := p
      have hrest : P rest := hcuts s line rest hcut hp
      rw [parseBytes_some hc hcut] at h
      obtain ⟨r, -, h⟩ := then_ok_iff.mp h
      split at h
      · have := cut_rest_lt hcut
        exact parseBytes_rest hcuts h hrest
      · obtain ⟨-, -, rfl⟩ : r.2.1 = ok ∧ r.2.2 = c' ∧ rest = s' := by simpa using h
        exact hrest
  · -- a request that is complete is left as it is
    rw [parseBytes, if_neg hc] at h
    split at h
    · obtain ⟨-, -, rfl⟩ : true = ok ∧ c = c' ∧ s = s' := by simpa using h
      exact hp
    · simp at h
  termination_by s.length

/-- What is left unread is the end of what was there. -/
theorem parseBytes_suffix {c c' : HttpContent} {s s' : Bytes} {ok : Bool}
    (h : c.parseBytes s = .ok (ok, c', s')) : s' <:+ s := by
  refine parseBytes_rest (P := fun rest => rest <:+ s) ?_ h List.suffix_rfl
  intro s1 line rest hcut hsuffix
  exact List.IsSuffix.trans ⟨line ++ kCRLF, (cut_eq hcut).symm⟩ hsuffix

/-- The bytes left unread, with what comes later, have no longer lines than before. -/
theorem parseBytes_short {c c' : HttpContent} {s s' t : Bytes} {ok : Bool}
    (h : c.parseBytes s = .ok (ok, c', s')) (hshort : LinesShort (s ++ t)) :
    LinesShort (s' ++ t) := by
  refine parseBytes_rest (P := fun rest => LinesShort (rest ++ t)) ?_ h hshort
  intro s1 line rest hcut hs
  exact hs.tail (cut_append t hcut)

/-! ## ParseContent computes parseBytes -/

theorem mem_iff_idxOf {line : Bytes} {c : Byte} : c ∈ line ↔ line.idxOf c ≠ line.length :=
  ⟨fun h => (List.idxOf_lt_length_of_mem h).ne, fun h => by
    by_contra hn
    exact h (List.idxOf_eq_length hn)⟩

/-- A call on a Buffer came out as the parse of its readable bytes did. -/
def Computes (m : Except Fault (Bool × HttpContent × Buffer)) :
    Except Fault (Bool × HttpContent × Bytes) → Prop
  | .error e => m = .error e
  | .ok (ok, c, s) => ∃ b, m = .ok (ok, c, b) ∧ b.WF ∧ b.readable = s

theorem Computes.inv {m : Except Fault (Bool × HttpContent × Buffer)}
    {p : Except Fault (Bool × HttpContent × Bytes)} {ok : Bool} {c : HttpContent} {b : Buffer}
    (h : Computes m p) (hm : m = .ok (ok, c, b)) : p = .ok (ok, c, b.readable) ∧ b.WF := by
  subst hm
  cases p with
  | error e => simp [Computes] at h
  | ok r =>
    obtain ⟨ok', c', s⟩ := r
    obtain ⟨b', heq, hwf, rfl⟩ := h
    obtain ⟨rfl, rfl, rfl⟩ : ok = ok' ∧ c = c' ∧ b = b' := by simpa using heq
    exact ⟨rfl, hwf⟩

/-- What `findCRLF` and `retrieveUntilIdx` do together. -/
theorem nextLine_some {b : Buffer} (h : b.WF) {line rest : Bytes}
    (hcut : cut kCRLF b.readable = some (line, rest)) (hline : line.length + 2 < 2 ^ 31) :
    ∃ crlf b', nextLine b = some (crlf, line) ∧
      b.retrieveUntilIdx (crlf + 2) = .ok b' ∧ b'.WF ∧ b'.readable = rest := by
  obtain ⟨k, hk, heq⟩ := Option.map_eq_some_iff.mp hcut
  obtain ⟨rfl, rfl⟩ := Prod.mk.inj heq
  have hle := search_le hk
  have hcr : kCRLF.length = 2 := rfl
  rw [hcr] at hle ⊢
  have hkl : (b.readable.take k).length = k := by rw [List.length_take]; omega
  rw [hkl] at hline
  obtain ⟨b', hb, hwf, hr⟩ := Buffer.retrieveUntilIdx_spec h hle hline
  rw [← Nat.add_assoc] at hb
  refine ⟨b.readIdx_ + k, b', ?_, hb, hwf, hr⟩
  have := h.readable_length
  rw [nextLine, Buffer.findCRLF, hk, Option.map_some, Option.map_some, chars,
    Nat.add_sub_cancel_left, Buffer.readable, slice_take _ _ (by omega)]

theorem nextLine_none {b : Buffer} (hcut : cut kCRLF b.readable = none) : nextLine b = none := by
  have : search kCRLF b.readable = none := by
    rw [search_eq_none_iff, ← cut_eq_none_iff]
    exact hcut
  rw [nextLine, Buffer.findCRLF, this, Option.map_none, Option.map_none]

/-- One iteration in a reading state is one `onLine`. -/
theorem parseBranch_some {c : HttpContent} {v : ParseLocals} {crlf : Nat} {line : Bytes}
    (hc : c.Reads) (hmore : v.lineMore = true) (hok : v.parseOk = true) :
    c.parseBranch (some (crlf, line)) v = c.onLine line >>= fun r =>
      .ok (r.2.2, { lineMore := r.1, parseOk := r.2.1, crlf := some crlf }) := by
  obtain ⟨req, state⟩ := c
  obtain ⟨_, _, _⟩ := v
  obtain rfl : _ = true := hmore
  obtain rfl : _ = true := hok
  rcases hc with rfl | rfl
  · simp only [parseBranch, onLine, branchRequestLine]
    cases req.ParseRequestLine line with
    | error e => rfl
    | ok r =>
      obtain ⟨ok, req'⟩ := r
      cases ok <;> rfl
  · -- a header line: the search for the colon decides
    have hfind : stdFind line 0 line.length COLON = line.idxOf COLON := by simp [stdFind, slice]
    simp only [parseBranch, onLine, branchRequestHeader, hfind]
    by_cases hin : COLON ∈ line
    · rw [if_neg (mem_iff_idxOf.mp hin), if_pos hin]
      rfl
    · rw [if_pos (by_contra fun hne => hin (mem_iff_idxOf.mpr hne)), if_neg hin]
      rfl

theorem parseBranch_none {c : HttpContent} {v : ParseLocals} (hc : c.Reads) :
    c.parseBranch none v = .ok (c, { v with lineMore := false, crlf := none }) := by
  rcases hc with hc | hc <;> rw [parseBranch, hc] <;> rfl

/-- A state in which no line is looked for is left as it is. -/
theorem parseBranch_complete {c : HttpContent} {v : ParseLocals} (found : Option (Nat × Bytes))
    (hc : c.parse_state_ = .kParseGotCompleteRequest) :
    c.parseBranch found v = .ok (c, { v with lineMore := false }) := by
  rw [parseBranch, hc]

theorem parseLoop_step {c c' : HttpContent} {b b' : Buffer} {v v' : ParseLocals} {fuel : Nat}
    (hmore : v.lineMore = true) (hbranch : c.parseBranch (nextLine b) v = .ok (c', v'))
    (hret : (match v'.crlf with
      | some crlf => b.retrieveUntilIdx (crlf + 2)
      | none => .ok b) = .ok b') :
    parseLoop (fuel + 1) c b v = parseLoop fuel c' b' v' := by
  rw [parseLoop, if_pos hmore, hbranch, ok_then, hret, ok_then]

theorem parseLoop_stop {c : HttpContent} {b : Buffer} {v : ParseLocals} {fuel : Nat}
    (hmore : v.lineMore = false) : parseLoop (fuel + 1) c b v = .ok (v.parseOk, c, b) := by
  rw [parseLoop, hmore, if_neg Bool.false_ne_true]

/-- The loop, from any state in which it can be entered, does what `parseBytes` does. -/
theorem parseLoop_eq {s : Bytes} (hshort : LinesShort s) {c : HttpContent} {b : Buffer}
    {crlf : Option Nat} {fuel : Nat} (hwf : b.WF) (hs : b.readable = s) (hc : c.Reads)
    (hfuel : s.length + 1 < fuel) :
    Computes (parseLoop fuel c b ⟨true, true, crlf⟩) (c.parseBytes s) := by
  obtain ⟨fuel, rfl⟩ : ∃ f, fuel = f + 2 := ⟨fuel - 2, by omega⟩
  induction hshort generalizing c b crlf fuel with
  | rest hcut =>
    have hbranch := parseBranch_none (v := ⟨true, true, crlf⟩) hc
    rw [← nextLine_none (hs ▸ hcut)] at hbranch
    rw [parseBytes_none hc hcut]
    refine ⟨b, ?_, hwf, hs⟩
    rw [parseLoop_step rfl hbranch rfl, parseLoop_stop rfl]
  | @line s line rest hcut hline _ ih =>
    obtain ⟨k, b', hnext, hret, hwf', hread⟩ := nextLine_some hwf (hs ▸ hcut) hline
    have hlt := cut_rest_lt hcut
    have hbranch := @parseBranch_some _ ⟨true, true, crlf⟩ k line hc rfl rfl
    rw [← hnext] at hbranch
    rw [parseBytes_some hc hcut]
    cases hon : c.onLine line with
    | error e =>
      rw [hon, error_then] at hbranch
      rw [error_then, parseLoop, if_pos rfl, hbranch, error_then]
      rfl
    | ok r =>
      obtain ⟨more, ok, c'⟩ := r
      rw [hon, ok_then] at hbranch
      rw [ok_then, parseLoop_step rfl hbranch hret]
      cases more with
      | true =>
        -- the line was accepted, so the locals are those of a fresh start
        obtain rfl : ok = true := onLine_ok hon rfl
        obtain ⟨fuel, rfl⟩ : ∃ f, fuel = f + 1 := ⟨fuel - 1, by omega⟩
        exact ih hwf' hread (onLine_reads hon rfl) fuel (by omega)
      | false => exact ⟨b', parseLoop_stop rfl, hwf', hread⟩

theorem parseLoop_complete {c : HttpContent} {b : Buffer} {fuel : Nat}
    (hc : c.parse_state_ = .kParseGotCompleteRequest) (hfuel : 2 ≤ fuel) :
    parseLoop fuel c b ⟨true, true, none⟩ = .ok (true, c, b) := by
  obtain ⟨fuel, rfl⟩ : ∃ f, fuel = f + 2 := ⟨fuel - 2, by omega⟩
  rw [parseLoop_step rfl (parseBranch_complete _ hc) rfl, parseLoop_stop rfl]

/-- In a state that no branch leaves the loop runs for ever. -/
theorem parseLoop_spin {c : HttpContent} (b : Buffer) (fuel : Nat)
    (hc : c.parse_state_ = .kParseBody ∨ c.parse_state_ = .kParseErrno) :
    parseLoop fuel c b ⟨true, true, none⟩ = .error .spin := by
  induction fuel with
  | zero => rfl
  | succ fuel ih =>
    have hbranch : c.parseBranch (nextLine b) ⟨true, true, none⟩ = .ok (c, ⟨true, true, none⟩) := by
      rcases hc with hc | hc <;> rw [parseBranch, hc]
    rw [parseLoop_step rfl hbranch rfl, ih]

/-- `ParseContent` and `parseBytes` agree, and the Buffer stays well-formed. -/
theorem ParseContent_spec (c : HttpContent) {b : Buffer} (hwf : b.WF)
    (hshort : LinesShort b.readable) :
    Computes (c.ParseContent b) (c.parseBytes b.readable) := by
  by_cases hc : c.Reads
  · have hlen := hwf.readable_length
    exact parseLoop_eq hshort hwf rfl hc (by omega)
  · by_cases hcomp : c.GetCompleteRequest = true
    · rw [parseBytes_complete hcomp]
      have hs : c.parse_state_ = .kParseGotCompleteRequest := by
        simpa only [GetCompleteRequest, decide_eq_true_eq] using hcomp
      exact ⟨b, parseLoop_complete hs (Nat.le_add_left 2 _), hwf, rfl⟩
    · have hs : c.parse_state_ = .kParseBody ∨ c.parse_state_ = .kParseErrno := by
        simp only [Reads, GetCompleteRequest, decide_eq_true_eq] at hc hcomp
        cases hst : c.parse_state_ <;> simp [hst] at hc hcomp ⊢
      rw [parseBytes, if_neg hc, if_neg hcomp]
      exact parseLoop_spin b _ hs

theorem ParseContent_ok {c c' : HttpContent} {b : Buffer} {ok : Bool} {s' : Bytes} (hwf : b.WF)
    (hshort : LinesShort b.readable) (h : c.parseBytes b.readable = .ok (ok, c', s')) :
    ∃ b', c.ParseContent b = .ok (ok, c', b') ∧ b'.WF ∧ b'.readable = s' := by
  have hs := ParseContent_spec c hwf hshort
  rw [h] at hs
  exact hs

/-- A call that returned: what it did to the readable bytes. -/
theorem ParseContent_inv {c c' : HttpContent} {b b' : Buffer} {ok : Bool} (hwf : b.WF)
    (hshort : LinesShort b.readable) (h : c.ParseContent b = .ok (ok, c', b')) :
    c.parseBytes b.readable = .ok (ok, c', b'.readable) ∧ b'.WF :=
  (ParseContent_spec c hwf hshort).inv h

/-! ## Growing input -/

/-- A call that did not wait for more bytes does not look at bytes that come later. -/
theorem parseBytes_append {c c' : HttpContent} {s s' : Bytes} {ok : Bool} (t : Bytes)
    (h : c.parseBytes s = .ok (ok, c', s')) (hdone : ok = false ∨ c'.GetCompleteRequest = true) :
    c.parseBytes (s ++ t) = .ok (ok, c', s' ++ t) := by
  by_cases hc : c.Reads
  · cases hcut : cut kCRLF s with
    | none =>
      rw [parseBytes_none hc hcut] at h
      obtain ⟨rfl, rfl, rfl⟩ : true = ok ∧ c = c' ∧ s = s' := by simpa using h
      -- waiting is neither a failure nor a completion
      exfalso
      simp only [GetCompleteRequest, decide_eq_true_eq, reduceCtorEq, false_or] at hdone
      rcases hc with hc | hc <;> simp [hc] at hdone
    | some p =>
      obtain ⟨line, rest⟩ := p
      rw [parseBytes_some hc hcut] at h
      rw [parseBytes_some hc (cut_append t hcut)]
      obtain ⟨r, hr, h⟩ := then_ok_iff.mp h
      simp only [hr, ok_then]
      split at h
      · rename_i hmore
        rw [if_pos hmore]
        have := cut_rest_lt hcut
        -- the loop goes on with the rest of the line, in both runs
        exact parseBytes_append t h hdone
      · rename_i hmore
        rw [if_neg hmore]
        obtain ⟨rfl, rfl, rfl⟩ : r.2.1 = ok ∧ r.2.2 = c' ∧ rest = s' := by simpa using h
        rfl
  · rw [parseBytes, if_neg hc] at h ⊢
    split at h
    · rename_i hcomp
      rw [if_pos hcomp]
      obtain ⟨rfl, rfl, rfl⟩ : true = ok ∧ c = c' ∧ s = s' := by simpa using h
      rfl
    · simp at h
  termination_by s.length

/-- An exception is thrown at the same line, whatever follows. -/
theorem parseBytes_error_append {c : HttpContent} {s : Bytes} {e : Fault} (t : Bytes)
    (h : c.parseBytes s = .error e) : c.parseBytes (s ++ t) = .error e := by
  by_cases hc : c.Reads
  · cases hcut : cut kCRLF s with
    | none =>
      rw [parseBytes_none hc hcut] at h
      simp at h
    | some p =>
      obtain ⟨line, rest⟩ := p
      rw [parseBytes_some hc hcut] at h
      rw [parseBytes_some hc (cut_append t hcut)]
      cases hr : c.onLine line with
      -- the line that throws is cut off the same way
      | error e' =>
        rw [hr] at h
        exact h
      | ok r =>
        simp only [hr, ok_then] at h ⊢
        split at h
        · rename_i hmore
          rw [if_pos hmore]
          have := cut_rest_lt hcut
          exact parseBytes_error_append t h
        · simp at h
  · rw [parseBytes, if_neg hc] at h ⊢
    split at h
    · simp at h
    · rename_i hcomp
      rw [if_neg hcomp]
      exact h
  termination_by s.length

/-- A call that waits for more bytes resumes where it stopped: the suspended state
    with the unread rest and what comes later parses as everything at once. -/
theorem parseBytes_resume {c c' : HttpContent} {s s' : Bytes} (t : Bytes)
    (h : c.parseBytes s = .ok (true, c', s')) (hc : c.Reads)
    (hwait : c'.GetCompleteRequest = false) :
    c'.parseBytes (s' ++ t) = c.parseBytes (s ++ t) ∧ c'.Reads := by
  cases hcut : cut kCRLF s with
  | none =>
    rw [parseBytes_none hc hcut] at h
    -- nothing was cut off, so nothing is resumed
    obtain ⟨rfl, rfl⟩ : c = c' ∧ s = s' := by simpa using h
    exact ⟨rfl, hc⟩
  | some p =>
    obtain ⟨line, rest⟩ := p
    rw [parseBytes_some hc hcut] at h
    rw [parseBytes_some hc (cut_append t hcut)]
    obtain ⟨r, hr, h⟩ := then_ok_iff.mp h
    simp only [hr, ok_then]
    split at h
    · rename_i hmore
      rw [if_pos hmore]
      have := cut_rest_lt hcut
      exact parseBytes_resume t h (onLine_reads hr hmore) hwait
    · -- a line that stops the loop either fails or completes the request
      rename_i hmore
      obtain ⟨hok, rfl, rfl⟩ : r.2.1 = true ∧ r.2.2 = c' ∧ rest = s' := by simpa using h
      have := onLine_stop hr (by simpa using hmore) hok
      rw [this] at hwait
      simp at hwait
  termination_by s.length

end HttpContent

end LearnMuduo
