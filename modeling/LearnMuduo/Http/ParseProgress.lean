/-
  LearnMuduo.Http.ParseProgress

  The loop of `ParseContent`, one pass at a time.

  `LoopState` is what the loop works on: the parser, the Buffer and the locals, of which
  `crlf` is shared by all passes.  `Entered` holds whenever the condition is tested: while
  the loop goes on, either a line is looked for, so that this pass overwrites `crlf`, or
  the request was complete before the call and `crlf` is still the null pointer.  A pass
  from there is one of three (`pass_cases`): it stops with nothing to consume, it consumes
  the line and the CRLF it has just found, or the request line throws.
-/
import LearnMuduo.Http.RequestLine
import LearnMuduo.Lib.Loop

namespace LearnMuduo

open Lib

namespace HttpContent

structure LoopState where
  content : HttpContent
  buffer : Buffer
  locals : ParseLocals

namespace LoopState

def goesOn (s : LoopState) : Bool := s.locals.lineMore

/-- `if (crlf)`, at the end of the body. -/
def retrieveLine (b : Buffer) : Option Nat → Except Fault Buffer
  | some crlf => b.retrieveUntilIdx (crlf + 2)
  | none => .ok b

/-- The body of the loop. -/
def pass (s : LoopState) : Except Fault LoopState :=
  s.content.parseBranch (nextLine s.buffer) s.locals >>= fun r =>
    retrieveLine s.buffer r.2.crlf >>= fun b =>
      .ok { content := r.1, buffer := b, locals := r.2 }

def result (s : LoopState) : Bool × HttpContent × Buffer := (s.locals.parseOk, s.content, s.buffer)

end LoopState

open LoopState

/-- Where the loop begins. -/
def atStart (c : HttpContent) (b : Buffer) : LoopState :=
  { content := c, buffer := b, locals := { lineMore := true, parseOk := true, crlf := none } }

/-- `n` passes of the loop on `b` lead to `s`. -/
abbrev RunsTo (c : HttpContent) (b : Buffer) (n : Nat) (s : LoopState) : Prop :=
  Passes goesOn LoopState.pass (c.atStart b) n s

theorem parseLoop_eq_loop (fuel : Nat) (c : HttpContent) (b : Buffer) (v : ParseLocals) :
    parseLoop fuel c b v = loop goesOn LoopState.pass Fault.spin fuel ⟨c, b, v⟩ >>= fun s =>
      .ok s.result := by
  induction fuel generalizing c b v with
  | zero => rfl
  | succ fuel ih =>
    rw [parseLoop, loop]
    cases hmore : v.lineMore with
    | false => simp [goesOn, hmore, result]
    | true =>
      have hgoes : goesOn ⟨c, b, v⟩ = true := hmore
      rw [if_pos rfl, if_pos hgoes, LoopState.pass]
      cases c.parseBranch (nextLine b) v with
      | error e => rfl
      | ok r =>
        simp only [ok_then]
        cases r.2.crlf with
        | none => exact ih r.1 b r.2
        | some crlf =>
          simp only [retrieveLine]
          cases b.retrieveUntilIdx (crlf + 2) with
          | error e => rfl
          | ok b' => exact ih r.1 b' r.2

/-! ## The states of the parser -/

/-- States that are left again: a line is looked for, or the request is complete. -/
def Leaves (c : HttpContent) : Prop := c.Reads ∨ c.parse_state_ = .kParseGotCompleteRequest

theorem Leaves.not_stuck {c : HttpContent} (h : c.Leaves) :
    c.parse_state_ ≠ .kParseBody ∧ c.parse_state_ ≠ .kParseErrno := by
  rcases h with (h | h) | h <;> rw [h] <;> decide

/-- No branch enters `kParseBody` or `kParseErrno`. -/
theorem parseBranch_leaves {c : HttpContent} {found : Option (Nat × Bytes)} {v : ParseLocals}
    {r : HttpContent × ParseLocals} (hc : c.Leaves) (h : c.parseBranch found v = .ok r) :
    r.1.Leaves := by
  rcases hc with (hc | hc) | hc
  · rw [parseBranch, hc] at h
    cases found with
    | none =>
      obtain rfl := Except.ok.inj h
      exact Or.inl (Or.inl hc)
    | some line =>
      obtain ⟨p, -, h⟩ := then_ok_iff.mp h
      split at h
      · obtain rfl := Except.ok.inj h
        exact Or.inl (Or.inr rfl)
      · obtain rfl := Except.ok.inj h
        exact Or.inl (Or.inl hc)
  · rw [parseBranch, hc] at h
    obtain rfl := Except.ok.inj h
    cases found with
    | none => exact Or.inl (Or.inr hc)
    | some line =>
      simp only [branchRequestHeader]
      split
      · exact Or.inr rfl
      · exact Or.inl (Or.inr hc)
  · rw [parseBranch_complete found hc] at h
    obtain rfl := Except.ok.inj h
    exact Or.inr hc

theorem pass_leaves {s t : LoopState} (hs : s.content.Leaves) (h : s.pass = .ok t) :
    t.content.Leaves := by
  obtain ⟨r, hbranch, h⟩ := then_ok_iff.mp h
  obtain ⟨b, -, h⟩ := then_ok_iff.mp h
  obtain rfl := Except.ok.inj h
  exact parseBranch_leaves hs hbranch

theorem parseLoop_leaves {fuel : Nat} {c c' : HttpContent} {b b' : Buffer} {v : ParseLocals}
    {ok : Bool} (hc : c.Leaves) (h : parseLoop fuel c b v = .ok (ok, c', b')) : c'.Leaves := by
  induction fuel generalizing c b v with
  | zero => cases h
  | succ fuel ih =>
    rw [parseLoop] at h
    split at h
    · obtain ⟨r, hbranch, h⟩ := then_ok_iff.mp h
      obtain ⟨b1, -, h⟩ := then_ok_iff.mp h
      exact ih (parseBranch_leaves hc hbranch) h
    · obtain ⟨-, rfl, -⟩ : v.parseOk = ok ∧ c = c' ∧ b = b' := by simpa using h
      exact hc

/-- Reached from the constructor by calls of `ParseContent` and `ResetContentState`. -/
inductive Reached : HttpContent → Prop where
  | new : Reached HttpContent.new
  | parse {c c' : HttpContent} {b b' : Buffer} {ok : Bool} : Reached c →
      c.ParseContent b = .ok (ok, c', b') → Reached c'
  /-- A request line threw; the fields it had assigned by then stay. -/
  | threw {c : HttpContent} {b : Buffer} {request : HttpRequest} : Reached c →
      c.ParseContent b = .error .lengthError →
      Reached { request_ := request, parse_state_ := .kParseRequestLine }
  | reset {c : HttpContent} : Reached c → Reached c.ResetContentState

theorem Reached.leaves {c : HttpContent} (h : c.Reached) : c.Leaves := by
  induction h with
  | new => exact Or.inl (Or.inl rfl)
  | parse _ hparse ih => exact parseLoop_leaves ih hparse
  | threw => exact Or.inl (Or.inl rfl)
  | reset => exact Or.inl (Or.inl rfl)

/-! ## One pass -/

/-- What holds where the condition of the loop is tested. -/
structure Entered (s : LoopState) : Prop where
  leaves : s.content.Leaves
  wf : s.buffer.WF
  short : s.buffer.readableBytes < 2 ^ 31
  parseOk : s.goesOn = true → s.locals.parseOk = true
  /-- The pointer of an earlier pass is not used again. -/
  fresh : s.goesOn = true → s.content.Reads ∨ s.locals.crlf = none

theorem atStart_entered {c : HttpContent} {b : Buffer} (hc : c.Leaves) (hwf : b.WF)
    (hlen : b.readableBytes < 2 ^ 31) : Entered (c.atStart b) :=
  ⟨hc, hwf, hlen, fun _ => rfl, fun _ => Or.inr rfl⟩

/-- A line that is found lies in the readable bytes, with its CRLF. -/
theorem nextLine_bounds {b : Buffer} {crlf : Nat} {line : Bytes} (hwf : b.WF)
    (h : nextLine b = some (crlf, line)) :
    b.findCRLF = some crlf ∧ b.readIdx_ ≤ crlf ∧ crlf + 2 ≤ b.writeIdx_ ∧
      line <+: b.readable := by
  obtain ⟨k, hfind, heq⟩ := Option.map_eq_some_iff.mp h
  obtain ⟨rfl, rfl⟩ := Prod.mk.inj heq
  obtain ⟨i, hi, rfl⟩ := Option.map_eq_some_iff.mp hfind
  have hle : i + kCRLF.length ≤ b.readable.length := search_le hi
  have hcr : kCRLF.length = 2 := rfl
  have hread := hwf.read
  rw [hwf.readable_length, hwf.readableBytes_eq, hcr] at hle
  have hline : chars b.buffer_ b.readIdx_ (b.readIdx_ + i) = b.readable.take i := by
    rw [chars, Nat.add_sub_cancel_left, Buffer.readable, hwf.readableBytes_eq,
      slice_take _ _ (by omega)]
  refine ⟨hfind, by omega, by omega, ?_⟩
  rw [hline]
  exact List.take_prefix i _

/-- A pass of which the branch is known. -/
theorem pass_eq {s : LoopState} {c : HttpContent} {b : Buffer} {v : ParseLocals}
    (hbranch : s.content.parseBranch (nextLine s.buffer) s.locals = .ok (c, v))
    (hret : retrieveLine s.buffer v.crlf = .ok b) :
    s.pass = .ok { content := c, buffer := b, locals := v } := by
  rw [LoopState.pass, hbranch, ok_then, hret, ok_then]

/-- The three kinds of passes. -/
theorem pass_cases {s : LoopState} (h : Entered s) (hmore : s.goesOn = true) :
    (s.content.parseBranch (nextLine s.buffer) s.locals
        = .ok (s.content, { s.locals with lineMore := false, crlf := none }) ∧
      s.pass = .ok { s with locals := { s.locals with lineMore := false, crlf := none } }) ∨
    ∃ crlf line b', s.content.Reads ∧ nextLine s.buffer = some (crlf, line) ∧ b'.WF ∧
      cut kCRLF s.buffer.readable = some (line, b'.readable) ∧
      ((∃ e, s.content.onLine line = .error e ∧
          s.content.parseBranch (nextLine s.buffer) s.locals = .error e) ∨
        ∃ more ok c', s.content.onLine line = .ok (more, ok, c') ∧
          s.content.parseBranch (nextLine s.buffer) s.locals
            = .ok (c', { lineMore := more, parseOk := ok, crlf := some crlf }) ∧
          s.pass = .ok { content := c', buffer := b'
                         locals := { lineMore := more, parseOk := ok, crlf := some crlf } }) := by
  by_cases hreads : s.content.Reads
  · cases hcut : cut kCRLF s.buffer.readable with
    | none =>
      left
      have hbranch : s.content.parseBranch (nextLine s.buffer) s.locals
          = .ok (s.content, { s.locals with lineMore := false, crlf := none }) := by
        rw [nextLine_none hcut]
        exact parseBranch_none hreads
      exact ⟨hbranch, pass_eq hbranch rfl⟩
    | some p =>
      obtain ⟨line, rest⟩ := p
      right
      have hlen := cut_length hcut
      have hbytes := h.wf.readable_length
      have hshort := h.short
      simp only [kCRLF, List.length_cons, List.length_nil] at hlen
      obtain ⟨crlf, b', hnext, hret, hwf', hrest⟩ := nextLine_some h.wf hcut (by omega)
      have hbranch := @parseBranch_some _ s.locals crlf line hreads hmore (h.parseOk hmore)
      rw [← hnext] at hbranch
      refine ⟨crlf, line, b', hreads, hnext, hwf', by rw [hrest], ?_⟩
      cases hon : s.content.onLine line with
      | error e =>
        rw [hon, error_then] at hbranch
        exact Or.inl ⟨e, rfl, hbranch⟩
      | ok r =>
        obtain ⟨more, ok, c'⟩ := r
        rw [hon, ok_then] at hbranch
        exact Or.inr ⟨more, ok, c', rfl, hbranch, pass_eq hbranch hret⟩
  · -- the request was complete before the call
    left
    have hcomplete : s.content.parse_state_ = .kParseGotCompleteRequest :=
      h.leaves.resolve_left hreads
    have hnull : s.locals.crlf = none := (h.fresh hmore).resolve_left hreads
    have hbranch := parseBranch_complete (v := s.locals) (nextLine s.buffer) hcomplete
    have hlocals : { s.locals with lineMore := false }
        = ({ s.locals with lineMore := false, crlf := none } : ParseLocals) := by
      rw [← hnull]
    rw [hlocals] at hbranch
    exact ⟨hbranch, pass_eq hbranch rfl⟩

/-- The Buffer behind a pass holds the end of what it held before. -/
theorem pass_suffix {s t : LoopState} (h : Entered s) (hmore : s.goesOn = true)
    (hpass : s.pass = .ok t) : t.buffer.readable <:+ s.buffer.readable := by
  rcases pass_cases h hmore with ⟨-, hstop⟩ | ⟨crlf, line, b', -, -, -, hcut, hline⟩
  · rw [hstop] at hpass
    obtain rfl := Except.ok.inj hpass
    exact List.suffix_rfl
  · rcases hline with ⟨e, -, hthrows⟩ | ⟨more, ok, c', -, -, hnext⟩
    · rw [LoopState.pass, hthrows, error_then] at hpass
      cases hpass
    · rw [hnext] at hpass
      obtain rfl := Except.ok.inj hpass
      exact ⟨line ++ kCRLF, (cut_eq hcut).symm⟩

/-- A pass keeps `Entered`, and one that goes on has consumed a CRLF. -/
theorem Entered.pass {s t : LoopState} (h : Entered s) (hmore : s.goesOn = true)
    (hpass : s.pass = .ok t) :
    Entered t ∧ (t.goesOn = true → t.buffer.readableBytes + 2 ≤ s.buffer.readableBytes) := by
  have hleaves := pass_leaves h.leaves hpass
  rcases pass_cases h hmore with ⟨-, hstop⟩ | ⟨crlf, line, b', -, -, hwf', hcut, hline⟩
  · rw [hstop] at hpass
    obtain rfl := Except.ok.inj hpass
    exact ⟨⟨h.leaves, h.wf, h.short, fun hgoes => (by cases hgoes), fun _ => Or.inr rfl⟩,
      fun hgoes => (by cases hgoes)⟩
  · rcases hline with ⟨e, -, hthrows⟩ | ⟨more, ok, c', hon, -, hnext⟩
    · rw [LoopState.pass, hthrows, error_then] at hpass
      cases hpass
    · rw [hnext] at hpass
      obtain rfl := Except.ok.inj hpass
      have hshort := h.short
      have hless : b'.readableBytes + 2 ≤ s.buffer.readableBytes := by
        have hlen : s.buffer.readable.length = line.length + 2 + b'.readable.length :=
          cut_length hcut
        rw [h.wf.readable_length, hwf'.readable_length] at hlen
        omega
      refine ⟨⟨hleaves, hwf', by simp only; omega, ?_, ?_⟩, fun _ => hless⟩
      · exact fun hgoes => onLine_ok hon hgoes
      · exact fun hgoes => Or.inl (onLine_reads hon hgoes)

theorem RunsTo.entered {c : HttpContent} {b : Buffer} {n : Nat} {s : LoopState}
    (h : c.RunsTo b n s) (hstart : Entered (c.atStart b)) : Entered s :=
  h.invariant hstart fun _ _ hx hmore hpass => (hx.pass hmore hpass).1

/-! ## The whole loop -/

/-- No request line that the loop meets throws. -/
def LinesReturn (c : HttpContent) (b : Buffer) : Prop :=
  ∀ n s crlf line, c.RunsTo b n s → s.goesOn = true →
    s.content.parse_state_ = .kParseRequestLine → nextLine s.buffer = some (crlf, line) →
    ∃ r, s.content.request_.ParseRequestLine line = .ok r

/-- Bytes without a `'?'` do not throw. -/
theorem LinesReturn.of_question {c : HttpContent} {b : Buffer} (hstart : Entered (c.atStart b))
    (h : QUESTION ∉ b.readable) : c.LinesReturn b := by
  intro n s crlf line hrun hmore _ hnext
  have hs : Entered s ∧ s.buffer.readable <:+ b.readable :=
    hrun.invariant (P := fun x => Entered x ∧ x.buffer.readable <:+ b.readable)
      ⟨hstart, List.suffix_rfl⟩ fun x y hx hgoes hpass =>
        ⟨(hx.1.pass hgoes hpass).1, (pass_suffix hx.1 hgoes hpass).trans hx.2⟩
  obtain ⟨-, -, -, hread⟩ := nextLine_bounds hs.1.wf hnext
  have hline : QUESTION ∉ line := fun hin => h (hs.2.subset (hread.subset hin))
  rcases HttpRequest.ParseRequestLine_outcome s.content.request_ line with ⟨hbehind, -⟩ | ⟨-, hok⟩
  · obtain ⟨method, t, v, rfl, -, -, hv⟩ := hbehind
    have hin : QUESTION ∈ method.name ++ SP :: (t ++ SP :: v) := by simp [hv]
    exact absurd hin hline
  · obtain ⟨ok, r', hok, -⟩ := hok
    exact ⟨_, hok⟩

theorem onLine_returns {c : HttpContent} {line : Bytes} (hc : c.Reads)
    (h : c.parse_state_ = .kParseRequestLine → ∃ r, c.request_.ParseRequestLine line = .ok r) :
    ∃ r, c.onLine line = .ok r := by
  rcases hc with hc | hc
  · obtain ⟨r, hr⟩ := h hc
    rw [onLine, hc]
    simp only [hr, ok_then]
    exact ⟨_, rfl⟩
  · rw [onLine, hc]
    by_cases hcolon : COLON ∈ line
    · simp only [if_pos hcolon]
      exact ⟨_, rfl⟩
    · simp only [if_neg hcolon]
      exact ⟨_, rfl⟩

theorem Entered.returns {c : HttpContent} {b : Buffer} {n : Nat} {s : LoopState}
    (h : Entered s) (hlines : c.LinesReturn b) (hrun : c.RunsTo b n s) (hmore : s.goesOn = true) :
    ∃ t, s.pass = .ok t := by
  rcases pass_cases h hmore with ⟨-, hstop⟩ | ⟨crlf, line, b', hreads, hnext, -, -, hline⟩
  · exact ⟨_, hstop⟩
  · obtain ⟨r, hr⟩ := onLine_returns hreads fun hstate =>
      hlines n s crlf line hrun hmore hstate hnext
    rcases hline with ⟨e, hthrows, -⟩ | ⟨more, ok, c', -, -, hpass⟩
    · rw [hr] at hthrows
      cases hthrows
    · exact ⟨_, hpass⟩

/-- The loop ends, after at most one pass for each two readable bytes and one more. -/
theorem loop_ends {c : HttpContent} {b : Buffer} (hstart : Entered (c.atStart b))
    (hlines : c.LinesReturn b) :
    ∃ n s, c.RunsTo b n s ∧ s.goesOn = false ∧ 2 * n ≤ b.readableBytes + 2 ∧
      c.ParseContent b = .ok s.result := by
  have hkeeps : ∀ x y, Entered x → x.goesOn = true → x.pass = .ok y → Entered y :=
    fun _ _ hx hmore hpass => (hx.pass hmore hpass).1
  have hends : ∃ n s, c.RunsTo b n s ∧ s.goesOn = false := by
    refine Passes.ends (m := fun s => s.buffer.readableBytes) (P := Entered) .zero hstart ?_
    intro k x hrun hx hmore
    obtain ⟨y, hpass⟩ := hx.returns hlines hrun hmore
    obtain ⟨hy, hless⟩ := hx.pass hmore hpass
    refine ⟨y, hpass, hy, fun hgoes => ?_⟩
    have := hless hgoes
    omega
  obtain ⟨n, s, hrun, hend⟩ := hends
  have hcount : 2 * n ≤ b.readableBytes + 2 := by
    cases hrun with
    | zero => omega
    | @succ n t _ hbefore hmore hpass =>
      have := hbefore.bounded (m := fun s => s.buffer.readableBytes) (d := 2) hstart hkeeps
        (fun _ _ hx hmore hpass hgoes => (hx.pass hmore hpass).2 hgoes) hmore
      have hfirst : (c.atStart b).buffer.readableBytes = b.readableBytes := rfl
      simp only [hfirst] at this
      omega
  refine ⟨n, s, hrun, hend, hcount, ?_⟩
  have hloop : loop goesOn LoopState.pass Fault.spin (b.readableBytes + 2) (c.atStart b) = .ok s :=
    hrun.loop_eq hend (by omega)
  rw [ParseContent, parseLoop_eq_loop]
  exact congrArg (· >>= fun s => Except.ok s.result) hloop

/-- The loop of `ParseContent` ends on every reached parser: no state in which it would
    spin occurs, a pass that goes on consumes at least two bytes, and what is passed to
    `retrieveUntilIdx` is the CRLF that this pass has found. -/
theorem loop_terminates {c : HttpContent} {b : Buffer} (hc : c.Reached) (hwf : b.WF)
    (hlen : b.readable.length < 2 ^ 31) (hlines : c.LinesReturn b) :
    (∃ n s, c.RunsTo b n s ∧ s.goesOn = false ∧ 2 * n ≤ b.readableBytes + 2 ∧
      c.ParseContent b = .ok s.result) ∧
    (∀ n s, c.RunsTo b n s →
      s.content.parse_state_ ≠ .kParseBody ∧ s.content.parse_state_ ≠ .kParseErrno) ∧
    (∀ n s t, c.RunsTo b n s → s.goesOn = true → s.pass = .ok t → t.goesOn = true →
      t.buffer.readableBytes + 2 ≤ s.buffer.readableBytes) ∧
    ∀ n s r crlf, c.RunsTo b n s → s.goesOn = true →
      s.content.parseBranch (nextLine s.buffer) s.locals = .ok r → r.2.crlf = some crlf →
      s.buffer.findCRLF = some crlf ∧ s.buffer.readIdx_ ≤ crlf + 2 ∧
        crlf + 2 ≤ s.buffer.writeIdx_ := by
  rw [hwf.readable_length] at hlen
  have hstart : Entered (c.atStart b) := atStart_entered hc.leaves hwf hlen
  refine ⟨loop_ends hstart hlines, ?_, ?_, ?_⟩
  · intro n s hrun
    exact (hrun.entered hstart).leaves.not_stuck
  · intro n s t hrun hmore hpass hgoes
    exact ((hrun.entered hstart).pass hmore hpass).2 hgoes
  · intro n s r crlf hrun hmore hbranch hcrlf
    have hs : Entered s := hrun.entered hstart
    rcases pass_cases hs hmore with ⟨hstop, -⟩ | ⟨k, line, b', -, hnext, -, -, hline⟩
    · rw [hstop] at hbranch
      obtain rfl := Except.ok.inj hbranch
      cases hcrlf
    · obtain ⟨hfind, hread, hwrite, -⟩ := nextLine_bounds hs.wf hnext
      have hk : k = crlf := by
        rcases hline with ⟨e, -, hthrows⟩ | ⟨more, ok, c', -, hok, -⟩
        · rw [hthrows] at hbranch
          cases hbranch
        · rw [hok] at hbranch
          obtain rfl := Except.ok.inj hbranch
          exact Option.some.inj hcrlf
      subst hk
      exact ⟨hfind, by omega, hwrite⟩

/-- A Buffer that holds a request of two lines. -/
def twoLines : Buffer := ⟨List.replicate 8 0 ++ ascii "GET / HTTP/1.1" ++ kCRLF ++ kCRLF, 8, 26⟩

/-- The loop ends on it after at most ten passes. -/
theorem loop_terminates_example :
    ∃ n s, HttpContent.new.RunsTo twoLines n s ∧ s.goesOn = false ∧
      2 * n ≤ twoLines.readableBytes + 2 ∧
      HttpContent.new.ParseContent twoLines = .ok s.result := by
  have hwf : twoLines.WF := by decide +kernel
  have hstart : Entered (HttpContent.new.atStart twoLines) :=
    atStart_entered (Or.inl (Or.inl rfl)) hwf (by decide +kernel)
  have hlines : HttpContent.new.LinesReturn twoLines :=
    LinesReturn.of_question hstart (by decide +kernel)
  exact (loop_terminates .new hwf (by decide +kernel) hlines).1

end HttpContent

end LearnMuduo
