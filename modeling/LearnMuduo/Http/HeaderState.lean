/-
  LearnMuduo.Http.HeaderState

  `HttpRequest::ParseHeaders(start, end, state)`, the overload for a state machine, beside
  the one that is given the colon.

  It looks for the end of the value with a loop that stops behind the first blank and does
  not look at `end`.  So it reads on until there is one, past the line and past what is in
  memory; and a value that is written behind a blank, as values are, is just that blank.
-/
import Mathlib.Data.List.TakeWhile
import LearnMuduo.Http.HttpContent

namespace LearnMuduo

open Lib

namespace HttpRequest

/-- `while (*(edge++) != ' ') {}` over these bytes: how far `edge` has come. -/
def untilBlank : Bytes → Except Fault Nat
  | [] => .error .outOfBounds
  | c :: rest => if c = SP then .ok 1 else untilBlank rest >>= fun n => .ok (n + 1)

/-- `*start == '\r' && *(start + 1) == '\n'` -/
def atCRLF : Bytes → Except Fault Bool
  | [] => .error .outOfBounds
  | c :: rest =>
    if c = CR then
      match rest with
      | [] => .error .outOfBounds
      | d :: _ => .ok (decide (d = LF))
    else .ok false

/-- The part behind the test for the empty line. -/
def headerState (r : HttpRequest) (line behind : Bytes) (state : HttpRequestParseState) :
    Except Fault (HttpRequest × HttpRequestParseState) :=
  let colon := stdFind line 0 line.length COLON
  if colon = line.length then .ok (r, .kParseErrno)
  else untilBlank ((line ++ behind).drop (colon + 1)) >>= fun n =>
    .ok ({ r with
      hearders_ := Function.update r.hearders_ (chars line 0 colon)
        (some (chars (line ++ behind) (colon + 1) (colon + 1 + n))) }, state)

/-- `ParseHeaders(start, end, state)`; the bytes from `end` on are `behind`. -/
def ParseHeadersState (r : HttpRequest) (line behind : Bytes) (state : HttpRequestParseState) :
    Except Fault (HttpRequest × HttpRequestParseState) :=
  if line = [] then
    atCRLF behind >>= fun complete =>
      if complete then .ok (r, .kParseGotCompleteRequest) else r.headerState line behind state
  else r.headerState line behind state

/-! ## The loop -/

section Loop

variable {m : Bytes} {n : Nat}

theorem untilBlank_mem (h : SP ∈ m) : untilBlank m = .ok ((m.takeWhile (· ≠ SP)).length + 1) := by
  induction m with
  | nil => cases h
  | cons c m ih =>
    by_cases hc : c = SP
    · rw [untilBlank, if_pos hc, List.takeWhile_cons_of_neg (by simpa using hc)]
      rfl
    · have hrest : SP ∈ m := (List.mem_cons.mp h).resolve_left fun heq => hc heq.symm
      rw [untilBlank, if_neg hc, ih hrest, ok_then, List.takeWhile_cons_of_pos (by simpa using hc)]
      rfl

/-- Without a blank the loop leaves the memory. -/
theorem untilBlank_notMem (h : SP ∉ m) : untilBlank m = .error .outOfBounds := by
  induction m with
  | nil => rfl
  | cons c m ih =>
    have hc : c ≠ SP := fun heq => h (heq ▸ List.mem_cons_self)
    have hrest : SP ∉ m := fun hmem => h (List.mem_cons_of_mem c hmem)
    rw [untilBlank, if_neg hc, ih hrest]
    rfl

/-- What stands up to the first blank, and that blank. -/
theorem take_blank (h : SP ∈ m) :
    m.take ((m.takeWhile (· ≠ SP)).length + 1) = m.takeWhile (· ≠ SP) ++ [SP] := by
  induction m with
  | nil => cases h
  | cons c m ih =>
    by_cases hc : c = SP
    · rw [List.takeWhile_cons_of_neg (by simpa using hc), hc]
      rfl
    · have hrest : SP ∈ m := (List.mem_cons.mp h).resolve_left fun heq => hc heq.symm
      rw [List.takeWhile_cons_of_pos (by simpa using hc), List.length_cons, List.take_succ_cons,
        ih hrest]
      rfl

end Loop

/-! ## Header lines -/

section Header

variable {name value behind : Bytes} {state : HttpRequestParseState}

/-- What the state overload takes for the value. -/
def wordBlank (value behind : Bytes) : Bytes := (value ++ behind).takeWhile (· ≠ SP) ++ [SP]

theorem colon_name (hname : COLON ∉ name) :
    (name ++ COLON :: value).idxOf COLON = name.length := by
  rw [List.idxOf_append_of_notMem hname, List.idxOf_cons_self, Nat.add_zero]

theorem stdFind_name (hname : COLON ∉ name) :
    stdFind (name ++ COLON :: value) 0 (name ++ COLON :: value).length COLON = name.length := by
  have hfind := @stdFind_append_cons [] name value COLON hname
  rw [List.nil_append, List.length_nil, Nat.zero_add] at hfind
  exact hfind

theorem drop_name :
    (name ++ COLON :: value ++ behind).drop (name.length + 1) = value ++ behind := by
  rw [← List.drop_drop, List.append_assoc, List.drop_left]
  rfl

theorem chars_name : chars (name ++ COLON :: value) 0 name.length = name := by
  rw [chars_zero, List.take_left]

/-- The value ends behind the first blank, wherever that is, and the state stays. -/
theorem ParseHeadersState_found (r : HttpRequest) (hname : COLON ∉ name)
    (h : SP ∈ value ++ behind) :
    r.ParseHeadersState (name ++ COLON :: value) behind state = .ok ({ r with
      hearders_ := Function.update r.hearders_ name (some (wordBlank value behind)) }, state) := by
  have hcolon : name.length ≠ (name ++ COLON :: value).length := by
    rw [List.length_append, List.length_cons]
    omega
  have hvalue : chars (name ++ COLON :: value ++ behind) (name.length + 1) (name.length + 1 +
      (((value ++ behind).takeWhile (· ≠ SP)).length + 1)) = wordBlank value behind := by
    rw [chars, slice, drop_name, Nat.add_sub_cancel_left, take_blank h, wordBlank]
  rw [ParseHeadersState, if_neg (by simp), headerState]
  simp only [stdFind_name hname, if_neg hcolon, drop_name, untilBlank_mem h, ok_then, chars_name,
    hvalue]

theorem ParseHeadersState_beyond (r : HttpRequest) (hname : COLON ∉ name)
    (h : SP ∉ value ++ behind) :
    r.ParseHeadersState (name ++ COLON :: value) behind state = .error .outOfBounds := by
  have hcolon : name.length ≠ (name ++ COLON :: value).length := by
    rw [List.length_append, List.length_cons]
    omega
  rw [ParseHeadersState, if_neg (by simp), headerState]
  simp only [stdFind_name hname, if_neg hcolon, drop_name, untilBlank_notMem h, error_then]

/-- The other overload takes the rest of the line, without the blanks in front. -/
theorem ParseHeaders_name (r : HttpRequest) (hname : COLON ∉ name) :
    (r.ParseHeaders (name ++ COLON :: value) ((name ++ COLON :: value).idxOf COLON)).2 = { r with
      hearders_ := Function.update r.hearders_ name (some (value.dropWhile (· = SP))) } := by
  have hdrop : (name ++ COLON :: value).drop (name.length + 1) = value := by
    have hrest := @drop_name name value []
    rwa [List.append_nil, List.append_nil] at hrest
  rw [colon_name hname, ParseHeaders, chars_name, hdrop]

/-- The two values are one if this is a word with one blank behind it. -/
theorem wordBlank_iff : wordBlank value behind = value.dropWhile (· = SP) ↔
    ∃ w, w ≠ [] ∧ SP ∉ w ∧ value = w ++ [SP] := by
  constructor
  · intro heq
    cases value with
    | nil => cases (List.append_eq_nil_iff.mp heq).2
    | cons c value =>
      by_cases hc : c = SP
      · -- nothing is in front of the blank, and the other value does not begin with one
        have hhead := List.head?_dropWhile_not (fun x : Byte => decide (x = SP)) (c :: value)
        rw [← heq, wordBlank, hc, List.cons_append, List.takeWhile_cons_of_neg (by simp)] at hhead
        simp at hhead
      · rw [List.dropWhile_cons_of_neg (by simpa using hc)] at heq
        refine ⟨_, ?_, ?_, heq.symm⟩
        · rw [List.cons_append, List.takeWhile_cons_of_pos (by simpa using hc)]
          exact List.cons_ne_nil _ _
        · intro hmem
          simpa using List.mem_takeWhile_imp hmem
  · rintro ⟨w, hw, hblank, rfl⟩
    have htake : (w ++ [SP] ++ behind).takeWhile (· ≠ SP) = w := by
      rw [List.append_assoc, List.takeWhile_append_of_pos, List.singleton_append,
        List.takeWhile_cons_of_neg (by simp), List.append_nil]
      intro c hc
      exact decide_eq_true fun heq => hblank (heq ▸ hc)
    obtain ⟨c, w, rfl⟩ := List.exists_cons_of_ne_nil hw
    have hc : c ≠ SP := fun heq => hblank (heq ▸ List.mem_cons_self)
    rw [wordBlank, htake, List.cons_append, List.dropWhile_cons_of_neg (by simpa using hc)]

/-- What the state overload does with any line that has a colon.  It returns exactly when a
    blank follows the colon, in the line or behind it; it then stores what stands up to that
    blank, with it.  So a value behind a blank is stored as a blank, and it stores what the
    other overload does only for a word that a single blank follows. -/
theorem headerParsers_agree_iff (r : HttpRequest) {name : Bytes} (value behind : Bytes)
    (state : HttpRequestParseState) (hname : COLON ∉ name) :
    let line := name ++ COLON :: value
    ((r.ParseHeadersState line behind state).isOk = true ↔ SP ∈ value ++ behind) ∧
      (value.head? = some SP → r.ParseHeadersState line behind state = .ok ({ r with
        hearders_ := Function.update r.hearders_ name (some [SP]) }, state)) ∧
      (r.ParseHeadersState line behind state =
          .ok ((r.ParseHeaders line (line.idxOf COLON)).2, state) ↔
        ∃ w, w ≠ [] ∧ SP ∉ w ∧ value = w ++ [SP]) := by
  intro line
  by_cases h : SP ∈ value ++ behind
  · have hfound := @ParseHeadersState_found _ _ _ state r hname h
    refine ⟨iff_of_true (by rw [hfound]; rfl) h, fun hhead => ?_, ?_⟩
    · have hblank : wordBlank value behind = [SP] := by
        obtain ⟨rest, rfl⟩ := List.head?_eq_some_iff.mp hhead
        rw [wordBlank, List.cons_append, List.takeWhile_cons_of_neg (by simp), List.nil_append]
      rw [hfound, hblank]
    · rw [hfound, ParseHeaders_name r hname, ← @wordBlank_iff value behind]
      constructor
      · intro heq
        have hfields := congrArg HttpRequest.hearders_ (Prod.mk.inj (Except.ok.inj heq)).1
        have hvalue := congrFun hfields name
        simp only [Function.update_self] at hvalue
        exact Option.some.inj hvalue
      · intro heq
        rw [heq]
  · have hbeyond := @ParseHeadersState_beyond _ _ _ state r hname h
    refine ⟨iff_of_false (by rw [hbeyond]; exact Bool.false_ne_true) h, fun hhead => ?_, ?_⟩
    · exact absurd (List.mem_append_left _ (List.mem_of_mem_head? hhead)) h
    · refine iff_of_false (by rw [hbeyond]; simp) ?_
      rintro ⟨w, -, -, rfl⟩
      exact h (List.mem_append_left _ (List.mem_append_right _ (List.mem_singleton.mpr rfl)))

/-- A usual header line. -/
theorem headerParsers_agree_iff_host :
    let line := ascii "Host" ++ COLON :: ascii " localhost"
    ((new.ParseHeadersState line kCRLF .kParseRequestHeader).isOk = true ↔
        SP ∈ ascii " localhost" ++ kCRLF) ∧
      ((ascii " localhost").head? = some SP →
        new.ParseHeadersState line kCRLF .kParseRequestHeader = .ok ({ new with
          hearders_ := Function.update new.hearders_ (ascii "Host") (some [SP]) },
          .kParseRequestHeader)) ∧
      (new.ParseHeadersState line kCRLF .kParseRequestHeader =
          .ok ((new.ParseHeaders line (line.idxOf COLON)).2, .kParseRequestHeader) ↔
        ∃ w, w ≠ [] ∧ SP ∉ w ∧ ascii " localhost" = w ++ [SP]) :=
  headerParsers_agree_iff new (ascii " localhost") kCRLF .kParseRequestHeader (by decide)

end Header

end HttpRequest

end LearnMuduo
