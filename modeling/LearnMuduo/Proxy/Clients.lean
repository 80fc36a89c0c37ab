/-
  LearnMuduo.Proxy.Clients

  Several clients and one set of parse results.

  Every client has its own buffer, and all of them share the static variables of the
  parser.  What a call leaves in the buffer, and whether it throws, depends on the client's
  bytes only; a blank line is answered with what the last request line of anyone says.
  Each client is served as if it were alone exactly when no line throws and, wherever a
  call finds a blank line, the last request line of anyone asks for what the client's own
  last one does (`servedAlone_iff`).
-/
import LearnMuduo.Proxy.Lines

namespace LearnMuduo.Proxy

open Lib

/-- The proxy and its clients. -/
structure Serving (C : Type) where
  statics : Statics
  buffer : C → Bytes
  /-- What the calls did, with the client each was made for. -/
  outs : List (C × List Output)

section Serve

variable {C : Type}

/-- The tunnels are there, and nothing was received. -/
def Serving.start (s : Statics) : Serving C := { statics := s, buffer := fun _ => [], outs := [] }

variable [DecidableEq C]

/-- `onServerMessage` for a client and the bytes that came from it. -/
def onCall (cache : Cache) (p : Serving C) (call : C × Bytes) : Except Fault (Serving C) :=
  onServerMessage cache p.statics (p.buffer call.1 ++ call.2) >>= fun r =>
    .ok { statics := r.2.1
          buffer := Function.update p.buffer call.1 r.2.2
          outs := p.outs ++ [(call.1, r.1)] }

/-- What belongs to the client `c`. -/
def ofClient {α : Type} (c : C) (l : List (C × α)) : List (C × α) := l.filter fun x => x.1 = c

/-- The calls return, and what is done for each client is what is done for it when the
    others' calls are not made. -/
def ServedAlone (cache : Cache) (s : Statics) (calls : List (C × Bytes)) : Prop :=
  ∃ p, run (onCall cache) (Serving.start s) calls = .ok p ∧
    ∀ c, ∃ q, run (onCall cache) (Serving.start s) (ofClient c calls) = .ok q ∧
      q.outs = ofClient c p.outs

/-! ## What the bytes say -/

/-- The chunks that came from the client `c`. -/
def chunksOf (c : C) (calls : List (C × Bytes)) : List Bytes := (ofClient c calls).map Prod.snd

/-- What a call finds in the client's buffer after the calls before it. -/
def heard (before : List (C × Bytes)) (call : C × Bytes) : Bytes :=
  unread (chunksOf call.1 before) ++ call.2

/-- What the lines of all clients ask for, in the order in which they come. -/
def requests (before : List (C × Bytes)) : List (C × Bytes) → List Asked
  | [] => []
  | call :: calls => (asks (heard before call)).toList ++ requests (before ++ [call]) calls

/-- What the last of these lines asks for; without one, what the variables said at first. -/
def lastAsked (s : Statics) (calls : List (C × Bytes)) : Asked :=
  (requests [] calls).getLastD s.asked

/-- Two requests that a blank line is answered alike for: the same path up to a NUL and,
    when that is not in the cache, the same line for the server. -/
structure Agree (cache : Cache) (a b : Asked) : Prop where
  path : cStr a.path = cStr b.path
  nul : readItem cache a.path = none → (0 ∈ a.path ↔ 0 ∈ b.path)
  version : readItem cache a.path = none → 0 ∉ a.path →
    (a.version = .kHttp10 ↔ b.version = .kHttp10)

/-- `P` holds of every call and the calls before it. -/
def AtEachCall (P : List (C × Bytes) → C × Bytes → Prop) (calls : List (C × Bytes)) : Prop :=
  ∀ before call, before ++ [call] <+: calls → P before call

/-- No call finds a line at which the parser throws. -/
def NoneThrows : List (C × Bytes) → Prop :=
  AtEachCall fun before call => ¬Throws (heard before call)

/-- Where a call finds a blank line, the last line of anyone that asks for something agrees
    with the last one of this client. -/
def OwnRequests (cache : Cache) (s : Statics) : List (C × Bytes) → Prop :=
  AtEachCall fun before call => StartsBlank (heard before call) →
    Agree cache (lastAsked s (ofClient call.1 before)) (lastAsked s before)

end Serve

section EachCall

variable {C : Type} {P : List (C × Bytes) → C × Bytes → Prop} {calls : List (C × Bytes)}

theorem AtEachCall.concat_iff {call : C × Bytes} :
    AtEachCall P (calls ++ [call]) ↔ AtEachCall P calls ∧ P calls call := by
  constructor
  · intro h
    refine ⟨fun before next hpre => h before next ?_, h calls call (List.prefix_refl _)⟩
    exact hpre.trans (List.prefix_append calls [call])
  · rintro ⟨h, hlast⟩ before next hpre
    rcases List.prefix_concat_iff.mp hpre with heq | hpre
    · obtain ⟨rfl, hcall⟩ := List.append_inj' heq rfl
      obtain rfl := List.singleton_inj.mp hcall
      exact hlast
    · exact h before next hpre

theorem AtEachCall.nil : AtEachCall P [] := by
  intro before call hpre
  simp at hpre

end EachCall

/-! ## Answers -/

section Answers

variable {cache : Cache} {s t : Statics}

theorem cStr_tmp_nul (h : 0 ∈ s.path_) : cStr s.tmp = ascii "GET " ++ cStr s.path_ :=
  cStr_append (by decide) h

/-- Without a NUL the version is written behind the path. -/
theorem tmp_eq_iff (hpath : s.path_ = t.path_) :
    s.tmp = t.tmp ↔ (s.version_ = .kHttp10 ↔ t.version_ = .kHttp10) := by
  have hne : ascii " HTTP/1.0\r\n" ≠ ascii " HTTP/1.1\r\n" := by decide
  rw [Statics.tmp, Statics.tmp, hpath, List.append_cancel_left_eq]
  split_ifs with hs ht ht
  · simp [hs, ht]
  · simp [hs, ht, hne]
  · simp [hs, ht, hne.symm]
  · simp [hs, ht]

/-- A path that ends the C string is followed by nothing. -/
theorem cStr_tmp_ne (hpath : cStr s.path_ = cStr t.path_) (hs : 0 ∈ s.path_) (ht : 0 ∉ t.path_) :
    cStr s.tmp ≠ cStr t.tmp := by
  have htail : 0 < (if t.version_ = .kHttp10 then ascii " HTTP/1.0\r\n"
      else ascii " HTTP/1.1\r\n").length := by
    split <;> decide
  intro heq
  rw [cStr_tmp_nul hs, hpath, cStr_of_notMem ht, cStr_of_notMem (nul_notMem_tmp ht),
    Statics.tmp] at heq
  have hlen := congrArg List.length heq
  simp only [List.length_append] at hlen
  omega

theorem cStr_tmp_iff (hpath : cStr s.path_ = cStr t.path_) :
    cStr s.tmp = cStr t.tmp ↔
      (0 ∈ s.path_ ↔ 0 ∈ t.path_) ∧
        (0 ∉ s.path_ → (s.version_ = .kHttp10 ↔ t.version_ = .kHttp10)) := by
  by_cases hs : 0 ∈ s.path_
  · by_cases ht : 0 ∈ t.path_
    · rw [cStr_tmp_nul hs, cStr_tmp_nul ht, hpath]
      simp [hs, ht]
    · simp [hs, ht, cStr_tmp_ne hpath hs ht]
  · by_cases ht : 0 ∈ t.path_
    · simp [hs, ht, (cStr_tmp_ne hpath.symm ht hs).symm]
    · have heq : s.path_ = t.path_ := by
        rwa [cStr_of_notMem hs, cStr_of_notMem ht] at hpath
      rw [cStr_of_notMem (nul_notMem_tmp hs), cStr_of_notMem (nul_notMem_tmp ht),
        tmp_eq_iff heq]
      simp [hs, ht]

theorem answer_hit {obj : Obj} (h : readItem cache s.path_ = some obj) :
    answer cache s = .lookup (cStr s.path_) :: reply obj := by
  rw [answer, h]

theorem answer_miss (h : readItem cache s.path_ = none) :
    answer cache s = .lookup (cStr s.path_) :: s.forward := by
  rw [answer, h]

theorem answer_eq_iff : answer cache s = answer cache t ↔ Agree cache s.asked t.asked := by
  by_cases hpath : cStr s.path_ = cStr t.path_
  · have hitem : readItem cache s.path_ = readItem cache t.path_ := readItem_congr hpath
    cases hs : readItem cache s.path_ with
    | some obj =>
      rw [answer_hit hs, answer_hit (hitem.symm.trans hs), hpath]
      exact iff_of_true rfl ⟨hpath, by simp [hs], by simp [hs]⟩
    | none =>
      rw [answer_miss hs, answer_miss (hitem.symm.trans hs), hpath]
      simp only [Statics.forward, List.cons.injEq, Output.toServer.injEq, and_true, true_and]
      rw [cStr_tmp_iff hpath]
      constructor
      · rintro ⟨hnul, hversion⟩
        exact ⟨hpath, fun _ => hnul, fun _ => hversion⟩
      · intro h
        exact ⟨h.nul hs, h.version hs⟩
  · refine iff_of_false (fun h => hpath ?_) fun h => hpath h.path
    exact Output.lookup.inj (List.cons.inj h).1

end Answers

/-! ## Runs -/

section Runs

variable {C : Type} [DecidableEq C] {cache : Cache} {s : Statics} {calls : List (C × Bytes)}
  {p p' q : Serving C} {c d : C} {chunk : Bytes}

theorem onCall_ok {call : C × Bytes} (h : onCall cache p call = .ok p') :
    ∃ outs t b, onServerMessage cache p.statics (p.buffer call.1 ++ call.2) = .ok (outs, t, b) ∧
      p' = { statics := t, buffer := Function.update p.buffer call.1 b
             outs := p.outs ++ [(call.1, outs)] } := by
  obtain ⟨⟨outs, t, b⟩, hmessage, heq⟩ := then_ok_iff.mp h
  exact ⟨outs, t, b, hmessage, (Except.ok.inj heq).symm⟩

theorem run_concat {call : C × Bytes} :
    run (onCall cache) p (calls ++ [call])
      = run (onCall cache) p calls >>= fun p => onCall cache p call := by
  rw [run_append]
  congr 1
  funext p
  rw [run_cons]
  cases onCall cache p call <;> rfl

theorem ofClient_concat_self {α : Type} {l : List (C × α)} {x : α} :
    ofClient c (l ++ [(c, x)]) = ofClient c l ++ [(c, x)] := by
  simp [ofClient]

theorem ofClient_concat_other {α : Type} {l : List (C × α)} {x : α} (h : d ≠ c) :
    ofClient d (l ++ [(c, x)]) = ofClient d l := by
  simp [ofClient, h.symm]

/-- A client's buffer is what its own calls leave, and they return. -/
theorem alone_returns (h : run (onCall cache) (Serving.start s) calls = .ok p) (c : C) :
    ∃ q, run (onCall cache) (Serving.start s) (ofClient c calls) = .ok q ∧
      q.buffer c = p.buffer c := by
  induction calls using List.reverseRecOn generalizing p with
  | nil =>
    obtain rfl := Except.ok.inj h
    exact ⟨_, rfl, rfl⟩
  | append_singleton calls call ih =>
    obtain ⟨d, chunk⟩ := call
    rw [run_concat] at h
    obtain ⟨m, hm, hcall⟩ := then_ok_iff.mp h
    obtain ⟨q, hq, hbuffer⟩ := ih hm
    obtain ⟨outs, t, b, hmessage, rfl⟩ := onCall_ok hcall
    by_cases hcd : c = d
    · subst hcd
      obtain ⟨outs', t', hmessage', -⟩ := onServerMessage_alike hmessage q.statics
      rw [ofClient_concat_self, run_concat, hq, ok_then, onCall]
      simp only [hbuffer, hmessage', ok_then]
      exact ⟨_, rfl, by simp⟩
    · rw [ofClient_concat_other hcd]
      exact ⟨q, hq, by simpa [Function.update_of_ne hcd] using hbuffer⟩

/-! ## The bytes and the run -/

theorem requests_concat {before : List (C × Bytes)} {call : C × Bytes} :
    requests before (calls ++ [call])
      = requests before calls ++ (asks (heard (before ++ calls) call)).toList := by
  induction calls generalizing before with
  | nil => simp [requests]
  | cons first calls ih =>
    rw [List.cons_append, requests, requests, ih]
    simp

theorem lastAsked_concat {call : C × Bytes} :
    lastAsked s (calls ++ [call]) = (asks (heard calls call)).getD (lastAsked s calls) := by
  rw [lastAsked, requests_concat, List.nil_append]
  cases asks (heard calls call) with
  | none => simp [lastAsked]
  | some a => simp

theorem unread_self :
    unread (chunksOf d (calls ++ [(d, chunk)])) = left (heard calls (d, chunk)) := by
  rw [chunksOf, ofClient_concat_self, List.map_append, List.map_singleton, unread_concat]
  rfl

theorem chunksOf_other (h : c ≠ d) : chunksOf c (calls ++ [(d, chunk)]) = chunksOf c calls := by
  rw [chunksOf, ofClient_concat_other h, chunksOf]

/-- The variables and the buffers are what the bytes received so far say. -/
structure AsHeard (s : Statics) (calls : List (C × Bytes)) (p : Serving C) : Prop where
  statics : p.statics.asked = lastAsked s calls
  buffer : ∀ c, p.buffer c = unread (chunksOf c calls)

theorem buffer_heard (h : AsHeard s calls p) (call : C × Bytes) :
    p.buffer call.1 ++ call.2 = heard calls call := by
  rw [h.buffer]
  rfl

/-- A call throws at the line that it finds, or the bytes still say what is there. -/
theorem onCall_asHeard (cache : Cache) (h : AsHeard s calls p) (call : C × Bytes) :
    (Throws (heard calls call) ∧
      onCall cache p call = .error .lengthError) ∨
    (¬Throws (heard calls call) ∧
      ∃ p', onCall cache p call = .ok p' ∧ AsHeard s (calls ++ [call]) p') := by
  obtain ⟨d, chunk⟩ := call
  rw [onCall, buffer_heard h]
  rcases onServerMessage_asks cache p.statics (heard calls (d, chunk)) with
    ⟨hthrows, hmessage⟩ | ⟨hnot, outs, t, hmessage, hasked⟩
  · rw [hmessage]
    exact Or.inl ⟨hthrows, rfl⟩
  · rw [hmessage, ok_then]
    refine Or.inr ⟨hnot, _, rfl, ?_, fun c => ?_⟩
    · rw [hasked, lastAsked_concat, h.statics]
    · by_cases hcd : c = d
      · subst hcd
        rw [unread_self]
        exact Function.update_self ..
      · rw [chunksOf_other hcd, ← h.buffer]
        exact Function.update_of_ne hcd ..

/-- The calls return when no line throws, and the bytes say what they leave. -/
theorem run_asHeard (h : run (onCall cache) (Serving.start s) calls = .ok p) :
    NoneThrows calls ∧ AsHeard s calls p := by
  induction calls using List.reverseRecOn generalizing p with
  | nil =>
    obtain rfl := Except.ok.inj h
    exact ⟨AtEachCall.nil, rfl, fun c => rfl⟩
  | append_singleton calls call ih =>
    rw [run_concat] at h
    obtain ⟨m, hm, hcall⟩ := then_ok_iff.mp h
    obtain ⟨hnone, hheard⟩ := ih hm
    -- the call has returned, so that its line is none at which the parser throws
    rcases onCall_asHeard cache hheard call with ⟨-, hthrows⟩ | ⟨hnot, p', hp', hnext⟩
    · rw [hcall] at hthrows
      cases hthrows
    · obtain rfl := Except.ok.inj (hcall.symm.trans hp')
      exact ⟨AtEachCall.concat_iff.mpr ⟨hnone, hnot⟩, hnext⟩

theorem run_returns (cache : Cache) (s : Statics) (h : NoneThrows calls) :
    ∃ p, run (onCall cache) (Serving.start s) calls = .ok p := by
  induction calls using List.reverseRecOn with
  | nil => exact ⟨_, rfl⟩
  | append_singleton calls call ih =>
    obtain ⟨hnone, hlast⟩ := AtEachCall.concat_iff.mp h
    obtain ⟨m, hm⟩ := ih hnone
    rcases onCall_asHeard cache (run_asHeard hm).2 call with ⟨hthrows, -⟩ | ⟨-, p', hp', -⟩
    · exact absurd hthrows hlast
    · exact ⟨p', by rw [run_concat, hm, ok_then, hp']⟩

/-! ## Together and alone -/

/-- What was done for the client is what is done for it alone. -/
def Matches (cache : Cache) (s : Statics) (calls : List (C × Bytes)) (p : Serving C) (c : C) :
    Prop :=
  ∃ q, run (onCall cache) (Serving.start s) (ofClient c calls) = .ok q ∧
    q.outs = ofClient c p.outs

/-- A call for another client changes nothing for this one. -/
theorem matches_other (hcall : onCall cache p (d, chunk) = .ok p') (hcd : c ≠ d) :
    Matches cache s (calls ++ [(d, chunk)]) p' c ↔ Matches cache s calls p c := by
  obtain ⟨outs, t, b, -, rfl⟩ := onCall_ok hcall
  simp only [Matches, ofClient_concat_other hcd]

/-- A call for this one goes on matching when the parse results agree at a blank line. -/
theorem matches_self (hq : run (onCall cache) (Serving.start s) (ofClient d calls) = .ok q)
    (hbuffer : q.buffer d = p.buffer d) (hcall : onCall cache p (d, chunk) = .ok p') :
    Matches cache s (calls ++ [(d, chunk)]) p' d ↔
      Matches cache s calls p d ∧
        (StartsBlank (p.buffer d ++ chunk) → Agree cache q.statics.asked p.statics.asked) := by
  obtain ⟨outs, t, b, hmessage, rfl⟩ := onCall_ok hcall
  obtain ⟨outs', t', hmessage', hsame⟩ := onServerMessage_alike hmessage q.statics
  have hrun : run (onCall cache) (Serving.start s) (ofClient d (calls ++ [(d, chunk)]))
      = .ok { statics := t', buffer := Function.update q.buffer d b
              outs := q.outs ++ [(d, outs')] } := by
    rw [ofClient_concat_self, run_concat, hq, ok_then, onCall]
    simp only [hbuffer, hmessage', ok_then]
  simp only [Matches, hrun, hq, Except.ok.injEq, exists_eq_left']
  simp only [ofClient_concat_self, List.append_singleton_inj, Prod.mk.injEq, true_and, hsame,
    answer_eq_iff]

theorem matches_iff (h : run (onCall cache) (Serving.start s) calls = .ok p) :
    (∀ c, Matches cache s calls p c) ↔ OwnRequests cache s calls := by
  induction calls using List.reverseRecOn generalizing p with
  | nil =>
    obtain rfl := Except.ok.inj h
    exact iff_of_true (fun c => ⟨_, rfl, rfl⟩) AtEachCall.nil
  | append_singleton calls call ih =>
    obtain ⟨d, chunk⟩ := call
    rw [run_concat] at h
    obtain ⟨m, hm, hcall⟩ := then_ok_iff.mp h
    obtain ⟨q, hq, hbuffer⟩ := alone_returns hm d
    have hself := matches_self hq hbuffer hcall
    -- the buffer and both sets of parse results, told by the bytes
    rw [buffer_heard (run_asHeard hm).2 (d, chunk), (run_asHeard hm).2.statics,
      (run_asHeard hq).2.statics] at hself
    rw [OwnRequests, AtEachCall.concat_iff, ← OwnRequests, ← ih hm]
    constructor
    · intro hall
      obtain ⟨hmatch, hagree⟩ := hself.mp (hall d)
      refine ⟨fun c => ?_, hagree⟩
      by_cases hcd : c = d
      · exact hcd ▸ hmatch
      · exact (matches_other hcall hcd).mp (hall c)
    · rintro ⟨hall, hagree⟩ c
      by_cases hcd : c = d
      · exact hcd ▸ hself.mpr ⟨hall d, hagree⟩
      · exact (matches_other hcall hcd).mpr (hall c)

end Runs

/-- However the clients' calls are interleaved, each client is served as if it were alone
    exactly when no line throws and, wherever a call finds a blank line, the last line of
    anyone that asks for something asks for what the client's own last one does. -/
theorem servedAlone_iff {C : Type} [DecidableEq C] (cache : Cache) (s : Statics)
    (calls : List (C × Bytes)) :
    ServedAlone cache s calls ↔ NoneThrows calls ∧ OwnRequests cache s calls := by
  constructor
  · rintro ⟨p, hp, hall⟩
    exact ⟨(run_asHeard hp).1, (matches_iff hp).mp hall⟩
  · rintro ⟨hnone, hown⟩
    obtain ⟨p, hp⟩ := run_returns cache s hnone
    exact ⟨p, hp, (matches_iff hp).mpr hown⟩

/-- The second client's request line comes between the first one's and its blank line: what
    the first client asked for is not what is looked up and forwarded for it. -/
theorem other_path_forwarded :
    let calls : List (Bool × Bytes) :=
      [(false, ascii "GET /a HTTP/1.1\r\n"), (true, ascii "GET /b HTTP/1.1\r\n"),
        (false, ascii "\r\n")]
    (run (onCall []) (Serving.start Statics.zero) calls).map (fun p => ofClient false p.outs)
        = .ok [(false, []), (false, [.lookup (ascii "/b"),
            .toServer (ascii "GET /b HTTP/1.1\r\n"), .toServer rescrlf])] ∧
      ¬ServedAlone [] Statics.zero calls := by
  intro calls
  have hshared : (run (onCall []) (Serving.start Statics.zero) calls).map
      (fun p => ofClient false p.outs)
        = .ok [(false, []), (false, [.lookup (ascii "/b"),
            .toServer (ascii "GET /b HTTP/1.1\r\n"), .toServer rescrlf])] := by rfl
  refine ⟨hshared, ?_⟩
  rintro ⟨p, hp, hall⟩
  obtain ⟨q, hq, heq⟩ := hall false
  rw [hp] at hshared
  have halone : q.outs = [(false, []), (false, [.lookup (ascii "/a"),
      .toServer (ascii "GET /a HTTP/1.1\r\n"), .toServer rescrlf])] :=
    congrArg Serving.outs (Except.ok.inj hq).symm
  have hsame := halone.symm.trans (heq.trans (Except.ok.inj hshared))
  exact absurd hsame (by decide)

end LearnMuduo.Proxy
