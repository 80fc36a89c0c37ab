/-
  LearnMuduo.Http.Pipelining

  The responses to a stream of requests, however TCP cuts it into chunks.

  `MessageCallback` answers at most one request a call.  Between two calls the
  parser and the unread bytes stand for the bytes of the current request received
  so far (`Waiting`); a chunk extends them, or completes the request and leaves the
  beginning of the next one.  So the responses keep up with the stream as long as no
  chunk completes a second request, and fall behind with the first that does.
-/
import Mathlib.Data.List.Induction
import LearnMuduo.Http.HttpServer

namespace LearnMuduo

open Lib

namespace Request

/-- Whether the request itself asks to close, by the test of `dealWithRequest`. -/
def asksClose (r : Request) : Bool :=
  HttpRequest.closeTest ((lastWins r.headers (ascii "Connection")).getD []) (some r.version)

def stream (rs : List Request) : Bytes := rs.flatMap serialise

/-- How many requests are complete in the first `n` bytes of their stream. -/
def completed : List Request → Nat → Nat
  | [], _ => 0
  | r :: rs, n =>
    if r.serialise.length ≤ n then completed rs (n - r.serialise.length) + 1 else 0

/-- What the requests leave in the `HttpRequest` of a connection. -/
def left (rs : List Request) : HttpRequest := rs.foldl (fun old r => r.onto old) HttpRequest.new

/-- The parser behind the requests. -/
def leftContent (rs : List Request) : HttpContent :=
  { request_ := left rs, parse_state_ := .kParseRequestLine }

/-- What the response callback is given for each of the requests. -/
def exposed (old : HttpRequest) : List Request → List HttpRequest
  | [] => []
  | r :: rs => r.onto old :: exposed (r.onto old) rs

theorem stream_append (rs ts : List Request) : stream (rs ++ ts) = stream rs ++ stream ts :=
  List.flatMap_append

theorem stream_singleton (r : Request) : stream [r] = r.serialise := by
  simp [stream]

theorem left_append (rs : List Request) (r : Request) : left (rs ++ [r]) = r.onto (left rs) := by
  rw [left, List.foldl_append]
  rfl

@[simp] theorem leftContent_state (rs : List Request) :
    (leftContent rs).parse_state_ = .kParseRequestLine := rfl

@[simp] theorem exposed_length (old : HttpRequest) (rs : List Request) :
    (exposed old rs).length = rs.length := by
  induction rs generalizing old with
  | nil => rfl
  | cons r rs ih => exact congrArg (· + 1) (ih _)

theorem exposed_onto (old : HttpRequest) (rs ts : List Request) :
    exposed old (rs ++ ts) = exposed old rs ++ exposed (rs.foldl (fun o r => r.onto o) old) ts := by
  induction rs generalizing old with
  | nil => rfl
  | cons r rs ih => exact congrArg (r.onto old :: ·) (ih _)

theorem exposed_append (rs ts : List Request) :
    exposed HttpRequest.new (rs ++ ts) = exposed HttpRequest.new rs ++ exposed (left rs) ts :=
  exposed_onto _ rs ts

theorem serialise_pos (r : Request) : 0 < r.serialise.length := by
  simp only [serialise, kCRLF, List.length_append, List.length_cons]
  omega

theorem completed_cons_add (r : Request) (rs : List Request) (n : Nat) :
    completed (r :: rs) (r.serialise.length + n) = completed rs n + 1 := by
  rw [completed, if_pos (Nat.le_add_right _ _), Nat.add_sub_cancel_left]

theorem completed_cons_lt {r : Request} {n : Nat} (rs : List Request)
    (h : n < r.serialise.length) : completed (r :: rs) n = 0 := by
  rw [completed, if_neg (Nat.not_le_of_lt h)]

theorem completed_zero (rs : List Request) : completed rs 0 = 0 := by
  cases rs with
  | nil => rfl
  | cons r rs => exact completed_cons_lt rs r.serialise_pos

theorem completed_append (rs ts : List Request) (n : Nat) :
    completed (rs ++ ts) ((stream rs).length + n) = rs.length + completed ts n := by
  induction rs with
  | nil => rw [stream, List.flatMap_nil, List.nil_append, List.length_nil, Nat.zero_add,
      List.length_nil, Nat.zero_add]
  | cons r rs ih =>
    have hlen : (stream (r :: rs)).length + n
        = r.serialise.length + ((stream rs).length + n) := by
      rw [stream, List.flatMap_cons, List.length_append, Nat.add_assoc]
      rfl
    rw [List.cons_append, hlen, completed_cons_add, ih, List.length_cons]
    omega

/-- What an earlier request left does not make the server close, if neither it nor
    this request asked for it. -/
theorem onto_wantsClose {r : Request} {old : HttpRequest} (hr : r.asksClose = false)
    (hold : old.GetHeader (ascii "Connection") ≠ ascii "Close") :
    (r.onto old).wantsClose = false ∧
      (r.onto old).GetHeader (ascii "Connection") ≠ ascii "Close" := by
  have hget : (r.onto old).GetHeader (ascii "Connection")
      = ((lastWins r.headers (ascii "Connection")).or
        (old.hearders_ (ascii "Connection"))).getD [] := rfl
  have hversion : (r.onto old).version_ = some r.version := rfl
  rw [asksClose, HttpRequest.closeTest_false] at hr
  rw [HttpRequest.wantsClose, HttpRequest.closeTest_false, hget, hversion]
  cases hown : lastWins r.headers (ascii "Connection") with
  | some v =>
    rw [hown, Option.getD_some] at hr
    rw [Option.some_or, Option.getD_some]
    exact ⟨hr, hr.1⟩
  | none =>
    -- without a header of its own the request is not HTTP/1.0
    rw [hown, Option.getD_none] at hr
    rw [Option.none_or]
    exact ⟨⟨hold, fun h10 => absurd (hr.2 h10) (by decide)⟩, hold⟩

end Request

/-- The bytes of some inputs. -/
def bytes (inputs : List (Bytes × Surroundings)) : Bytes := inputs.flatMap Prod.fst

/-- Nobody asks to close: no request of the stream, and in its answer to what it is
    given for it not the callback. -/
structure StaysOpen (server : HttpServer) (rs : List Request) : Prop where
  requests : ∀ r ∈ rs, r.asksClose = false
  callback : ∀ request ∈ Request.exposed HttpRequest.new rs, server.KeepsOpen request

theorem StaysOpen.initial {server : HttpServer} {rs ts : List Request} (h : StaysOpen server ts)
    (hpre : rs <+: ts) : StaysOpen server rs := by
  obtain ⟨more, rfl⟩ := hpre
  refine ⟨fun r hr => h.requests r (List.mem_append_left more hr), fun request hrequest => ?_⟩
  refine h.callback request ?_
  rw [Request.exposed_append]
  exact List.mem_append_left _ hrequest

/-- The connection has answered the requests `done`; of the requests `todo` that
    follow it has received `p`, and `future` is still to come. -/
structure Waiting (s : Serving) (done todo : List Request) (p future : Bytes) : Prop where
  state : s.conn.state_ = .kConnected
  wf : s.conn.inputBuffer_.WF
  leftover : (Request.left done).GetHeader (ascii "Connection") ≠ ascii "Close"
  responses : s.responses = Request.exposed HttpRequest.new done
  stream : p ++ future = Request.stream todo
  resumes : ∀ t, s.conn.content_.parseBytes (s.conn.inputBuffer_.readable ++ t)
    = (Request.leftContent done).parseBytes (p ++ t)
  bounded : HttpContent.Bounded (s.conn.inputBuffer_.readable ++ future)

/-- The connection has just answered `r`, after the requests `done`. -/
structure Completed (server : HttpServer) (s : Serving) (done : List Request) (r : Request)
    (p future : Bytes) : Prop where
  wf : s.conn.inputBuffer_.WF
  readable : s.conn.inputBuffer_.readable = p
  bounded : HttpContent.Bounded (p ++ future)
  content : s.conn.content_ = Request.leftContent (done ++ [r])
  responses : s.responses = Request.exposed HttpRequest.new done ++ [r.onto (Request.left done)]
  state : server.KeepsOpen (r.onto (Request.left done)) →
    (r.onto (Request.left done)).wantsClose = false → s.conn.state_ = .kConnected

namespace Waiting

/-- Nothing received yet. -/
theorem fresh (now : Nat) {rs : List Request} (hb : HttpContent.Bounded (Request.stream rs)) :
    Waiting (Serving.fresh now) [] rs [] (Request.stream rs) := by
  have hempty : (Serving.fresh now).conn.inputBuffer_.readable = [] := Buffer.new_readable _
  exact
    { state := rfl
      wf := Buffer.new_wf (by decide)
      leftover := by decide
      responses := rfl
      stream := rfl
      resumes := fun t => by rw [hempty]; rfl
      bounded := by rw [hempty]; exact hb }

section Step

variable {server : HttpServer} {s s' : Serving} {done todo : List Request} {p f : Bytes}
  {input : Bytes × Surroundings} {r : Request}

/-- A chunk that does not complete the request extends what was received of it. -/
theorem extend {q : Bytes} (hw : Waiting s done todo p (input.1 ++ f))
    (hr : p ++ input.1 ++ q = r.serialise) (hq : q ≠ [])
    (h : server.onMessage s input = .ok s') : Waiting s' done todo (p ++ input.1) f := by
  obtain ⟨c, rest, hparse, hwait⟩ :=
    HttpContent.parseBytes_prefix (Request.leftContent_state done) hr hq
  have hb := hw.bounded
  rw [← List.append_assoc] at hb
  have hcall := (hw.resumes input.1).trans hparse
  obtain ⟨hwf, hread, hafter⟩ := server.onMessage_ok hw.state hw.wf hb.of_append hcall h
  rw [HttpServer.Parsed, hwait, if_neg Bool.false_ne_true] at hafter
  obtain ⟨hcontent, hresp, hstate⟩ := hafter
  refine ⟨hstate, hwf, hw.leftover, hresp.trans hw.responses, ?_, fun t => ?_, ?_⟩
  · rw [List.append_assoc]
    exact hw.stream
  · rw [hcontent, hread]
    exact (HttpContent.parseBytes_resume t hparse (Or.inl (Request.leftContent_state done)) hwait).1
  · rw [hread]
    exact hb.parseBytes hcall

/-- A chunk that completes a request: the call answers it, and what is left of the
    chunk begins the next one. -/
theorem complete {p' : Bytes} (hw : Waiting s done todo p (input.1 ++ f))
    (hr : p ++ input.1 = r.serialise ++ p') (h : server.onMessage s input = .ok s') :
    Completed server s' done r p' f := by
  have hb := hw.bounded
  rw [← List.append_assoc] at hb
  have hcall := hw.resumes input.1
  rw [hr, HttpContent.parseBytes_serialise (Request.leftContent_state done)] at hcall
  obtain ⟨hwf, hread, hafter⟩ := server.onMessage_ok hw.state hw.wf hb.of_append hcall h
  rw [HttpServer.Parsed, if_pos (by rfl)] at hafter
  obtain ⟨hcontent, hresp, hstate⟩ := hafter
  refine ⟨hwf, hread, hb.parseBytes hcall, ?_, ?_, hstate⟩
  · rw [hcontent]
    simp only [Request.leftContent, Request.left_append, HttpContent.ResetContentState]
  · rw [hresp, hw.responses]
    rfl

/-- The same for a request that nobody asks to close at. -/
theorem answer {p' : Bytes} (hw : Waiting s done (r :: todo) p (input.1 ++ f))
    (hkeep : server.KeepsOpen (r.onto (Request.left done))) (hopen : r.asksClose = false)
    (hr : p ++ input.1 = r.serialise ++ p') (h : server.onMessage s input = .ok s') :
    Waiting s' (done ++ [r]) todo p' f := by
  obtain ⟨hclose, hleft⟩ := Request.onto_wantsClose hopen hw.leftover
  have hafter := hw.complete hr h
  have hstream : p' ++ f = Request.stream todo := by
    have hwhole := hw.stream
    rw [← List.append_assoc, hr, List.append_assoc] at hwhole
    exact List.append_cancel_left hwhole
  refine ⟨hafter.state hkeep hclose, hafter.wf, ?_, ?_, hstream, fun t => ?_, ?_⟩
  · rw [Request.left_append]
    exact hleft
  · rw [hafter.responses, Request.exposed_append]
    rfl
  · rw [hafter.content, hafter.readable]
  · rw [hafter.readable]
    exact hafter.bounded

/-- A chunk either completes the request that is due or is a part of it. -/
theorem cut (hw : Waiting s done (r :: todo) p (input.1 ++ f)) :
    (∃ p', p ++ input.1 = r.serialise ++ p') ∨
      (p ++ input.1).length < r.serialise.length ∧
        ∃ q, q ≠ [] ∧ p ++ input.1 ++ q = r.serialise := by
  have hwhole : (p ++ input.1) ++ f = r.serialise ++ Request.stream todo := by
    rw [List.append_assoc]
    exact hw.stream
  by_cases hfull : r.serialise.length ≤ (p ++ input.1).length
  · obtain ⟨p', hp'⟩ := List.prefix_of_prefix_length_le (hwhole ▸ List.prefix_append _ _)
      (List.prefix_append (p ++ input.1) f) hfull
    exact Or.inl ⟨p', hp'.symm⟩
  · have hlt := Nat.lt_of_not_le hfull
    obtain ⟨q, hq⟩ := List.prefix_of_prefix_length_le
      (hwhole ▸ List.prefix_append (p ++ input.1) f) (List.prefix_append _ _) (Nat.le_of_lt hlt)
    refine Or.inr ⟨hlt, q, ?_, hq⟩
    rintro rfl
    rw [List.append_nil] at hq
    rw [hq] at hlt
    exact Nat.lt_irrefl _ hlt

/-- What a non-empty chunk does, while nobody asks to close. -/
theorem step (hw : Waiting s done todo p (input.1 ++ f)) (hne : input.1 ≠ [])
    (hopen : StaysOpen server ((done ++ todo).take s'.responses.length))
    (h : server.onMessage s input = .ok s') :
    (Request.completed todo (p ++ input.1).length = 0 ∧
      Waiting s' done todo (p ++ input.1) f) ∨
    ∃ r todo' p', todo = r :: todo' ∧ p ++ input.1 = r.serialise ++ p' ∧
      Waiting s' (done ++ [r]) todo' p' f := by
  cases todo with
  | nil =>
    -- nothing is left to receive
    have hstream := hw.stream
    simp [Request.stream, hne] at hstream
  | cons r todo =>
    rcases hw.cut with ⟨p', hp'⟩ | ⟨hlt, q, hqne, hq⟩
    · have hcount : s'.responses.length = (done ++ [r]).length := by
        rw [(hw.complete hp' h).responses]
        simp only [List.length_append, Request.exposed_length, List.length_singleton]
      have htake : (done ++ r :: todo).take s'.responses.length = done ++ [r] := by
        rw [hcount, List.append_cons done r todo, List.take_left]
      rw [htake] at hopen
      have hmem : r.onto (Request.left done) ∈ Request.exposed HttpRequest.new (done ++ [r]) := by
        rw [Request.exposed_append]
        exact List.mem_append_right _ List.mem_cons_self
      exact Or.inr ⟨r, todo, p', rfl, hp',
        hw.answer (hopen.callback _ hmem) (hopen.requests r (by simp)) hp' h⟩
    · exact Or.inl ⟨Request.completed_cons_lt todo hlt, hw.extend hq hqne h⟩

end Step

end Waiting

/-! ## Runs -/

theorem bytes_append (is js : List (Bytes × Surroundings)) :
    bytes (is ++ js) = bytes is ++ bytes js := List.flatMap_append

theorem bytes_singleton (i : Bytes × Surroundings) : bytes [i] = i.1 := by
  simp [bytes]

/-- No chunk completes two requests. -/
def OneEach (rs : List Request) (inputs : List (Bytes × Surroundings)) : Prop :=
  ∀ pre i, pre ++ [i] <+: inputs →
    Request.completed rs (bytes (pre ++ [i])).length ≤ Request.completed rs (bytes pre).length + 1

section Runs

variable {server : HttpServer} {rs : List Request} {inputs : List (Bytes × Surroundings)}

/-- However the stream is cut, after some of the chunks some requests are answered in
    their order; they are those completely received, if no chunk completed two. -/
theorem run_waiting (hne : ∀ i ∈ inputs, i.1 ≠ []) {future : Bytes}
    (hstream : bytes inputs ++ future = Request.stream rs)
    (hb : HttpContent.Bounded (Request.stream rs)) {now : Nat} {pre : List (Bytes × Surroundings)}
    {t : Serving} (hpre : pre <+: inputs)
    (hrun : run server.onMessage (Serving.fresh now) pre = .ok t)
    (hopen : StaysOpen server (rs.take t.responses.length)) :
    ∃ done todo p rest, rs = done ++ todo ∧ bytes pre = Request.stream done ++ p ∧
      bytes pre ++ rest = Request.stream rs ∧ Waiting t done todo p rest ∧
      (OneEach rs inputs → Request.completed todo p.length = 0) := by
  induction pre using List.reverseRecOn generalizing t with
  | nil =>
    obtain rfl := Except.ok.inj hrun
    exact ⟨[], rs, [], Request.stream rs, rfl, rfl, rfl, Waiting.fresh now hb,
      fun _ => Request.completed_zero rs⟩
  | append_singleton pre i ih =>
    obtain ⟨m, hm, hlast⟩ := run_prefix hrun
    obtain ⟨t', hstep, hnil⟩ := then_ok_iff.mp hlast
    obtain rfl := Except.ok.inj hnil
    obtain ⟨done, todo, p, rest, rfl, hbytes, hrest, hw, hone⟩ :=
      ih ((List.prefix_append pre [i]).trans hpre) hm
        (hopen.initial (List.take_prefix_take_left (server.onMessage_responses hstep).1))
    obtain ⟨after, hafter⟩ := hpre
    -- what was still to come begins with this chunk
    have hcut : rest = i.1 ++ (bytes after ++ future) := by
      have hall : bytes pre ++ (i.1 ++ (bytes after ++ future))
          = Request.stream (done ++ todo) := by
        rw [← hstream, ← hafter, bytes_append, bytes_append, bytes_singleton]
        simp only [List.append_assoc]
      exact List.append_cancel_left (hrest.trans hall.symm)
    subst hcut
    have hi : i ∈ inputs := hafter ▸ by simp
    have hnow : bytes (pre ++ [i]) = Request.stream done ++ (p ++ i.1) := by
      rw [bytes_append, bytes_singleton, hbytes, List.append_assoc]
    have hnext : bytes (pre ++ [i]) ++ (bytes after ++ future)
        = Request.stream (done ++ todo) := by
      rw [bytes_append, bytes_singleton, List.append_assoc]
      exact hrest
    rcases hw.step (hne i hi) hopen hstep with
      ⟨hzero, hext⟩ | ⟨r, todo', p', rfl, hp', hans⟩
    · exact ⟨done, todo, p ++ i.1, _, rfl, hnow, hnext, hext, fun _ => hzero⟩
    · have hsplit : bytes (pre ++ [i]) = Request.stream (done ++ [r]) ++ p' := by
        rw [hnow, hp', Request.stream_append, Request.stream_singleton, List.append_assoc]
      refine ⟨done ++ [r], todo', p', _, by simp, hsplit, hnext, hans, fun hoe => ?_⟩
      have hle := hoe pre i ⟨after, hafter⟩
      have hbefore := Request.completed_append done (r :: todo') p.length
      have hbehind := Request.completed_append (done ++ [r]) todo' p'.length
      rw [hone hoe] at hbefore
      rw [List.append_assoc, List.singleton_append, List.length_append] at hbehind
      rw [hsplit, hbytes, List.length_append, List.length_append, hbefore, hbehind] at hle
      simp only [List.length_singleton] at hle
      omega

/-- **When the responses keep up with the stream.**  For requests at which nobody asks
    to close: after each chunk there is one response for each request completely
    received, in their order, if and only if no chunk completes two requests. -/
theorem responses_keep_up_iff (hopen : StaysOpen server rs) (hne : ∀ i ∈ inputs, i.1 ≠ [])
    (hstream : bytes inputs = Request.stream rs) (hb : HttpContent.Bounded (Request.stream rs))
    {now : Nat} {s : Serving} (hrun : run server.onMessage (Serving.fresh now) inputs = .ok s) :
    (∀ pre t, pre <+: inputs → run server.onMessage (Serving.fresh now) pre = .ok t →
        t.responses.length = Request.completed rs (bytes pre).length ∧
          t.responses <+: Request.exposed HttpRequest.new rs)
      ↔ OneEach rs inputs := by
  constructor
  · rintro hall pre i ⟨rest, hrest⟩
    rw [← hrest] at hrun
    obtain ⟨t', ht', -⟩ := run_prefix hrun
    obtain ⟨t, ht, hi⟩ := run_prefix ht'
    obtain ⟨t'', hstep, hnil⟩ := then_ok_iff.mp hi
    obtain rfl := Except.ok.inj hnil
    have hpre : pre <+: inputs := ⟨[i] ++ rest, by rw [← hrest, List.append_assoc]⟩
    have h1 := (hall pre t hpre ht).1
    have h2 := (hall (pre ++ [i]) t'' ⟨rest, hrest⟩ ht').1
    have hgrow := (server.onMessage_responses hstep).2
    omega
  · intro hone pre t hpre ht
    obtain ⟨done, todo, p, rest, rfl, hbytes, -, hw, hzero⟩ := run_waiting hne
      (by rw [List.append_nil]; exact hstream) hb hpre ht (hopen.initial (List.take_prefix _ _))
    rw [hw.responses, hbytes, List.length_append, Request.completed_append, hzero hone,
      Request.exposed_length]
    exact ⟨rfl, Request.exposed_append done todo ▸ List.prefix_append _ _⟩

end Runs

/-- Two requests, each in a chunk of its own. -/
theorem responses_keep_up_example :
    let rs := [Request.getExample, Request.getExample]
    let inputs := [(Request.getExample.serialise, Surroundings.calm),
      (Request.getExample.serialise, Surroundings.calm)]
    (∀ pre t, pre <+: inputs → run HttpServer.plain.onMessage (Serving.fresh 0) pre = .ok t →
        t.responses.length = Request.completed rs (bytes pre).length ∧
          t.responses <+: Request.exposed HttpRequest.new rs)
      ↔ OneEach rs inputs := by
  intro rs inputs
  have hok : (run HttpServer.plain.onMessage (Serving.fresh 0) inputs).isOk = true := by
    decide +kernel
  obtain ⟨s, hs⟩ := exists_ok hok
  exact responses_keep_up_iff ⟨by decide +kernel, fun r _ => HttpServer.plain_keepsOpen r⟩
    (by decide +kernel) (by decide +kernel) (HttpContent.Bounded.of_length (by decide +kernel)) hs

/-- Both in one chunk: the second stays unanswered. -/
theorem responses_fall_behind :
    let rs := [Request.getExample, Request.getExample]
    let inputs := [(Request.stream rs, Surroundings.calm)]
    StaysOpen HttpServer.plain rs ∧
      (run HttpServer.plain.onMessage (Serving.fresh 0) inputs).map (fun s => s.responses.length)
        = .ok 1 ∧
      Request.completed rs (bytes inputs).length = 2 :=
  ⟨⟨by decide +kernel, fun r _ => HttpServer.plain_keepsOpen r⟩, by decide +kernel,
    by decide +kernel⟩

end LearnMuduo
