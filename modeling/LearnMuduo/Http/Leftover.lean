/-
  LearnMuduo.Http.Leftover

  What earlier requests of a connection leave in the request that is answered.

  `ResetContentState` resets the state of the parser and nothing else, so the next
  request is parsed onto what the requests before it left (`Request.onto`): a query
  stays until another one is read, a header until one of its name is.
-/
import LearnMuduo.Http.Pipelining

namespace LearnMuduo

open Lib

namespace Request

/-- The last query string of the requests. -/
def lastQuery (h : List Request) : Bytes := ((h.filterMap query).getLast?).getD []

/-- The last value under the name in all the headers of the requests. -/
def lastHeader (h : List Request) (name : Bytes) : Option Bytes :=
  lastWins (h.flatMap headers) name

/-- What `r` does not overwrite is the same behind both histories. -/
def SameLeftovers (r : Request) (h1 h2 : List Request) : Prop :=
  (r.query = none → lastQuery h1 = lastQuery h2) ∧
    ∀ name, lastWins r.headers name = none → lastHeader h1 name = lastHeader h2 name

theorem lastWins_append (hs ks : List Header) (name : Bytes) :
    lastWins (hs ++ ks) name = (lastWins ks name).or (lastWins hs name) := by
  simp only [lastWins, List.reverse_append, List.find?_append, Option.map_or]

/-- A query and headers are all that a history leaves besides its last request line. -/
theorem left_query (h : List Request) : (left h).query_ = lastQuery h := by
  induction h using List.reverseRecOn with
  | nil => rfl
  | append_singleton h r ih =>
    have honto : (r.onto (left h)).query_ = r.query.getD (left h).query_ := rfl
    rw [left_append, honto, ih, lastQuery, lastQuery, List.filterMap_append]
    cases hq : r.query with
    | none => simp [hq]
    | some q => simp [hq]

theorem left_headers (h : List Request) : (left h).hearders_ = lastHeader h := by
  induction h using List.reverseRecOn with
  | nil => rfl
  | append_singleton h r ih =>
    have honto : (r.onto (left h)).hearders_
        = fun name => (lastWins r.headers name).or ((left h).hearders_ name) := rfl
    rw [left_append, honto, ih]
    funext name
    rw [lastHeader, lastHeader, List.flatMap_append, lastWins_append, List.flatMap_singleton]

/-- What `r` becomes behind two histories is the same iff nothing they left shows. -/
theorem onto_left_eq_iff (r : Request) (h1 h2 : List Request) :
    r.onto (left h1) = r.onto (left h2) ↔ r.SameLeftovers h1 h2 := by
  have honto : ∀ h, r.onto (left h) =
      { method_ := some r.method
        version_ := some r.version
        path_ := r.path
        query_ := r.query.getD (lastQuery h)
        hearders_ := fun name => (lastWins r.headers name).or (lastHeader h name) } := fun h => by
    rw [onto, left_query, left_headers]
  rw [honto, honto, HttpRequest.mk.injEq]
  constructor
  · -- what the request writes itself says nothing about the history
    rintro ⟨-, -, -, hquery, hheaders⟩
    refine ⟨fun hnone => ?_, fun name hnone => ?_⟩
    · rw [hnone] at hquery
      exact hquery
    · have hname := congrFun hheaders name
      rw [hnone] at hname
      exact hname
  · rintro ⟨hquery, hheaders⟩
    refine ⟨rfl, rfl, rfl, ?_, funext fun name => ?_⟩
    · cases hq : r.query with
      | none => exact hquery hq
      | some q => rfl
    · cases hn : lastWins r.headers name with
      | none => exact hheaders name hn
      | some v => rfl

end Request

/-- A connection on which, however its bytes came, the requests of `h` were answered
    and then, by the last call, `r`. -/
def AnsweredAfter (server : HttpServer) (h : List Request) (r : Request) (t : Serving) : Prop :=
  ∃ now pre i m todo future,
    StaysOpen server h ∧ (∀ j ∈ pre ++ [i], j.1 ≠ []) ∧
    bytes (pre ++ [i]) ++ future = Request.stream (h ++ r :: todo) ∧
    HttpContent.Bounded (Request.stream (h ++ r :: todo)) ∧
    run server.onMessage (Serving.fresh now) pre = .ok m ∧ m.responses.length = h.length ∧
    server.onMessage m i = .ok t ∧ t.responses.length = h.length + 1

/-- The request that was answered was parsed onto what the history left. -/
theorem AnsweredAfter.exposes {server : HttpServer} {h : List Request} {r : Request} {t : Serving}
    (ha : AnsweredAfter server h r t) :
    t.responses.getLast? = some (r.onto (Request.left h)) ∧
      t.conn.content_.request_ = r.onto (Request.left h) := by
  obtain ⟨now, pre, i, m, todo, future, hopen, hne, hstream, hb, hm, hcount, ht, hlast⟩ := ha
  -- as many requests as `h` has were answered before the last call
  have htake : (h ++ r :: todo).take m.responses.length = h := by
    rw [hcount, List.take_left]
  obtain ⟨done, todo', p, rest, hsplit, hbytes, hrest, hw, -⟩ := run_waiting hne hstream hb
    (List.prefix_append pre [i]) hm (by rw [htake]; exact hopen)
  have hlen : done.length = h.length := by
    rw [← hcount, hw.responses, Request.exposed_length]
  obtain ⟨rfl, rfl⟩ := List.append_inj hsplit hlen.symm
  -- the bytes the run has not seen are those of the last call and what follows
  have hcut : rest = i.1 ++ future := by
    rw [bytes_append, bytes_singleton, List.append_assoc] at hstream
    exact List.append_cancel_left (hrest.trans hstream.symm)
  subst hcut
  rcases hw.cut with ⟨p', hp'⟩ | ⟨-, q, hqne, hq⟩
  · have hdone := hw.complete hp' ht
    refine ⟨by rw [hdone.responses, List.getLast?_concat], ?_⟩
    rw [hdone.content, Request.leftContent, Request.left_append]
  · -- a chunk that is a part of the request answers nothing
    have hsame := (hw.extend hq hqne ht).responses
    rw [← hw.responses] at hsame
    rw [hsame, hcount] at hlast
    omega

/-- It is enough to count the responses of the run. -/
theorem exists_answeredAfter {server : HttpServer} {h todo : List Request} {r : Request}
    {now : Nat} {pre : List (Bytes × Surroundings)} {i : Bytes × Surroundings} {future : Bytes}
    (hopen : StaysOpen server h) (hne : ∀ j ∈ pre ++ [i], j.1 ≠ [])
    (hstream : bytes (pre ++ [i]) ++ future = Request.stream (h ++ r :: todo))
    (hb : HttpContent.Bounded (Request.stream (h ++ r :: todo)))
    (hpre : (run server.onMessage (Serving.fresh now) pre).map (fun s => s.responses.length)
      = .ok h.length)
    (hall : (run server.onMessage (Serving.fresh now) (pre ++ [i])).map
      (fun s => s.responses.length) = .ok (h.length + 1)) :
    ∃ t, AnsweredAfter server h r t := by
  cases hm : run server.onMessage (Serving.fresh now) pre with
  -- a run that throws has no responses to count
  | error e =>
    rw [hm] at hpre
    cases hpre
  | ok m =>
    rw [hm] at hpre
    rw [run_append, hm, ok_then, run_cons] at hall
    cases ht : server.onMessage m i with
    | error e =>
      rw [ht] at hall
      cases hall
    | ok t =>
      rw [ht] at hall
      exact ⟨t, now, pre, i, m, todo, future, hopen, hne, hstream, hb, hm, Except.ok.inj hpre, ht,
        Except.ok.inj hall⟩

/-- **When nothing of earlier requests is visible.**  The requests that `request()`
    exposes for `r` behind two histories are the same if and only if what `r` does not
    overwrite, the last query and the last value of each header, is. -/
theorem request_same_iff {server : HttpServer} {h1 h2 : List Request} {r : Request}
    {t1 t2 : Serving} (ha1 : AnsweredAfter server h1 r t1) (ha2 : AnsweredAfter server h2 r t2) :
    t1.conn.content_.request_ = t2.conn.content_.request_ ↔ r.SameLeftovers h1 h2 := by
  rw [ha1.exposes.2, ha2.exposes.2]
  exact Request.onto_left_eq_iff r h1 h2

/-- `GET / HTTP/1.1` without headers. -/
def Request.bare : Request where
  method := .kGet
  path := ascii "/"
  query := none
  version := .kHttp11
  headers := []
  path_sp := by decide
  path_question := by decide
  path_crlf := by decide
  query_sp := by decide
  query_crlf := by decide
  version_known := Request.getExample.version_known

/-- `GET / HTTP/1.1` as the first request of a connection, and behind `GET /a?b`. -/
theorem bare_answered :
    (∃ t, AnsweredAfter HttpServer.plain [] Request.bare t) ∧
      ∃ t, AnsweredAfter HttpServer.plain [Request.getExample] Request.bare t := by
  have hopen : ∀ h : List Request, (∀ r ∈ h, r.asksClose = false) → StaysOpen HttpServer.plain h :=
    fun h hr => ⟨hr, fun r _ => HttpServer.plain_keepsOpen r⟩
  constructor
  · exact @exists_answeredAfter _ _ [] _ 0 []
      (Request.bare.serialise, Surroundings.calm) [] (hopen _ (by decide +kernel))
      (by decide +kernel) (by decide +kernel) (HttpContent.Bounded.of_length (by decide +kernel))
      (by decide +kernel) (by decide +kernel)
  · exact @exists_answeredAfter _ _ [] _ 0 [(Request.getExample.serialise, Surroundings.calm)]
      (Request.bare.serialise, Surroundings.calm) [] (hopen _ (by decide +kernel))
      (by decide +kernel) (by decide +kernel) (HttpContent.Bounded.of_length (by decide +kernel))
      (by decide +kernel) (by decide +kernel)

theorem request_same_example :
    ∃ t1 t2, AnsweredAfter HttpServer.plain [] Request.bare t1 ∧
      AnsweredAfter HttpServer.plain [Request.getExample] Request.bare t2 ∧
      (t1.conn.content_.request_ = t2.conn.content_.request_ ↔
        Request.bare.SameLeftovers [] [Request.getExample]) := by
  obtain ⟨⟨t1, h1⟩, t2, h2⟩ := bare_answered
  exact ⟨t1, t2, h1, h2, request_same_iff h1 h2⟩

/-- The query and the header of the earlier request are shown for one that has neither. -/
theorem request_shows_earlier :
    ∃ t1 t2, AnsweredAfter HttpServer.plain [] Request.bare t1 ∧
      AnsweredAfter HttpServer.plain [Request.getExample] Request.bare t2 ∧
      t1.conn.content_.request_.query_ = [] ∧ t2.conn.content_.request_.query_ = ascii "b" ∧
      t1.conn.content_.request_.GetHeader (ascii "k") = [] ∧
      t2.conn.content_.request_.GetHeader (ascii "k") = ascii "v" := by
  obtain ⟨⟨t1, h1⟩, t2, h2⟩ := bare_answered
  refine ⟨t1, t2, h1, h2, ?_⟩
  rw [h1.exposes.2, h2.exposes.2]
  decide +kernel

end LearnMuduo
