/-
  LearnMuduo.Http.WebServer

  The web server of Main.cc: an `HttpServer` with the callback `HttpResponseCallBack`.

  `client_reads` says what a client of it is sent whatever it sends; `pages_in_order` what it
  is sent for the serialised requests of `Format`, however they are cut into chunks and
  however little each write takes.  `Website` is the text of httpSourceFile.h.
-/
import LearnMuduo.Http.Pipelining
import LearnMuduo.Http.Session
import LearnMuduo.Lib.Decimal

namespace LearnMuduo

open Lib

def HttpResponseCallBack (Website : Bytes) (request : HttpRequest) (response : HttpResponse) :
    HttpResponse :=
  if request.method_ ≠ some .kGet then
    ((response.setStatusCode .k400BadRequest).setStatusMessage
      (ascii "Bad Request")).setCloseConnection true
  else if request.path_ = ascii "/" then
    ((response.setStatusCode .k200OK).setBodyType (ascii "text/html")).setBody Website
  else
    ((response.setStatusCode .k404NotFound).setBodyType (ascii "text/html")).setBody
      (ascii "Not Found!!!!")

def webServer (Website : Bytes) : HttpServer :=
  { auto_close_idleconnection_ := true, response_callback_ := HttpResponseCallBack Website }

/-! ## What it answers -/

/-- The headers behind the length, where the connection stays open. -/
def keepLines : Bytes :=
  ascii "\r\nConnection: Keep-Alive\r\nContent_Type: text/html\r\nServer: Bing_muduo\r\n"

def closeLine : Bytes := ascii "Connection: close\r\n"

/-- A status line and the headers. -/
def pageHead (code : Bytes) (close : Bool) (body : Bytes) : Bytes :=
  ascii "HTTP/1.1 " ++ code ++ CRLF ++
    (if close then closeLine
    else ascii "Content_Length: " ++ decimal body.length ++ keepLines) ++ CRLF

/-- The page at a path. -/
def page (Website path : Bytes) (close : Bool) : Bytes :=
  if path = ascii "/" then pageHead (ascii "200 ") close Website ++ Website
  else pageHead (ascii "404 ") close (ascii "Not Found!!!!") ++ ascii "Not Found!!!!"

def webAnswer (Website : Bytes) (request : HttpRequest) : Bytes :=
  if request.method_ = some .kGet then page Website request.path_ request.wantsClose
  else pageHead (ascii "400 Bad Request") true []

section Answer

variable {Website : Bytes}

/-- A response of that type whose status line is the given one. -/
theorem message_pageHead (status : HttpStatusCode) (reason code : Bytes) {r : HttpResponse}
    (hcode : server_http_version_ ++ ascii " " ++ decimalInt status.code ++ ascii " " ++ reason
      = ascii "HTTP/1.1 " ++ code) (hstatus : r.status_code_ = status.code)
    (hreason : r.status_message_ = reason) (htype : r.type_ = ascii "text/html") :
    r.message = pageHead code r.close_connection_ r.body_ ++ r.body_ := by
  have hlines : CRLF ++ (ascii "Connection: Keep-Alive" ++ (CRLF ++ (ascii "Content_Type: " ++
      (ascii "text/html" ++ (CRLF ++ (ascii "Server: " ++ (server_name_ ++ CRLF)))))))
      = keepLines := by decide
  have hclose : ascii "Connection: close" ++ CRLF = closeLine := by decide
  rw [HttpResponse.message, hstatus, hreason, hcode, pageHead, hclose, ← hlines, htype]
  simp only [List.append_assoc]

/-- Nothing of what stood in `status_code_` is sent. -/
theorem webServer_message (p : HttpRequest × Int) :
    ((webServer Website).reply p).message = webAnswer Website p.1 := by
  simp only [HttpServer.reply, webServer, HttpResponseCallBack, webAnswer, page,
    ite_not]
  split
  · split
    · exact message_pageHead .k200OK [] _ (by decide) rfl rfl rfl
    · exact message_pageHead .k404NotFound [] _ (by decide) rfl rfl rfl
  · have h400 := @message_pageHead .k400BadRequest (ascii "Bad Request") (ascii "400 Bad Request")
    exact (h400 (by decide) rfl rfl rfl).trans (List.append_nil _)

theorem webServer_closes (p : HttpRequest × Int) :
    (webServer Website).closes p = (decide (p.1.method_ ≠ some .kGet) || p.1.wantsClose) := by
  simp only [HttpServer.closes, HttpServer.reply, webServer, HttpResponseCallBack]
  split
  · rename_i hmethod
    rw [decide_eq_true hmethod]
    rfl
  · rename_i hget
    rw [decide_eq_false hget]
    split <;> rfl

theorem pageHead_length {code body : Bytes} (close : Bool) (hcode : code.length ≤ 20)
    (hbody : body.length < 2 ^ 30) : (pageHead code close body).length ≤ 200 := by
  have hdigits : (decimal body.length).length ≤ 10 :=
    (Decimal.digits_length_le_iff (by decide)).mpr (by omega)
  have hkeep : (ascii "Content_Length: ").length + keepLines.length ≤ 100 := by decide
  have hclose : closeLine.length ≤ 20 := by decide
  have hline : (ascii "HTTP/1.1 ").length + CRLF.length + CRLF.length ≤ 20 := by decide
  unfold pageHead
  split <;> simp only [List.length_append] <;> omega

theorem page_length (path : Bytes) (close : Bool) (hsite : Website.length < 2 ^ 30) :
    (page Website path close).length ≤ 200 + 2 ^ 30 := by
  unfold page
  split <;> rw [List.length_append]
  · have hhead := @pageHead_length (ascii "200 ") Website close (by decide) hsite
    omega
  · have hhead := @pageHead_length (ascii "404 ") (ascii "Not Found!!!!") close (by decide)
      (by decide)
    have hbody : (ascii "Not Found!!!!").length = 13 := by decide
    omega

theorem webServer_short (hsite : Website.length < 2 ^ 30) : (webServer Website).Short := by
  intro p _
  rw [webServer_message, webAnswer]
  split
  · have hpage := page_length p.1.path_ p.1.wantsClose hsite
    omega
  · have hhead := @pageHead_length (ascii "400 Bad Request") [] true (by decide) (by decide)
    omega

end Answer

/-! ## What a client reads -/

def SessionStep.input : SessionStep → Option (Bytes × Surroundings)
  | .chunk bytes env => some (bytes, env)
  | .writable _ => none

/-- The chunks of a session. -/
def chunks (steps : List SessionStep) : List (Bytes × Surroundings) :=
  steps.filterMap SessionStep.input

section Session

variable {server : HttpServer} {s s' : Serving} {done todo : List Request} {p f : Bytes}

/-- A write does not touch what the parser has and has answered. -/
theorem Waiting.writable (hw : Waiting s done todo p f) (w : WriteResult) :
    Waiting { s with conn := s.conn.handleWrite w } done todo p f := by
  have hsame := @TcpConnection.handleWrite_same s.conn w
  exact
    { state := hsame.state.trans hw.state
      wf := hsame.inputBuffer ▸ hw.wf
      leftover := hw.leftover
      responses := hw.responses
      stream := hw.stream
      resumes := fun t => by
        rw [hsame.inputBuffer, hsame.content]
        exact hw.resumes t
      bounded := by
        rw [hsame.inputBuffer]
        exact hw.bounded }

/-- A session in which each chunk completes one request at most: in the end those are answered
    that are complete. -/
theorem Waiting.session {steps : List SessionStep}
    (hw : Waiting s done todo p (bytes (chunks steps)))
    (hzero : Request.completed todo p.length = 0) (hne : ∀ i ∈ chunks steps, i.1 ≠ [])
    (hone : ∀ pre i, pre ++ [i] <+: chunks steps →
      Request.completed todo (p ++ bytes (pre ++ [i])).length ≤
        Request.completed todo (p ++ bytes pre).length + 1)
    (hopen : StaysOpen server (done ++ todo)) (hrun : run server.session s steps = .ok s') :
    ∃ done' todo' p', done' ++ todo' = done ++ todo ∧ Waiting s' done' todo' p' [] ∧
      Request.completed todo' p'.length = 0 := by
  induction steps generalizing s done todo p with
  | nil =>
    obtain rfl := Except.ok.inj hrun
    exact ⟨done, todo, p, rfl, hw, hzero⟩
  | cons i steps ih =>
    obtain ⟨t, hstep, hrest⟩ := then_ok_iff.mp hrun
    cases i with
    | writable w =>
      obtain rfl := Except.ok.inj hstep
      exact ih (hw.writable w) hzero hne hone hopen hrest
    | chunk data env =>
      have hbytes : bytes (chunks (.chunk data env :: steps)) = data ++ bytes (chunks steps) := rfl
      rw [hbytes] at hw
      have hhere : data ≠ [] := hne (data, env) List.mem_cons_self
      have hnext : ∀ j ∈ chunks steps, j.1 ≠ [] := fun j hj => hne j (List.mem_cons_of_mem _ hj)
      have hahead : ∀ pre j, pre ++ [j] <+: chunks steps →
          (data, env) :: pre ++ [j] <+: chunks (.chunk data env :: steps) := fun pre j hpre =>
        List.cons_prefix_cons.mpr ⟨rfl, hpre⟩
      have hcons : ∀ pre, bytes ((data, env) :: pre) = data ++ bytes pre := fun _ => rfl
      rcases @Waiting.step server s t done todo p (bytes (chunks steps)) (data, env) hw hhere
        (hopen.initial (List.take_prefix _ _)) hstep with
        ⟨hnone, hext⟩ | ⟨r, rest, p', rfl, hp', hans⟩
      · -- the request is not complete yet
        refine ih hext hnone hnext (fun pre j hpre => ?_) hopen hrest
        have hle := hone ((data, env) :: pre) j (hahead pre j hpre)
        rw [List.cons_append, hcons, hcons] at hle
        rw [List.append_assoc, List.append_assoc]
        exact hle
      · -- it is answered; `p'` begins the next one
        have hcount : ∀ q : Bytes, Request.completed (r :: rest) (p ++ (data ++ q)).length =
            Request.completed rest (p' ++ q).length + 1 := fun q => by
          rw [← List.append_assoc, hp', List.append_assoc, List.length_append,
            Request.completed_cons_add]
        have hfirst := hone [] (data, env) ⟨chunks steps, rfl⟩
        have hnil : bytes ([] : List (Bytes × Surroundings)) = [] := rfl
        rw [List.nil_append, hcons, hnil, hcount, List.append_nil, List.append_nil, hzero] at hfirst
        have hwhole : done ++ [r] ++ rest = done ++ r :: rest := (List.append_cons done r rest).symm
        obtain ⟨done', todo', q, hsplit, hw', hzero'⟩ := ih hans (by omega) hnext
          (fun pre j hpre => by
            have hle := hone ((data, env) :: pre) j (hahead pre j hpre)
            rw [List.cons_append, hcons, hcons, hcount, hcount] at hle
            omega) (hwhole ▸ hopen) hrest
        exact ⟨done', todo', q, hsplit.trans hwhole, hw', hzero'⟩

end Session

/-- A client sends GET requests, none of which asks to close. -/
structure Visits (rs : List Request) : Prop where
  get : ∀ r ∈ rs, r.method = .kGet
  stays : ∀ r ∈ rs, r.asksClose = false

namespace Request

variable {rs : List Request} {old request : HttpRequest}

/-- What the callback is given has the method of its own request. -/
theorem exposed_method {m : Method} (hrs : ∀ r ∈ rs, r.method = m)
    (h : request ∈ exposed old rs) : request.method_ = some m := by
  induction rs generalizing old with
  | nil => cases h
  | cons r rs ih =>
    rcases List.mem_cons.mp h with rfl | h
    · exact congrArg some (hrs r List.mem_cons_self)
    · exact ih (fun r' hr => hrs r' (List.mem_cons_of_mem _ hr)) h

/-- And its path. -/
theorem exposed_path : (exposed old rs).map HttpRequest.path_ = rs.map Request.path := by
  induction rs generalizing old with
  | nil => rfl
  | cons r rs ih => exact congrArg (r.path :: ·) ih

theorem completed_all : completed rs (stream rs).length = rs.length := by
  have hall := completed_append rs [] 0
  rw [List.append_nil] at hall
  exact hall

end Request

theorem Visits.staysOpen {Website : Bytes} {rs : List Request} (h : Visits rs) :
    StaysOpen (webServer Website) rs := by
  refine ⟨h.stays, fun request hmem response hopen => ?_⟩
  have hmethod := Request.exposed_method h.get hmem
  simp only [webServer, HttpResponseCallBack]
  rw [if_neg (not_not.mpr hmethod)]
  split <;> exact hopen

/-- **Bytes in, bytes out.**  A client sends GET requests, of which none asks to close.  However
    their bytes are cut into chunks, as long as none completes two requests, and however little
    of the queue each write takes, if only none of the callback's is refused and the lengths are
    in bounds: when all have arrived, what the socket has accepted and what
    waits to be written are the pages at their paths, in the order of the requests, and the
    connection is open. -/
theorem pages_in_order {Website : Bytes} (hsite : Website.length < 2 ^ 30) {rs : List Request}
    (hvisits : Visits rs) (hb : HttpContent.Bounded (Request.stream rs)) {steps : List SessionStep}
    (hne : ∀ i ∈ chunks steps, i.1 ≠ []) (hstream : bytes (chunks steps) = Request.stream rs)
    (hone : OneEach rs (chunks steps)) (htaken : ∀ i ∈ steps, i.Taken) {now : Nat} {s : Serving}
    (hrun : run (webServer Website).session (Serving.fresh now) steps = .ok s) :
    s.conn.stream = rs.flatMap (fun r => page Website r.path false) ∧
      s.conn.state_ = .kConnected := by
  have hfresh := Waiting.fresh now hb
  rw [← hstream] at hfresh
  obtain ⟨done, todo, p, hsplit, hw, hzero⟩ := hfresh.session (Request.completed_zero rs) hne
    hone hvisits.staysOpen hrun
  rw [List.nil_append] at hsplit
  -- nothing is left to answer
  have hp : p = Request.stream todo := (List.append_nil p).symm.trans hw.stream
  rw [hp, Request.completed_all] at hzero
  obtain rfl := List.length_eq_zero_iff.mp hzero
  rw [List.append_nil] at hsplit
  subst hsplit
  obtain ⟨sent, refused, hsent⟩ := HttpServer.run_sent (webServer_short hsite) htaken hrun
  obtain ⟨rfl, hkept⟩ := hsent.of_connected hw.state
  refine ⟨?_, hw.state⟩
  have hall : sent.map Prod.fst = Request.exposed HttpRequest.new done :=
    hsent.requests.symm.trans hw.responses
  have hanswers : ∀ q ∈ sent,
      ((webServer Website).reply q).message = page Website q.1.path_ false := fun q hq => by
    have hget : q.1.method_ = some .kGet :=
      Request.exposed_method hvisits.get (hall ▸ List.mem_map_of_mem hq)
    have hkeep := hkept q hq
    rw [webServer_closes, Bool.or_eq_false_iff] at hkeep
    rw [webServer_message, webAnswer, if_pos hget, hkeep.2]
  calc s.conn.stream
      = sent.flatMap fun q => ((webServer Website).reply q).message := by
        rw [hsent.stream, if_neg Bool.false_ne_true, List.append_nil]
    _ = sent.flatMap fun q => page Website q.1.path_ false := List.flatMap_congr hanswers
    _ = ((sent.map Prod.fst).map HttpRequest.path_).flatMap
          fun path => page Website path false := by
        rw [List.flatMap_map, List.flatMap_map]
    _ = done.flatMap fun r => page Website r.path false := by
        rw [hall, Request.exposed_path, List.flatMap_map]

/-- Two requests in three chunks, the answers written piece by piece. -/
def visitExample : List SessionStep :=
  let text := Request.getExample.serialise
  let env := { Surroundings.calm with writeResponse := .accepted 10 }
  [.chunk (text.take 9) env, .chunk (text.drop 9 ++ text.take 4) env, .writable (.accepted 7),
    .chunk (text.drop 4) env, .writable (.accepted 50)]

theorem visitExample_taken : ∀ i ∈ visitExample, i.Taken := by
  intro i hi
  simp only [visitExample, List.mem_cons, List.not_mem_nil, or_false] at hi
  rcases hi with rfl | rfl | rfl | rfl | rfl
  · exact ⟨⟨_, rfl⟩, ⟨_, rfl⟩, by decide⟩
  · exact ⟨⟨_, rfl⟩, ⟨_, rfl⟩, by decide⟩
  · trivial
  · exact ⟨⟨_, rfl⟩, ⟨_, rfl⟩, by decide⟩
  · trivial

theorem oneEach_of_take {rs : List Request} {inputs : List (Bytes × Surroundings)}
    (h : ∀ k < inputs.length, Request.completed rs (bytes (inputs.take (k + 1))).length ≤
      Request.completed rs (bytes (inputs.take k)).length + 1) : OneEach rs inputs := by
  intro pre i hpre
  have hlen := hpre.length_le
  rw [List.length_append, List.length_singleton] at hlen
  have hlong := List.prefix_iff_eq_take.mp hpre
  have hshort := List.prefix_iff_eq_take.mp ((List.prefix_append pre [i]).trans hpre)
  rw [List.length_append, List.length_singleton] at hlong
  have hk := h pre.length hlen
  rwa [← hlong, ← hshort] at hk

theorem pages_in_order_two :
    let rs := [Request.getExample, Request.getExample]
    ∃ s, run (webServer (ascii "<p>")).session (Serving.fresh 0) visitExample = .ok s ∧
      s.conn.stream = rs.flatMap (fun r => page (ascii "<p>") r.path false) ∧
      s.conn.state_ = .kConnected := by
  intro rs
  have hok : (run (webServer (ascii "<p>")).session (Serving.fresh 0) visitExample).isOk
      = true := by decide +kernel
  obtain ⟨s, hs⟩ := exists_ok hok
  have hone : OneEach rs (chunks visitExample) := oneEach_of_take (by decide +kernel)
  exact ⟨s, hs, pages_in_order (by decide) ⟨by decide +kernel, by decide +kernel⟩
    (HttpContent.Bounded.of_length (by decide +kernel)) (by decide +kernel) (by decide +kernel) hone
    visitExample_taken hs⟩

end LearnMuduo
