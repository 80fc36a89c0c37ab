/-
  LearnMuduo.Http.CloseDecision

  Whether a connection is closed behind the answer to a request.

  `dealWithRequest` compares the value of the header `Connection` with `Close` and
  `Keep-Alive`, name and value as they are spelled.  HTTP compares both up to case, and
  `close` is how the client and the responses of this repository spell it.  Behind the
  comparison stands the callback, which may set the mark of the response or take it away.

    * `headers_of_complete`   — the headers a parser holds are those of the header lines;
    * `wantsClose_iff`        — when the comparison reads them as HTTP does;
    * `close_decision_iff`    — when the connection is closed for the right requests.
-/
import LearnMuduo.Http.Framing
import LearnMuduo.Http.HttpServer
import LearnMuduo.Net.SendStream

namespace LearnMuduo

open Lib HttpReader

/-! ## The header lines of a request -/

namespace HttpContent

/-- The lines behind the first one, up to the first without a `':'`. -/
def headerLines (s : Bytes) : List Bytes := (lines s).tail.takeWhile (COLON ∈ ·)

/-- The header `line` is put into the map. -/
def addHeader (r : HttpRequest) (line : Bytes) : HttpRequest :=
  (r.ParseHeaders line (line.idxOf COLON)).2

/-- The bytes of these chunks, the first of a connection, complete the request of `c`. -/
def Arrives (chunks : List Bytes) (c : HttpContent) : Prop :=
  ∃ b, run onChunk (true, HttpContent.new, Buffer.new) chunks = .ok (true, c, b) ∧
    c.GetCompleteRequest = true

/-- A parser in the header section puts the header lines into the map. -/
theorem parseBytes_headerLines {c c' : HttpContent} {s rest : Bytes} {ok : Bool}
    (hc : c.parse_state_ = .kParseRequestHeader) (h : c.parseBytes s = .ok (ok, c', rest))
    (hcomp : c'.GetCompleteRequest = true) :
    c'.request_ = ((lines s).takeWhile (COLON ∈ ·)).foldl addHeader c.request_ := by
  cases hcut : cut kCRLF s with
  | none =>
    rw [parseBytes_none (Or.inr hc) hcut] at h
    obtain ⟨-, rfl, -⟩ : true = ok ∧ c = c' ∧ s = rest := by simpa using h
    simp [GetCompleteRequest, hc] at hcomp
  | some p =>
    obtain ⟨line, s'⟩ := p
    rw [parseBytes_some (Or.inr hc) hcut, onLine, hc] at h
    rw [lines_some hcut]
    by_cases hcolon : COLON ∈ line
    · -- a header line, and the rest of the section
      have hlt := cut_rest_lt hcut
      simp only [if_pos hcolon, ok_then, if_true] at h
      have hrest := parseBytes_headerLines rfl h hcomp
      rw [hrest, List.takeWhile_cons_of_pos (by simpa using hcolon), List.foldl_cons]
      rfl
    · simp only [if_neg hcolon, ok_then, if_neg Bool.false_ne_true] at h
      obtain ⟨-, rfl, -⟩ : true = ok ∧ _ = c' ∧ s' = rest := by simpa using h
      rw [List.takeWhile_cons_of_neg (by simpa using hcolon)]
      rfl
  termination_by s.length

/-- A request that is complete on a new connection has a first line that is accepted, and
    its headers are those of the header lines. -/
theorem headers_of_complete {c : HttpContent} {s rest : Bytes}
    (h : HttpContent.new.parseBytes s = .ok (true, c, rest))
    (hcomp : c.GetCompleteRequest = true) :
    ∃ line r, HttpRequest.new.ParseRequestLine line = .ok (true, r) ∧
      c.request_ = (headerLines s).foldl addHeader r := by
  have hreads : HttpContent.new.Reads := Or.inl rfl
  cases hcut : cut kCRLF s with
  | none =>
    rw [parseBytes_none hreads hcut] at h
    obtain ⟨rfl, -⟩ : HttpContent.new = c ∧ s = rest := by simpa using h
    cases hcomp
  | some p =>
    obtain ⟨line, s'⟩ := p
    rw [parseBytes_some hreads hcut] at h
    obtain ⟨⟨more, ok, c1⟩, hline, h⟩ := then_ok_iff.mp h
    obtain ⟨⟨ok', r⟩, hparse, heq⟩ := then_ok_iff.mp hline
    obtain ⟨rfl, rfl, rfl⟩ : ok' = more ∧ ok' = ok ∧ _ = c1 := by simpa using heq
    cases ok' with
    | false => simp at h
    | true =>
      refine ⟨line, r, hparse, ?_⟩
      rw [headerLines, lines_some hcut]
      exact parseBytes_headerLines rfl h hcomp

/-- Chunks come out as one call on all of them. -/
theorem run_fresh {chunks : List Bytes} (hb : Bounded chunks.flatten) :
    Computes (run onChunk (true, HttpContent.new, Buffer.new) chunks)
      (HttpContent.new.parseBytes chunks.flatten) := by
  have hempty := Buffer.new_readable kInitialSize
  have hrun := @run_onChunk (true, HttpContent.new, Buffer.new) chunks
    (Buffer.new_wf (by decide))
    (by rw [goOn_true, hempty, parseBytes_nil (Or.inl rfl)])
    (by rw [hempty, List.nil_append]; exact hb)
  rwa [goOn_true, hempty, List.nil_append] at hrun

theorem Arrives.parseBytes {chunks : List Bytes} {c : HttpContent} (h : Arrives chunks c)
    (hb : Bounded chunks.flatten) :
    ∃ rest, HttpContent.new.parseBytes chunks.flatten = .ok (true, c, rest) := by
  obtain ⟨b, hrun, -⟩ := h
  exact ⟨b.readable, ((run_fresh hb).inv hrun).1⟩

theorem arrives_serialise {r : Request} (hb : Bounded r.serialise) :
    Arrives [r.serialise]
      { request_ := r.onto HttpRequest.new, parse_state_ := .kParseGotCompleteRequest } := by
  have hflat : [r.serialise].flatten = r.serialise ++ [] := by simp
  have hrun := @run_fresh [r.serialise] (by simpa using hb)
  rw [hflat, parseBytes_serialise rfl] at hrun
  obtain ⟨b, hcall, -⟩ := hrun
  exact ⟨b, hcall, rfl⟩

end HttpContent

/-! ## What a request asks for -/

namespace HttpRequest

/-- One of the header lines is a field `Connection` of this value, up to case. -/
def Carries (headers : List Bytes) (value : Bytes) : Prop :=
  ∃ line ∈ headers, ∃ f, readField line = some f ∧
    sameName f.name (ascii "Connection") = true ∧ sameName f.value value = true

/-- What HTTP reads from the header lines and the version. -/
def AsksToClose (headers : List Bytes) (version : Option Version) : Prop :=
  Carries headers (ascii "close") ∨
    version = some .kHttp10 ∧ ¬Carries headers (ascii "keep-alive")

/-- The value found under `Connection` is spelled as the comparison wants it wherever it
    matters. -/
def Spelled (headers : List Bytes) (version : Option Version) (value : Bytes) : Prop :=
  if version = some .kHttp10 then
    if value = ascii "Keep-Alive" then ¬Carries headers (ascii "close")
    else Carries headers (ascii "keep-alive") → Carries headers (ascii "close")
  else Carries headers (ascii "close") → value = ascii "Close"

section Decision

variable {r : HttpRequest} {headers : List Bytes}

/-- The value of a header is that of an earlier request, or of one of the lines. -/
theorem addHeader_value (r : HttpRequest) (headers : List Bytes) (name : Bytes) :
    (headers.foldl HttpContent.addHeader r).hearders_ name = r.hearders_ name ∨
      ∃ line ∈ headers, line.take (line.idxOf COLON) = name ∧
        (headers.foldl HttpContent.addHeader r).hearders_ name
          = some ((line.drop (line.idxOf COLON + 1)).dropWhile (· = SP)) := by
  induction headers generalizing r with
  | nil => exact Or.inl rfl
  | cons line headers ih =>
    rcases ih (HttpContent.addHeader r line) with hold | ⟨line', hmem, hname, hvalue⟩
    · by_cases hname : line.take (line.idxOf COLON) = name
      · refine Or.inr ⟨line, List.mem_cons_self, hname, ?_⟩
        rw [List.foldl_cons, hold]
        simp [HttpContent.addHeader, ParseHeaders, chars_zero, hname]
      · refine Or.inl ?_
        rw [List.foldl_cons, hold]
        simp [HttpContent.addHeader, ParseHeaders, chars_zero, Ne.symm hname]
    · exact Or.inr ⟨line', List.mem_cons_of_mem line hmem, hname, hvalue⟩

/-- A value without blanks that stands under `Connection` is carried by a line. -/
theorem carries_of_value {value wanted : Bytes} (hr : r.hearders_ (ascii "Connection") = none)
    (hlines : ∀ line ∈ headers, COLON ∈ line) (hne : value ≠ [])
    (hfree : sp ∉ value ∧ 9 ∉ value) (hwanted : sameName value wanted = true)
    (h : (headers.foldl HttpContent.addHeader r).GetHeader (ascii "Connection") = value) :
    Carries headers wanted := by
  rcases addHeader_value r headers (ascii "Connection") with hold | ⟨line, hmem, hname, hvalue⟩
  · -- nothing is found, which is not this value
    rw [GetHeader, hold, hr] at h
    exact absurd h.symm hne
  · rw [GetHeader, hvalue, Option.getD_some] at h
    obtain ⟨name, rest, rfl, hcolon, hfield⟩ := exists_readField (hlines line hmem)
    have hnot : COLON ∉ name := hcolon
    have hidx : (name ++ COLON :: rest).idxOf COLON = name.length := by
      rw [List.idxOf_append_of_notMem hnot, List.idxOf_cons_self, Nat.add_zero]
    have hdrop : (name ++ COLON :: rest).drop (name.length + 1) = rest := by simp
    have hline : name ++ colon :: rest = name ++ COLON :: rest := rfl
    rw [hline, hidx, List.take_left] at hname
    rw [hline, hidx, hdrop] at h
    have hkey : sameName (ascii "Connection") (ascii "Connection") = true := by decide
    -- the value as HTTP reads it is the one in the map: there is no blank to trim
    have htrim : trim rest = value := by
      have hblank : ∀ b ∈ value, isBlank b = false := fun b hb => by
        refine decide_eq_false fun hor => ?_
        rcases hor with rfl | rfl
        · exact hfree.1 hb
        · exact hfree.2 hb
      rw [← trim_dropWhile, ← trim_of_free hblank]
      exact congrArg trim h
    exact ⟨_, hmem, _, hfield, hname ▸ hkey, htrim ▸ hwanted⟩

/-- Where the value is spelled as it is compared, the comparison reads the request as HTTP
    does, and nowhere else. -/
theorem wantsClose_iff (hr : r.hearders_ (ascii "Connection") = none)
    (hlines : ∀ line ∈ headers, COLON ∈ line) {request : HttpRequest}
    (heq : request = headers.foldl HttpContent.addHeader r) :
    (request.wantsClose = true ↔ AsksToClose headers request.version_) ↔
      Spelled headers request.version_ (request.GetHeader (ascii "Connection")) := by
  have hclose : request.GetHeader (ascii "Connection") = ascii "Close" →
      Carries headers (ascii "close") := fun h =>
    carries_of_value hr hlines (by decide) (by decide) (by decide) (heq ▸ h)
  have hkeep : request.GetHeader (ascii "Connection") = ascii "Keep-Alive" →
      Carries headers (ascii "keep-alive") := fun h =>
    carries_of_value hr hlines (by decide) (by decide) (by decide) (heq ▸ h)
  have hne : ascii "Keep-Alive" ≠ ascii "Close" := by decide
  have htest : request.wantsClose = true ↔
      request.GetHeader (ascii "Connection") = ascii "Close" ∨
        request.version_ = some .kHttp10 ∧
          request.GetHeader (ascii "Connection") ≠ ascii "Keep-Alive" := by
    rw [wantsClose, closeTest, decide_eq_true_eq]
  rw [htest]
  generalize request.GetHeader (ascii "Connection") = value at hclose hkeep
  unfold AsksToClose Spelled
  by_cases hversion : request.version_ = some .kHttp10
  · simp only [hversion, true_and, if_true]
    by_cases hvalue : value = ascii "Keep-Alive"
    · -- kept open, which is right unless a line says `close`
      have hopen : ¬(value = ascii "Close" ∨ value ≠ ascii "Keep-Alive") := by
        rintro (heq | hother)
        · exact hne (hvalue.symm.trans heq)
        · exact hother hvalue
      rw [if_pos hvalue]
      constructor
      · intro h hsays
        exact hopen (h.mpr (Or.inl hsays))
      · intro hsays
        refine ⟨fun h => absurd h hopen, fun h => ?_⟩
        exact absurd (hkeep hvalue) (h.resolve_left hsays)
    · -- closed, which is right unless a line says `keep-alive` and none `close`
      rw [if_neg hvalue]
      constructor
      · intro h hsays
        exact (h.mp (Or.inr hvalue)).resolve_right (not_not_intro hsays)
      · intro h
        exact ⟨fun _ => or_iff_not_imp_right.mpr fun hsays => h (not_not.mp hsays),
          fun _ => Or.inr hvalue⟩
  · simp only [hversion, false_and, or_false, if_false]
    exact ⟨Iff.mpr, fun h => ⟨hclose, h⟩⟩

end Decision

end HttpRequest

/-! ## What is announced -/

/-- Behind the status line stands `Connection: close`. -/
def HttpResponse.Announces (r : HttpResponse) (sent : Bytes) : Prop :=
  r.statusLine ++ CRLF ++ (ascii "Connection: close" ++ CRLF) <+: sent

theorem HttpResponse.announces_message {r : HttpResponse} :
    r.Announces r.message ↔ r.close_connection_ = true := by
  rw [Announces, message, ← statusLine]
  cases r.close_connection_ with
  | true =>
    simp only [if_true, iff_true, List.append_assoc]
    exact ⟨CRLF ++ r.body_, by simp⟩
  | false =>
    refine iff_of_false ?_ Bool.false_ne_true
    simp only [if_neg Bool.false_ne_true, List.append_assoc, List.prefix_append_right_inj]
    rintro ⟨t, ht⟩
    -- the fourth letters of `Connection` and `Content_Length` differ
    have hletter : some (110 : Byte) = some 116 := congrArg (fun l => l[3]?) ht
    cases hletter

/-! ## The decision -/

namespace HttpServer

/-- The response that `dealWithRequest` sends. -/
def respond (server : HttpServer) (request : HttpRequest) (uninit : Int) : HttpResponse :=
  server.response_callback_ request (HttpResponse.new request.wantsClose uninit)

/-- The callback marks a response that it is given unmarked. -/
def Asks (server : HttpServer) (request : HttpRequest) (uninit : Int) : Prop :=
  (server.response_callback_ request (HttpResponse.new false uninit)).close_connection_ = true

/-- The callback leaves the mark on a response that it is given marked. -/
def Keeps (server : HttpServer) (request : HttpRequest) (uninit : Int) : Prop :=
  (server.response_callback_ request (HttpResponse.new true uninit)).close_connection_ = true

/-- The connection is shut down, and the response announces it, exactly when `p`. -/
def ClosesWhen (response : HttpResponse) (s' : Serving) (p : Prop) : Prop :=
  (s'.conn.state_ = .kDisConnecting ↔ p) ∧
    ∀ buffer, response.AppendToBuffer Buffer.new = .ok buffer →
      (response.Announces buffer.readable ↔ p)

instance (server : HttpServer) (request : HttpRequest) (uninit : Int) :
    Decidable (server.Asks request uninit) := inferInstanceAs (Decidable (_ = true))

instance (server : HttpServer) (request : HttpRequest) (uninit : Int) :
    Decidable (server.Keeps request uninit) := inferInstanceAs (Decidable (_ = true))

/-- What the decision needs: of a callback that leaves the mark, that it asks itself or
    that the request is spelled; of one that takes it away, that nobody asked. -/
def DecidesRight (server : HttpServer) (request : HttpRequest) (headers : List Bytes)
    (uninit : Int) : Prop :=
  if server.Keeps request uninit then
    server.Asks request uninit ∨
      HttpRequest.Spelled headers request.version_ (request.GetHeader (ascii "Connection"))
  else if server.Asks request uninit then
    request.GetHeader (ascii "Connection") ≠ ascii "Close" ∧
      (request.version_ = some .kHttp10 →
        request.GetHeader (ascii "Connection") = ascii "Keep-Alive")
  else ¬HttpRequest.AsksToClose headers request.version_

section Decision

variable {server : HttpServer} {request : HttpRequest} {s s' : Serving} {env : Surroundings}

/-- The mark that the callback leaves decides both. -/
theorem closesWhen_iff {p : Prop} (hopen : s.conn.state_ = .kConnected)
    (hlen : (server.respond request env.uninit).message.length ≤ kMaxSize)
    (h : server.dealWithRequest request s env = .ok s') :
    ClosesWhen (server.respond request env.uninit) s' p ↔
      ((server.respond request env.uninit).close_connection_ = true ↔ p) := by
  unfold dealWithRequest at h
  obtain ⟨buffer, hbuffer, h⟩ := then_ok_iff.mp h
  obtain ⟨⟨conn, rest⟩, hsend, h⟩ := then_ok_iff.mp h
  obtain rfl := Except.ok.inj h
  have hsame := TcpConnection.sendBuffer_frame hsend
  have hstate : conn.state_ = .kConnected := hsame.state.trans hopen
  have hread := (HttpResponse.AppendToBuffer_readable (Buffer.new_wf (by decide)) hlen hbuffer).2
  rw [Buffer.new_readable, List.nil_append] at hread
  have hshut : (if (server.respond request env.uninit).close_connection_ = true then conn.shutdown
      else conn).state_ = .kDisConnecting ↔
      (server.respond request env.uninit).close_connection_ = true := by
    split
    · rename_i hmark
      exact iff_of_true (by simp [TcpConnection.shutdown, hstate]) hmark
    · rename_i hmark
      exact iff_of_false (by simp [hstate]) hmark
  constructor
  · rintro ⟨hclosed, -⟩
    exact hshut.symm.trans hclosed
  · intro hp
    refine ⟨hshut.trans hp, fun buffer' hbuffer' => ?_⟩
    obtain rfl := Except.ok.inj (hbuffer.symm.trans hbuffer')
    rw [hread, HttpResponse.announces_message]
    exact hp

/-- The mark is the one of the request or the one of the callback. -/
theorem respond_close (uninit : Int) :
    (server.respond request uninit).close_connection_ = true ↔
      if request.wantsClose = true then server.Keeps request uninit
      else server.Asks request uninit := by
  unfold respond Keeps Asks
  cases request.wantsClose <;> rfl

/-- It returns whenever the lengths fit. -/
theorem dealWithRequest_returns (hwf : s.conn.outputBuffer_.WF)
    (hroom : s.conn.outputBuffer_.readable.length < 2 ^ 61)
    (hlen : (server.respond request env.uninit).message.length < 2 ^ 31) :
    ∃ s', server.dealWithRequest request s env = .ok s' := by
  have hempty := Buffer.new_readable kInitialSize
  obtain ⟨buffer, hbuffer, -, hread⟩ := @Buffer.appendString_returns Buffer.new
    (Buffer.new_wf (by decide)) (server.respond request env.uninit).message
    (by rw [hempty]; unfold kMaxSize kcheapPrepend; simp only [List.length_nil]; omega)
  rw [hempty, List.nil_append] at hread
  have hfits : buffer.readable.length < 2 ^ 31 := hread ▸ hlen
  obtain ⟨conn, hsend⟩ := TcpConnection.send_returns env.writeResponse hwf hfits hroom
  obtain ⟨p, hp⟩ : ∃ p, s.conn.sendBuffer buffer env.writeResponse = .ok p := by
    unfold TcpConnection.sendBuffer
    split
    · exact ⟨_, by rw [hsend, ok_then]⟩
    · exact ⟨_, rfl⟩
  exact ⟨_, then_ok_iff.mpr ⟨buffer, hbuffer, then_ok_iff.mpr ⟨p, hp, rfl⟩⟩⟩

end Decision

/-- **When the connection is closed for the right requests.**  Of a complete request,
    received on a new connection in any chunks. -/
theorem close_decision_iff {server : HttpServer} {s s' : Serving} {env : Surroundings}
    {chunks : List Bytes} {c : HttpContent} (hb : HttpContent.Bounded chunks.flatten)
    (harr : HttpContent.Arrives chunks c) (hopen : s.conn.state_ = .kConnected)
    (hlen : (server.respond c.request_ env.uninit).message.length ≤ kMaxSize)
    (h : server.dealWithRequest c.request_ s env = .ok s') :
    ClosesWhen (server.respond c.request_ env.uninit) s'
        (server.Asks c.request_ env.uninit ∨
          HttpRequest.AsksToClose (HttpContent.headerLines chunks.flatten) c.request_.version_) ↔
      server.DecidesRight c.request_ (HttpContent.headerLines chunks.flatten) env.uninit := by
  obtain ⟨rest, hparse⟩ := harr.parseBytes hb
  obtain ⟨b, -, hcomp⟩ := harr
  obtain ⟨line, r, hline, hheaders⟩ := HttpContent.headers_of_complete hparse hcomp
  have hnone : r.hearders_ (ascii "Connection") = none := by
    rw [HttpRequest.ParseRequestLine_hearders hline]
    rfl
  have hlines : ∀ l ∈ HttpContent.headerLines chunks.flatten, COLON ∈ l := fun l hl => by
    simpa using List.all_eq_true.mp List.all_takeWhile l hl
  have hspelled := HttpRequest.wantsClose_iff hnone hlines hheaders
  rw [closesWhen_iff hopen hlen h, respond_close, DecidesRight]
  by_cases hkeeps : server.Keeps c.request_ env.uninit
  · rw [if_pos hkeeps]
    by_cases hasks : server.Asks c.request_ env.uninit
    · simp [hkeeps, hasks]
    · -- the mark stays what the comparison made it
      simpa [hkeeps, hasks] using hspelled
  · rw [if_neg hkeeps]
    by_cases hasks : server.Asks c.request_ env.uninit
    · -- the mark is turned over, so the comparison must not have set it
      have htest := @HttpRequest.closeTest_false
        (c.request_.GetHeader (ascii "Connection")) c.request_.version_
      simpa [hkeeps, hasks, HttpRequest.wantsClose] using htest
    · simp [hkeeps, hasks]

/-- `GET /a?b HTTP/1.1` with a header `Connection`. -/
def connectionRequest (value : Bytes) (hcrlf : NoCRLF value) (hsp : value.head? ≠ some SP) :
    Request :=
  { Request.getExample with
    headers :=
      [{ name := ascii "Connection", value := value, name_colon := by decide
         name_crlf := by decide, value_crlf := hcrlf, value_sp := hsp }] }

/-- As the comparison wants it. -/
def askingRequest : Request := connectionRequest (ascii "Close") (by decide) (by decide)

/-- As clients usually spell it. -/
def usualRequest : Request := connectionRequest (ascii "close") (by decide) (by decide)

/-- A connection on which nothing was sent answers a request of moderate length. -/
theorem fresh_returns (request : HttpRequest)
    (hlen : (plain.respond request Surroundings.calm.uninit).message.length < 2 ^ 31) :
    ∃ s', plain.dealWithRequest request (Serving.fresh 0) Surroundings.calm = .ok s' :=
  dealWithRequest_returns (Buffer.new_wf (by decide)) (by decide +kernel) hlen

theorem close_decision_example :
    ∃ c s', HttpContent.Arrives [askingRequest.serialise] c ∧
      plain.dealWithRequest c.request_ (Serving.fresh 0) Surroundings.calm = .ok s' ∧
      (ClosesWhen (plain.respond c.request_ Surroundings.calm.uninit) s'
          (plain.Asks c.request_ Surroundings.calm.uninit ∨
            HttpRequest.AsksToClose (HttpContent.headerLines [askingRequest.serialise].flatten)
              c.request_.version_) ↔
        plain.DecidesRight c.request_
          (HttpContent.headerLines [askingRequest.serialise].flatten)
          Surroundings.calm.uninit) := by
  have hb : HttpContent.Bounded askingRequest.serialise := .of_length (by decide +kernel)
  obtain ⟨s', hs'⟩ := fresh_returns (askingRequest.onto HttpRequest.new)
    (by decide +kernel)
  exact ⟨_, s', HttpContent.arrives_serialise hb, hs', close_decision_iff (by simpa using hb)
    (HttpContent.arrives_serialise hb) rfl (by decide +kernel) hs'⟩

/-- With a callback that leaves the response alone, `Connection: close` is not heard. -/
theorem close_not_heard :
    ∃ c s', HttpContent.Arrives [usualRequest.serialise] c ∧
      plain.dealWithRequest c.request_ (Serving.fresh 0) Surroundings.calm = .ok s' ∧
      ¬ClosesWhen (plain.respond c.request_ Surroundings.calm.uninit) s'
        (plain.Asks c.request_ Surroundings.calm.uninit ∨
          HttpRequest.AsksToClose (HttpContent.headerLines [usualRequest.serialise].flatten)
            c.request_.version_) := by
  have hb : HttpContent.Bounded usualRequest.serialise := .of_length (by decide +kernel)
  obtain ⟨s', hs'⟩ := fresh_returns (usualRequest.onto HttpRequest.new)
    (by decide +kernel)
  refine ⟨_, s', HttpContent.arrives_serialise hb, hs', ?_⟩
  rw [closesWhen_iff rfl (by decide +kernel) hs']
  intro hright
  -- the one header line says `close`, and the response is not marked
  have hfirst : cut kCRLF usualRequest.serialise
      = some (ascii "GET /a?b HTTP/1.1", ascii "Connection: close\r\n\r\n") := by decide +kernel
  have hsecond : cut kCRLF (ascii "Connection: close\r\n\r\n")
      = some (ascii "Connection: close", ascii "\r\n") := by decide +kernel
  have hlines : HttpContent.headerLines [usualRequest.serialise].flatten
      = [ascii "Connection: close"] := by
    have hthird : cut kCRLF (ascii "\r\n") = some ([], []) := by decide +kernel
    have hflat : [usualRequest.serialise].flatten = usualRequest.serialise := by simp
    rw [HttpContent.headerLines, hflat, lines_some hfirst, lines_some hsecond, lines_some hthird]
    decide
  have hcarries : HttpRequest.Carries [ascii "Connection: close"] (ascii "close") :=
    ⟨_, List.mem_singleton_self _,
      { name := ascii "Connection", value := ascii "close" }, by decide, by decide, by decide⟩
  have hmark := hright.mpr (Or.inr (Or.inl (hlines ▸ hcarries)))
  exact absurd hmark (by decide +kernel)

end HttpServer

end LearnMuduo
