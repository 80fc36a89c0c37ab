/-
  LearnMuduo.Http.HttpServer

  `bing::HttpServer` (Http/httpServer.h, Http/httpServer.cc): the message callback,
  which parses one request and answers it.

  `Serving` is a connection with a record of the requests `response_callback_` was
  called on.  The spec lemma of `MessageCallback` is `MessageCallback_ok`: in terms
  of `parseBytes`, what a call does that parses without an error.
-/
import LearnMuduo.Http.Segmentation
import LearnMuduo.Http.HttpResponse
import LearnMuduo.Net.TcpConnection

namespace LearnMuduo

open Lib

structure HttpServer where
  auto_close_idleconnection_ : Bool
  response_callback_ : HttpRequest → HttpResponse → HttpResponse

/-- What a call of `MessageCallback` meets: the clock, what stands in an
    uninitialised `status_code_`, and the outcomes of its two possible writes. -/
structure Surroundings where
  now : Nat
  uninit : Int
  write400 : WriteResult
  writeResponse : WriteResult
  deriving DecidableEq, Repr

structure Serving where
  conn : TcpConnection
  /-- The requests `response_callback_` was called on. -/
  responses : List HttpRequest

namespace HttpRequest

/-- `close` in `dealWithRequest`. -/
def closeTest (connection_state : Bytes) (version : Option Version) : Bool :=
  connection_state = ascii "Close" ∨
    (version = some .kHttp10 ∧ connection_state ≠ ascii "Keep-Alive")

def wantsClose (request : HttpRequest) : Bool :=
  closeTest (request.GetHeader (ascii "Connection")) request.version_

theorem closeTest_false {state : Bytes} {version : Option Version} :
    closeTest state version = false ↔
      state ≠ ascii "Close" ∧ (version = some .kHttp10 → state = ascii "Keep-Alive") := by
  simp [closeTest]

end HttpRequest

namespace HttpServer

def HttpDefaultCallback (_request : HttpRequest) (response : HttpResponse) : HttpResponse :=
  ((response.setStatusCode .k404NotFound).setStatusMessage (ascii "Not Found")).setCloseConnection
    true

def dealWithRequest (server : HttpServer) (request : HttpRequest) (s : Serving)
    (env : Surroundings) : Except Fault Serving :=
  let response := server.response_callback_ request (HttpResponse.new request.wantsClose env.uninit)
  response.AppendToBuffer Buffer.new >>= fun buffer =>
    s.conn.sendBuffer buffer env.writeResponse >>= fun p =>
      .ok { conn := if response.CloseConnection then p.1.shutdown else p.1
            responses := s.responses ++ [request] }

/-- The time stamp of `MessageCallback`. -/
def stamped (server : HttpServer) (conn : TcpConnection) (now : Nat) : TcpConnection :=
  if server.auto_close_idleconnection_ then conn.updateTimeStamp now else conn

/-- The branch of `MessageCallback` on the value of `ParseContent`. -/
def refuse (ok : Bool) (conn : TcpConnection) (w : WriteResult) : Except Fault TcpConnection :=
  if ok then .ok conn
  else conn.send (ascii "HTTP/1.1 400 Bad Request\r\n\r\n") w >>= fun conn => .ok conn.shutdown

/-- The branch of `MessageCallback` on `GetCompleteRequest`. -/
def answer (server : HttpServer) (s : Serving) (env : Surroundings) : Except Fault Serving :=
  if s.conn.content_.GetCompleteRequest then
    server.dealWithRequest s.conn.content_.request_ s env >>= fun s =>
      .ok { s with conn := { s.conn with content_ := s.conn.content_.ResetContentState } }
  else .ok s

/-- `MessageCallback`, called with the connection's input Buffer. -/
def MessageCallback (server : HttpServer) (s : Serving) (env : Surroundings) :
    Except Fault Serving :=
  let conn := server.stamped s.conn env.now
  if conn.IsShutdown then .ok { s with conn := conn }
  else
    conn.content_.ParseContent conn.inputBuffer_ >>= fun r =>
      refuse r.1 { conn with content_ := r.2.1, inputBuffer_ := r.2.2 } env.write400 >>= fun conn =>
        server.answer { s with conn := conn } env

/-- A chunk arrives: it is appended to the input Buffer and handed to the callback. -/
def onMessage (server : HttpServer) (s : Serving) (input : Bytes × Surroundings) :
    Except Fault Serving :=
  s.conn.inputBuffer_.appendString input.1 >>= fun b =>
    server.MessageCallback { s with conn := { s.conn with inputBuffer_ := b } } input.2

/-- The response callback does not ask to close in its answer to the request. -/
def KeepsOpen (server : HttpServer) (request : HttpRequest) : Prop :=
  ∀ response, response.close_connection_ = false →
    (server.response_callback_ request response).close_connection_ = false

/-- A server whose callback leaves the response as it is. -/
def plain : HttpServer :=
  { auto_close_idleconnection_ := false, response_callback_ := fun _ response => response }

theorem plain_keepsOpen (request : HttpRequest) : plain.KeepsOpen request := fun _ h => h

end HttpServer

/-- Writes that the kernel takes whole. -/
def Surroundings.calm : Surroundings :=
  { now := 0, uninit := 200, write400 := .accepted 1024, writeResponse := .accepted 1024 }

/-- A connection just established, nothing received. -/
def Serving.fresh (now : Nat) : Serving :=
  { conn := (TcpConnection.new now).established, responses := [] }

/-! ## One call -/

namespace HttpServer

section Call

variable {server : HttpServer} {s s' : Serving} {env : Surroundings}

/-- What an answer leaves alone; the connection stays open if nobody asks to close. -/
theorem dealWithRequest_ok {request : HttpRequest}
    (h : server.dealWithRequest request s env = .ok s') :
    s'.conn.inputBuffer_ = s.conn.inputBuffer_ ∧ s'.conn.content_ = s.conn.content_ ∧
      (server.KeepsOpen request → request.wantsClose = false → s'.conn.state_ = s.conn.state_) := by
  unfold dealWithRequest at h
  obtain ⟨buffer, -, h⟩ := then_ok_iff.mp h
  obtain ⟨⟨conn, rest⟩, hsend, h⟩ := then_ok_iff.mp h
  have hsame := TcpConnection.sendBuffer_frame hsend
  obtain rfl := Except.ok.inj h
  -- `shutdown` does not look at the input
  have hkept : ∀ b : Bool, (if b then conn.shutdown else conn).inputBuffer_ = s.conn.inputBuffer_ ∧
      (if b then conn.shutdown else conn).content_ = s.conn.content_ := fun b => by
    cases b
    · exact ⟨hsame.inputBuffer, hsame.content⟩
    · exact ⟨TcpConnection.shutdown_inputBuffer.trans hsame.inputBuffer,
        TcpConnection.shutdown_content.trans hsame.content⟩
  refine ⟨(hkept _).1, (hkept _).2, fun hkeep hclose => ?_⟩
  -- the response closes only what asked to be closed
  have hopen : (server.response_callback_ request
      (HttpResponse.new request.wantsClose env.uninit)).CloseConnection = false :=
    hkeep _ hclose
  rw [hopen, if_neg Bool.false_ne_true]
  exact hsame.state

theorem dealWithRequest_responses {request : HttpRequest}
    (h : server.dealWithRequest request s env = .ok s') :
    s'.responses = s.responses ++ [request] := by
  unfold dealWithRequest at h
  obtain ⟨buffer, -, h⟩ := then_ok_iff.mp h
  obtain ⟨p, -, h⟩ := then_ok_iff.mp h
  obtain rfl := Except.ok.inj h
  rfl

theorem answer_responses (h : server.answer s env = .ok s') :
    s'.responses = s.responses ∨ ∃ request, s'.responses = s.responses ++ [request] := by
  unfold answer at h
  split at h
  · obtain ⟨t, ht, h⟩ := then_ok_iff.mp h
    obtain rfl := Except.ok.inj h
    have hresp := dealWithRequest_responses ht
    exact Or.inr ⟨_, hresp⟩
  · obtain rfl := Except.ok.inj h
    exact Or.inl rfl

theorem MessageCallback_responses (h : server.MessageCallback s env = .ok s') :
    s'.responses = s.responses ∨ ∃ request, s'.responses = s.responses ++ [request] := by
  simp only [MessageCallback] at h
  split at h
  · obtain rfl := Except.ok.inj h
    exact Or.inl rfl
  · obtain ⟨r, -, h⟩ := then_ok_iff.mp h
    obtain ⟨conn, -, h⟩ := then_ok_iff.mp h
    exact answer_responses (s := { s with conn := conn }) h

theorem stamped_same (server : HttpServer) (conn : TcpConnection) (now : Nat) :
    TcpConnection.SameInput conn (server.stamped conn now) := by
  unfold stamped
  split <;> exact ⟨rfl, rfl, rfl⟩

/-- The connection is in the state it should be in after the parser returned `c`: a
    complete request was answered and the parser reset, otherwise the parser waits. -/
def Parsed (server : HttpServer) (s s' : Serving) (c : HttpContent) : Prop :=
  if c.GetCompleteRequest then
    s'.conn.content_ = c.ResetContentState ∧ s'.responses = s.responses ++ [c.request_] ∧
      (server.KeepsOpen c.request_ → c.request_.wantsClose = false →
        s'.conn.state_ = .kConnected)
  else s'.conn.content_ = c ∧ s'.responses = s.responses ∧ s'.conn.state_ = .kConnected

/-- What a call does to an open connection when the readable bytes parse. -/
theorem MessageCallback_ok {c : HttpContent} {rest : Bytes}
    (hstate : s.conn.state_ = .kConnected) (hwf : s.conn.inputBuffer_.WF)
    (hshort : HttpContent.LinesShort s.conn.inputBuffer_.readable)
    (hparse : s.conn.content_.parseBytes s.conn.inputBuffer_.readable = .ok (true, c, rest))
    (h : server.MessageCallback s env = .ok s') :
    s'.conn.inputBuffer_.WF ∧ s'.conn.inputBuffer_.readable = rest ∧ server.Parsed s s' c := by
  obtain ⟨b, hcall, hbwf, hread⟩ := HttpContent.ParseContent_ok hwf hshort hparse
  have hsame := stamped_same server s.conn env.now
  -- the call is not turned away, and the parser does not refuse
  have hopen : (server.stamped s.conn env.now).IsShutdown = false := by
    simp [TcpConnection.IsShutdown, hsame.state, hstate]
  simp only [MessageCallback] at h
  rw [hopen, if_neg Bool.false_ne_true, hsame.content, hsame.inputBuffer, hcall, ok_then, refuse,
    if_pos rfl, ok_then] at h
  unfold answer at h
  unfold Parsed
  split at h
  · -- a complete request is answered, and the parser reset
    rename_i hcomp
    obtain ⟨t, ht, h⟩ := then_ok_iff.mp h
    obtain ⟨hbuf, hcontent, hkept⟩ := dealWithRequest_ok ht
    have hresp := dealWithRequest_responses ht
    obtain rfl := Except.ok.inj h
    have hbuf' : t.conn.inputBuffer_ = b := hbuf
    rw [if_pos hcomp]
    refine ⟨?_, ?_, ?_, hresp, fun hkeep hclose => ?_⟩
    · exact hbuf'.symm ▸ hbwf
    · exact (congrArg Buffer.readable hbuf').trans hread
    · exact congrArg HttpContent.ResetContentState hcontent
    · exact (hkept hkeep hclose).trans (hsame.state.trans hstate)
  · -- otherwise the call only parses
    rename_i hwait
    obtain rfl := Except.ok.inj h
    rw [if_neg hwait]
    exact ⟨hbwf, hread, rfl, rfl, hsame.state.trans hstate⟩

/-- The same for a chunk that arrives. -/
theorem onMessage_ok {input : Bytes × Surroundings} {c : HttpContent} {rest : Bytes}
    (hstate : s.conn.state_ = .kConnected) (hwf : s.conn.inputBuffer_.WF)
    (hb : HttpContent.Bounded (s.conn.inputBuffer_.readable ++ input.1))
    (hparse : s.conn.content_.parseBytes (s.conn.inputBuffer_.readable ++ input.1)
      = .ok (true, c, rest))
    (h : server.onMessage s input = .ok s') :
    s'.conn.inputBuffer_.WF ∧ s'.conn.inputBuffer_.readable = rest ∧ server.Parsed s s' c := by
  obtain ⟨b, happ, hbwf, hread⟩ := HttpContent.appendString_chunk hwf hb.length
  rw [onMessage, happ, ok_then] at h
  rw [← hread] at hparse
  exact MessageCallback_ok (s := { s with conn := { s.conn with inputBuffer_ := b } }) hstate
    hbwf (hread ▸ hb.short) hparse h

/-- A call answers no request or one. -/
theorem onMessage_responses {input : Bytes × Surroundings} (h : server.onMessage s input = .ok s') :
    s.responses.length ≤ s'.responses.length ∧ s'.responses.length ≤ s.responses.length + 1 := by
  obtain ⟨b, -, h⟩ := then_ok_iff.mp h
  rcases MessageCallback_responses h with heq | ⟨request, heq⟩ <;> rw [heq]
  · exact ⟨Nat.le_refl _, Nat.le_succ _⟩
  · simp

end Call

end HttpServer

end LearnMuduo
