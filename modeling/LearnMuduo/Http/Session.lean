/-
  LearnMuduo.Http.Session

  What a client of an `HttpServer` gets over the life of a connection: chunks arrive, and
  `EPOLLOUT` events write what is queued, in any order.

  `Sent` says what has gone out or waits to: the complete responses to the requests that
  were answered, one behind the other, and the text of the `400` behind them if the parser
  has refused.  Each call of `MessageCallback` adds one item at most, and none behind one
  that closes the connection.
-/
import LearnMuduo.Http.HttpServer
import LearnMuduo.Net.SendStream

namespace LearnMuduo

open Lib

namespace HttpContent

/-- A line that is refused ends the loop, and leaves the state in which it was refused. -/
theorem parseBranch_refuses {c c' : HttpContent} {found : Option (Nat × Bytes)}
    {v v' : ParseLocals} (hv : v.parseOk = true)
    (h : c.parseBranch found v = .ok (c', v')) :
    v'.parseOk = true ∨ v'.lineMore = false ∧ c'.GetCompleteRequest = false := by
  unfold parseBranch at h
  split at h
  · rename_i hstate
    cases found with
    | none =>
      obtain ⟨rfl, rfl⟩ := Prod.mk.inj (Except.ok.inj h)
      exact Or.inl hv
    | some p =>
      obtain ⟨r, -, h⟩ := then_ok_iff.mp h
      split at h
      · rename_i htrue
        obtain ⟨rfl, rfl⟩ := Prod.mk.inj (Except.ok.inj h)
        exact Or.inl htrue
      · obtain ⟨rfl, rfl⟩ := Prod.mk.inj (Except.ok.inj h)
        exact Or.inr ⟨rfl, by simp [GetCompleteRequest, hstate]⟩
  · refine Or.inl ?_
    cases found with
    | none =>
      obtain ⟨rfl, rfl⟩ := Prod.mk.inj (Except.ok.inj h)
      exact hv
    | some p =>
      simp only [branchRequestHeader] at h
      split at h
      · obtain ⟨rfl, rfl⟩ := Prod.mk.inj (Except.ok.inj h)
        exact hv
      · obtain ⟨rfl, rfl⟩ := Prod.mk.inj (Except.ok.inj h)
        rfl
  · obtain ⟨rfl, rfl⟩ := Prod.mk.inj (Except.ok.inj h)
    exact Or.inl hv
  · obtain ⟨rfl, rfl⟩ := Prod.mk.inj (Except.ok.inj h)
    exact Or.inl hv
  · obtain ⟨rfl, rfl⟩ := Prod.mk.inj (Except.ok.inj h)
    exact Or.inl hv

theorem parseLoop_refuses {fuel : Nat} {c c' : HttpContent} {b b' : Buffer} {v : ParseLocals}
    (hv : v.parseOk = true ∨ v.lineMore = false ∧ c.GetCompleteRequest = false)
    (h : parseLoop fuel c b v = .ok (false, c', b')) : c'.GetCompleteRequest = false := by
  induction fuel generalizing c b v with
  | zero => cases h
  | succ fuel ih =>
    rw [parseLoop] at h
    split at h
    · rename_i hmore
      obtain ⟨⟨c1, v1⟩, hbranch, h⟩ := then_ok_iff.mp h
      obtain ⟨b1, -, h⟩ := then_ok_iff.mp h
      have hok : v.parseOk = true := hv.resolve_right fun hstop => by
        rw [hmore] at hstop
        cases hstop.1
      exact ih (parseBranch_refuses hok hbranch) h
    · obtain ⟨hok, heq⟩ := Prod.mk.inj (Except.ok.inj h)
      obtain ⟨rfl, -⟩ := Prod.mk.inj heq
      exact (hv.resolve_left fun htrue => by rw [hok] at htrue; cases htrue).2

/-- A parser that refuses has no complete request. -/
theorem ParseContent_refuses {c c' : HttpContent} {b b' : Buffer}
    (h : c.ParseContent b = .ok (false, c', b')) : c'.GetCompleteRequest = false :=
  parseLoop_refuses (Or.inl rfl) h

end HttpContent

/-! ## The stream of a connection -/

namespace TcpConnection

variable {conn conn' : TcpConnection}

theorem shutdown_stream :
    conn.shutdown.outputBuffer_ = conn.outputBuffer_ ∧ conn.shutdown.stream = conn.stream := by
  unfold shutdown
  split
  · refine ⟨shutdownInloop_outputBuffer, ?_⟩
    rw [stream, shutdownInloop_accepted, shutdownInloop_outputBuffer]
    rfl
  · exact ⟨rfl, rfl⟩

theorem shutdown_connected (h : conn.state_ = .kConnected) :
    conn.shutdown.state_ = .kDisConnecting := by
  rw [shutdown, if_pos h, shutdownInloop_state]

theorem sendBuffer_stream {buffer rest : Buffer} {n : Nat} (hwf : conn.outputBuffer_.WF)
    (hstate : conn.state_ = .kConnected) (hlen : buffer.readable.length < 2 ^ 31)
    (h : conn.sendBuffer buffer (.accepted n) = .ok (conn', rest)) :
    conn'.outputBuffer_.WF ∧ conn'.stream = conn.stream ++ buffer.readable := by
  rw [sendBuffer, if_pos hstate] at h
  obtain ⟨c, hsend, heq⟩ := then_ok_iff.mp h
  obtain ⟨rfl, -⟩ := Prod.mk.inj (Except.ok.inj heq)
  exact send_stream hwf ⟨hlen, fun _ _ => Int.natCast_nonneg _⟩ hsend

end TcpConnection

/-! ## A session -/

inductive SessionStep where
  /-- A chunk arrives. -/
  | chunk (bytes : Bytes) (env : Surroundings)
  /-- `EPOLLOUT`. -/
  | writable (w : WriteResult)

/-- The writes of the callback are not refused; those of `EPOLLOUT` may be.  What stands in an
    `int` is an `int`. -/
def SessionStep.Taken : SessionStep → Prop
  | .chunk _ env => (∃ n, env.write400 = .accepted n) ∧ (∃ n, env.writeResponse = .accepted n) ∧
      env.uninit.natAbs ≤ 2 ^ 31
  | .writable _ => True

namespace HttpServer

variable {server : HttpServer} {s s' : Serving}

def session (server : HttpServer) (s : Serving) : SessionStep → Except Fault Serving
  | .chunk bytes env => server.onMessage s (bytes, env)
  | .writable w => .ok { s with conn := s.conn.handleWrite w }

def badRequest : Bytes := ascii "HTTP/1.1 400 Bad Request\r\n\r\n"

/-- The response to a request, when `uninit` stands in its `status_code_` at first. -/
def reply (server : HttpServer) (p : HttpRequest × Int) : HttpResponse :=
  server.response_callback_ p.1 (HttpResponse.new p.1.wantsClose p.2)

def closes (server : HttpServer) (p : HttpRequest × Int) : Bool := (server.reply p).CloseConnection

/-- The responses are shorter than an `int` can tell. -/
def Short (server : HttpServer) : Prop :=
  ∀ p : HttpRequest × Int, p.2.natAbs ≤ 2 ^ 31 → (server.reply p).message.length < 2 ^ 31

/-- The connection has been sent the responses to the requests of `sent`, and the `400` behind
    them if `refused`. -/
structure Sent (server : HttpServer) (s : Serving) (sent : List (HttpRequest × Int))
    (refused : Bool) : Prop where
  wf : s.conn.outputBuffer_.WF
  requests : s.responses = sent.map Prod.fst
  stream : s.conn.stream =
    (sent.flatMap fun p => (server.reply p).message) ++ if refused then badRequest else []
  state : s.conn.state_ = if refused || sent.any server.closes then .kDisConnecting else .kConnected
  last : ∀ p ∈ if refused then sent else sent.dropLast, server.closes p = false

theorem Sent.fresh (now : Nat) : server.Sent (Serving.fresh now) [] false where
  wf := Buffer.new_wf (by decide)
  requests := rfl
  stream := Buffer.new_readable kInitialSize
  state := rfl
  last _ h := absurd h List.not_mem_nil

variable {sent : List (HttpRequest × Int)} {refused : Bool}

/-- The stream, the state and the answers are all that it looks at. -/
theorem Sent.frame (h : server.Sent s sent refused)
    (hout : s'.conn.outputBuffer_ = s.conn.outputBuffer_) (hsock : s'.conn.socket_ = s.conn.socket_)
    (hstate : s'.conn.state_ = s.conn.state_) (hresp : s'.responses = s.responses) :
    server.Sent s' sent refused where
  wf := hout ▸ h.wf
  requests := hresp.trans h.requests
  stream := by rw [TcpConnection.stream, hout, hsock]; exact h.stream
  state := hstate.trans h.state
  last := h.last

theorem Sent.writable (h : server.Sent s sent refused) (w : WriteResult) :
    server.Sent { s with conn := s.conn.handleWrite w } sent refused := by
  obtain ⟨hwf, hstream⟩ := TcpConnection.handleWrite_stream w h.wf
  exact ⟨hwf, h.requests, hstream.trans h.stream, TcpConnection.handleWrite_frame.1.trans h.state,
    h.last⟩

/-- As long as the connection is open nothing that was sent has closed it. -/
theorem Sent.of_connected (h : server.Sent s sent refused) (hopen : s.conn.state_ = .kConnected) :
    refused = false ∧ ∀ p ∈ sent, server.closes p = false := by
  have hstate := h.state
  rw [hopen] at hstate
  cases hor : refused || sent.any server.closes with
  | true =>
    rw [hor] at hstate
    cases hstate
  | false =>
    obtain ⟨hrefused, hany⟩ := Bool.or_eq_false_iff.mp hor
    exact ⟨hrefused, fun p hp => by simpa using List.any_eq_false.mp hany p hp⟩

theorem Sent.open_or_shut (h : server.Sent s sent refused) :
    s.conn.state_ = .kConnected ∨ s.conn.state_ = .kDisConnecting := by
  rw [h.state]
  split
  · exact Or.inr rfl
  · exact Or.inl rfl

/-- The parser has refused. -/
theorem Sent.refuse {n : Nat} {conn : TcpConnection} (h : server.Sent s sent refused)
    (hopen : s.conn.state_ = .kConnected)
    (hrefuse : HttpServer.refuse false s.conn (.accepted n) = .ok conn) :
    server.Sent { s with conn := conn } sent true := by
  obtain ⟨rfl, hkept⟩ := h.of_connected hopen
  obtain ⟨c, hsend, heq⟩ := then_ok_iff.mp hrefuse
  obtain rfl := Except.ok.inj heq
  obtain ⟨hwf, hstream⟩ := TcpConnection.send_stream h.wf
    ⟨by decide +kernel, fun _ _ => Int.natCast_nonneg _⟩ hsend
  obtain ⟨hout, hshut⟩ := @TcpConnection.shutdown_stream c
  have hc : c.state_ = .kConnected := (TcpConnection.send_frame hsend).1.state.trans hopen
  have hbefore := h.stream
  rw [if_neg Bool.false_ne_true, List.append_nil] at hbefore
  refine ⟨hout ▸ hwf, h.requests, ?_, ?_, hkept⟩
  · rw [hshut, hstream, hbefore]
    rfl
  · exact TcpConnection.shutdown_connected hc

/-- A request is answered. -/
theorem Sent.deal {request : HttpRequest} {env : Surroundings} (hshort : server.Short)
    (htaken : SessionStep.Taken (.chunk [] env)) (h : server.Sent s sent refused)
    (hopen : s.conn.state_ = .kConnected) (hdeal : server.dealWithRequest request s env = .ok s') :
    server.Sent s' (sent ++ [(request, env.uninit)]) false := by
  obtain ⟨-, ⟨n, hn⟩, hint⟩ := htaken
  obtain ⟨rfl, hkept⟩ := h.of_connected hopen
  have hlen := hshort (request, env.uninit) hint
  have hnew : Buffer.new.readable = [] := Buffer.new_readable kInitialSize
  obtain ⟨buffer, happend, hdeal⟩ := then_ok_iff.mp hdeal
  obtain ⟨⟨conn, rest⟩, hsend, hdeal⟩ := then_ok_iff.mp hdeal
  obtain rfl := Except.ok.inj hdeal
  -- the Buffer holds the response
  have hmax : (server.reply (request, env.uninit)).message.length ≤ kMaxSize := by
    generalize (server.reply (request, env.uninit)).message.length = n at hlen
    unfold kMaxSize
    omega
  have hbuffer : Buffer.new.appendString (server.reply (request, env.uninit)).message
      = .ok buffer := happend
  obtain ⟨-, hread, -⟩ := Buffer.append_spec (Buffer.new_wf (by decide)) hmax hbuffer
  rw [hnew, List.nil_append, List.take_length] at hread
  -- and it goes behind what was sent
  rw [hn] at hsend
  have hsame := TcpConnection.sendBuffer_frame hsend
  obtain ⟨hwf, hstream⟩ := TcpConnection.sendBuffer_stream h.wf hopen (hread ▸ hlen) hsend
  have hbefore := h.stream
  rw [if_neg Bool.false_ne_true, List.append_nil] at hbefore
  rw [hread, hbefore] at hstream
  have hstate : conn.state_ = .kConnected := hsame.state.trans hopen
  have hany : sent.any server.closes = false :=
    List.any_eq_false.mpr fun p hp => by rw [hkept p hp]; exact Bool.false_ne_true
  have hlast : ∀ p ∈ (sent ++ [(request, env.uninit)]).dropLast, server.closes p = false := by
    rw [List.dropLast_concat]
    exact hkept
  have hsent : (sent ++ [(request, env.uninit)]).any server.closes =
      server.closes (request, env.uninit) := by
    rw [List.any_append, hany, Bool.false_or, List.any_cons, List.any_nil, Bool.or_false]
  cases hcloses : server.closes (request, env.uninit) with
  | true =>
    have hshut : (server.response_callback_ request
        (HttpResponse.new request.wantsClose env.uninit)).CloseConnection = true := hcloses
    rw [if_pos hshut]
    obtain ⟨hout, hsh⟩ := @TcpConnection.shutdown_stream conn
    refine ⟨hout ▸ hwf, ?_, ?_, ?_, hlast⟩
    · rw [List.map_append, ← h.requests]
      rfl
    · rw [hsh, hstream]
      simp
    · rw [hsent, hcloses]
      exact TcpConnection.shutdown_connected hstate
  | false =>
    have hshut : (server.response_callback_ request
        (HttpResponse.new request.wantsClose env.uninit)).CloseConnection = false := hcloses
    rw [if_neg (by rw [hshut]; exact Bool.false_ne_true)]
    refine ⟨hwf, ?_, ?_, ?_, hlast⟩
    · rw [List.map_append, ← h.requests]
      rfl
    · rw [hstream]
      simp
    · rw [hsent, hcloses]
      exact hstate

theorem refuse_content {ok : Bool} {conn conn' : TcpConnection} {w : WriteResult}
    (h : HttpServer.refuse ok conn w = .ok conn') : conn'.content_ = conn.content_ := by
  unfold HttpServer.refuse at h
  split at h
  · obtain rfl := Except.ok.inj h
    rfl
  · obtain ⟨c, hsend, h⟩ := then_ok_iff.mp h
    obtain rfl := Except.ok.inj h
    exact TcpConnection.shutdown_content.trans (TcpConnection.send_frame hsend).1.content

theorem Sent.answered {env : Surroundings} (hshort : server.Short)
    (htaken : SessionStep.Taken (.chunk [] env)) (h : server.Sent s sent refused)
    (hopen : s.conn.content_.GetCompleteRequest = true → s.conn.state_ = .kConnected)
    (hanswer : server.answer s env = .ok s') : ∃ sent' refused', server.Sent s' sent' refused' := by
  unfold answer at hanswer
  split at hanswer
  · rename_i hcomplete
    obtain ⟨t, hdeal, heq⟩ := then_ok_iff.mp hanswer
    obtain rfl := Except.ok.inj heq
    exact ⟨_, _, (h.deal hshort htaken (hopen hcomplete) hdeal).frame rfl rfl rfl rfl⟩
  · obtain rfl := Except.ok.inj hanswer
    exact ⟨_, _, h⟩

theorem stamped_output (conn : TcpConnection) (now : Nat) :
    (server.stamped conn now).outputBuffer_ = conn.outputBuffer_ ∧
      (server.stamped conn now).socket_ = conn.socket_ := by
  unfold stamped
  split <;> exact ⟨rfl, rfl⟩

/-- One call: nothing is sent, or the `400`, or a response.  After the `400` there is no
    complete request left to answer. -/
theorem Sent.callback {env : Surroundings} (hshort : server.Short)
    (htaken : SessionStep.Taken (.chunk [] env)) (h : server.Sent s sent refused)
    (hcall : server.MessageCallback s env = .ok s') :
    ∃ sent' refused', server.Sent s' sent' refused' := by
  obtain ⟨hout, hsock⟩ := @stamped_output server s.conn env.now
  have hsame := stamped_same server s.conn env.now
  simp only [MessageCallback] at hcall
  generalize server.stamped s.conn env.now = conn at hcall hout hsock hsame
  split at hcall
  · obtain rfl := Except.ok.inj hcall
    exact ⟨_, _, h.frame hout hsock hsame.state rfl⟩
  · rename_i hnot
    obtain ⟨⟨ok, c, b⟩, hparse, hcall⟩ := then_ok_iff.mp hcall
    obtain ⟨conn', hrefuse, hanswer⟩ := then_ok_iff.mp hcall
    have hopen : conn.state_ = .kConnected := by
      rcases h.open_or_shut with hc | hc
      · exact hsame.state.trans hc
      · exact absurd (by rw [TcpConnection.IsShutdown, hsame.state, hc]; rfl) hnot
    have hparsed : server.Sent
        { s with conn := { conn with content_ := c, inputBuffer_ := b } } sent refused :=
      h.frame hout hsock hsame.state rfl
    cases ok with
    | true =>
      obtain rfl := Except.ok.inj hrefuse
      exact hparsed.answered hshort htaken (fun _ => hopen) hanswer
    | false =>
      obtain ⟨n, hn⟩ := htaken.1
      rw [hn] at hrefuse
      have hnone : conn'.content_.GetCompleteRequest = false := by
        rw [(refuse_content hrefuse : conn'.content_ = c)]
        exact HttpContent.ParseContent_refuses hparse
      exact (hparsed.refuse hopen hrefuse).answered hshort htaken
        (fun htrue => absurd (hnone.symm.trans htrue) Bool.false_ne_true) hanswer

theorem Sent.session_step {i : SessionStep} (hshort : server.Short) (htaken : i.Taken)
    (h : server.Sent s sent refused) (hstep : server.session s i = .ok s') :
    ∃ sent' refused', server.Sent s' sent' refused' := by
  cases i with
  | chunk bytes env =>
    obtain ⟨b, -, hcall⟩ := then_ok_iff.mp hstep
    have hin : server.Sent { s with conn := { s.conn with inputBuffer_ := b } } sent refused :=
      h.frame rfl rfl rfl rfl
    exact hin.callback hshort htaken hcall
  | writable w =>
    obtain rfl := Except.ok.inj hstep
    exact ⟨_, _, h.writable w⟩

theorem run_sent (hshort : server.Short) {now : Nat} {steps : List SessionStep}
    (htaken : ∀ i ∈ steps, i.Taken)
    (hrun : run server.session (Serving.fresh now) steps = .ok s) :
    ∃ sent refused, server.Sent s sent refused := by
  have halong : Along server.session (fun _ i => i.Taken) (Serving.fresh now) steps :=
    along_of_mem htaken
  exact run_invariant (P := fun s => ∃ sent refused, server.Sent s sent refused)
    (fun _ _ _ ⟨_, _, h⟩ hi hs => h.session_step hshort hi hs) ⟨_, _, Sent.fresh now⟩ halong hrun

/-- **What a client gets.**  However the requests are cut into chunks and the writes fall
    short (those of the callback are not refused, and lengths fit an `int`), what the socket has accepted and what still waits are the responses to the requests
    that were answered, whole and in their order, and behind them the `400` if the parser has
    refused.  Nothing follows a response that asks to close or the `400`, and the connection is
    open as long as neither was sent. -/
theorem session_stream (hshort : server.Short) {now : Nat} {steps : List SessionStep}
    (htaken : ∀ i ∈ steps, i.Taken)
    (hrun : run server.session (Serving.fresh now) steps = .ok s) :
    ∃ (sent : List (HttpRequest × Int)) (refused : Bool), s.responses = sent.map Prod.fst ∧
      s.conn.socket_.accepted ++ s.conn.outputBuffer_.readable =
        (sent.flatMap fun p => (server.reply p).message) ++ (if refused then badRequest else []) ∧
      (∀ p ∈ if refused then sent else sent.dropLast, server.closes p = false) ∧
      (s.conn.state_ = .kConnected ↔ refused = false ∧ ∀ p ∈ sent, server.closes p = false) := by
  obtain ⟨sent, refused, h⟩ := run_sent hshort htaken hrun
  refine ⟨sent, refused, h.requests, h.stream, h.last, h.of_connected, fun hopen => ?_⟩
  obtain ⟨rfl, hkept⟩ := hopen
  have hany : sent.any server.closes = false :=
    List.any_eq_false.mpr fun p hp => by rw [hkept p hp]; exact Bool.false_ne_true
  rw [h.state, hany]
  rfl

/-- The server whose user has set no callback. -/
def defaultServer : HttpServer :=
  { auto_close_idleconnection_ := true, response_callback_ := HttpDefaultCallback }

theorem defaultServer_short : defaultServer.Short := fun _ _ =>
  (by decide +kernel :
    (HttpResponse.mk 404 (ascii "Not Found") [] (ascii "text/html") true).message.length < 2 ^ 31)

/-- A request in two chunks, of whose response ten bytes are written at once. -/
def sessionExample : List SessionStep :=
  let env := { Surroundings.calm with writeResponse := .accepted 10 }
  [.chunk (ascii "GET / HT") env, .writable (.accepted 0), .chunk (ascii "TP/1.1\r\n\r\n") env,
    .writable (.accepted 20)]

theorem sessionExample_taken : ∀ i ∈ sessionExample, i.Taken := by
  intro i hi
  simp only [sessionExample, List.mem_cons, List.not_mem_nil, or_false] at hi
  rcases hi with rfl | rfl | rfl | rfl
  · exact ⟨⟨_, rfl⟩, ⟨_, rfl⟩, by decide⟩
  · trivial
  · exact ⟨⟨_, rfl⟩, ⟨_, rfl⟩, by decide⟩
  · trivial

theorem session_stream_default :
    ∃ s, run defaultServer.session (Serving.fresh 0) sessionExample = .ok s ∧
      ∃ (sent : List (HttpRequest × Int)) (refused : Bool), s.responses = sent.map Prod.fst ∧
        s.conn.socket_.accepted ++ s.conn.outputBuffer_.readable =
          (sent.flatMap fun p => (defaultServer.reply p).message) ++
            (if refused then badRequest else []) ∧
        (∀ p ∈ if refused then sent else sent.dropLast, defaultServer.closes p = false) ∧
        (s.conn.state_ = .kConnected ↔
          refused = false ∧ ∀ p ∈ sent, defaultServer.closes p = false) := by
  have hok : (run defaultServer.session (Serving.fresh 0) sessionExample).isOk = true := by
    decide +kernel
  obtain ⟨s, hs⟩ := exists_ok hok
  exact ⟨s, hs, session_stream defaultServer_short sessionExample_taken hs⟩

end HttpServer

end LearnMuduo
