/-
  LearnMuduo.Net.SendOverloads

  The two overloads of `send`.

  `send(Buffer*)` looks at `state_` and calls `send(const std::string&)`, which does not.
  `SendEffect` is what the two may do to the outside: the calls of `::write`, the socket,
  `outputBuffer_` and the channel.  On a connection that is not connected the one with the
  Buffer does nothing; the other one writes when nothing is pending, and otherwise queues
  the message and asks for write interest, unless the length is 0 as an `int`.
-/
import LearnMuduo.Net.ConnEvents
import LearnMuduo.Net.HalfClose

namespace LearnMuduo

open Lib

structure SendEffect where
  /-- The calls of `::write`. -/
  writes : List Bytes
  socket_ : Socket
  outputBuffer_ : Buffer
  channel_ : Channel
  deriving DecidableEq, Repr

namespace TcpConnection

def effect (conn : TcpConnection) (writes : List Bytes) : SendEffect :=
  { writes := writes
    socket_ := conn.socket_
    outputBuffer_ := conn.outputBuffer_
    channel_ := conn.channel_ }

/-- `send(const std::string&)`. -/
def sendEffect (conn : TcpConnection) (message : Bytes) (w : WriteResult) :
    Except Fault SendEffect :=
  conn.send message w >>= fun after =>
    .ok (after.effect (if conn.sendsDirectly then [message] else []))

/-- `send(Buffer*)`. -/
def sendBufferEffect (conn : TcpConnection) (buffer : Buffer) (w : WriteResult) :
    Except Fault SendEffect :=
  conn.sendBuffer buffer w >>= fun p =>
    .ok (p.1.effect (if conn.connected && conn.sendsDirectly then [buffer.readable] else []))

/-- The two overloads do the same, which is nothing unless the connection is connected. -/
def OverloadsAgree (conn : TcpConnection) (buffer : Buffer) (w : WriteResult) : Prop :=
  conn.sendEffect buffer.readable w = conn.sendBufferEffect buffer w ∧
  (conn.state_ ≠ .kConnected →
    conn.sendEffect buffer.readable w = .ok (conn.effect []) ∧
    conn.sendBufferEffect buffer w = .ok (conn.effect []))

/-- Reached from the constructor by calls on the connection.  `closing` stands for
    `handleClose` and the branch of `connectDestoryed`, `removed` for its end; `input` for
    what reading and the user do to the rest of the data. -/
inductive Reached : TcpConnection → Prop where
  | new (now : Nat) : Reached (TcpConnection.new now)
  | established {conn : TcpConnection} : Reached conn → Reached conn.established
  | send {conn conn' : TcpConnection} {message : Bytes} {w : WriteResult} : Reached conn →
      conn.send message w = .ok conn' → Reached conn'
  | sendBuffer {conn conn' : TcpConnection} {buffer rest : Buffer} {w : WriteResult} :
      Reached conn → conn.sendBuffer buffer w = .ok (conn', rest) → Reached conn'
  | handleWrite {conn : TcpConnection} (w : WriteResult) : Reached conn →
      Reached (conn.handleWrite w)
  | shutdown {conn : TcpConnection} : Reached conn → Reached conn.shutdown
  | shutdownElsewhere {conn : TcpConnection} : Reached conn → Reached conn.shutdownElsewhere.1
  | shutdownInloop {conn : TcpConnection} : Reached conn → Reached conn.shutdownInloop
  | shutdownRead {conn : TcpConnection} : Reached conn → Reached conn.shutdownRead
  | closing {conn : TcpConnection} : Reached conn → Reached (ConnLoop.closing conn)
  | removed {conn : TcpConnection} : Reached conn →
      Reached { conn with channel_ := conn.channel_.remove }
  | input {conn : TcpConnection} (b : Buffer) (c : HttpContent) (now : Nat) : Reached conn →
      Reached { conn with inputBuffer_ := b, content_ := c, timestamp_ := now }

/-! ## The output Buffer is well-formed -/

section WellFormed

variable {conn conn' : TcpConnection} {w : WriteResult}

theorem send_wf {message : Bytes} (hwf : conn.outputBuffer_.WF)
    (h : conn.send message w = .ok conn') : conn'.outputBuffer_.WF := by
  have hrest : ∀ {c : TcpConnection} {i k : Int}, c.outputBuffer_.WF →
      c.sendRest message (toInt i) k = .ok conn' → conn'.outputBuffer_.WF := by
    intro c i k hc hs
    rcases sendRest_cases hc hs with ⟨-, rfl⟩ | ⟨-, hwf', -⟩
    · exact hc
    · exact hwf'
  rw [send_eq] at h
  split at h
  · split at h
    · exact hrest (by exact hwf) h
    · obtain rfl := Except.ok.inj h
      exact hwf
  · exact hrest hwf h

theorem handleWrite_wf (hwf : conn.outputBuffer_.WF) : (conn.handleWrite w).outputBuffer_.WF := by
  have hretrieve := fun len => (Buffer.retrieve_spec hwf len).1
  simp only [handleWrite]
  split
  · split
    · split
      · split
        · rw [shutdownInloop_outputBuffer]
          exact hretrieve _
        · exact hretrieve _
      · exact hretrieve _
    · exact hwf
  · exact hwf

theorem Reached.wf (h : conn.Reached) : conn.outputBuffer_.WF := by
  induction h with
  | new now => exact Buffer.new_wf (by decide)
  | send _ hsend ih => exact send_wf ih hsend
  | sendBuffer _ hsend ih =>
    unfold TcpConnection.sendBuffer at hsend
    split at hsend
    · obtain ⟨c, hc, heq⟩ := then_ok_iff.mp hsend
      obtain ⟨rfl, -⟩ := Prod.mk.inj (Except.ok.inj heq)
      exact send_wf ih hc
    · obtain ⟨rfl, -⟩ := Prod.mk.inj (Except.ok.inj hsend)
      exact ih
  | handleWrite w _ ih => exact handleWrite_wf ih
  | shutdown _ ih =>
    unfold TcpConnection.shutdown
    split
    · rw [shutdownInloop_outputBuffer]
      exact ih
    · exact ih
  | shutdownElsewhere _ ih =>
    unfold TcpConnection.shutdownElsewhere
    split <;> exact ih
  | shutdownInloop _ ih =>
    rw [shutdownInloop_outputBuffer]
    exact ih
  | shutdownRead _ ih =>
    unfold TcpConnection.shutdownRead
    split <;> exact ih
  | established _ ih => exact ih
  | closing _ ih => exact ih
  | removed _ ih => exact ih
  | input b c now _ ih => exact ih

end WellFormed

/-! ## One call -/

section Call

variable {conn : TcpConnection} {w : WriteResult}

theorem sendBufferEffect_connected {buffer : Buffer} (h : conn.state_ = .kConnected) :
    conn.sendBufferEffect buffer w = conn.sendEffect buffer.readable w := by
  have hconn : conn.connected = true := decide_eq_true h
  simp only [sendBufferEffect, sendEffect, sendBuffer, if_pos h, hconn, Bool.true_and]
  cases conn.send buffer.readable w with
  | error e => rfl
  | ok after => rfl

theorem sendBufferEffect_unconnected {buffer : Buffer} (h : conn.state_ ≠ .kConnected) :
    conn.sendBufferEffect buffer w = .ok (conn.effect []) := by
  have hconn : conn.connected = false := decide_eq_false h
  simp only [sendBufferEffect, sendBuffer, if_neg h, hconn, Bool.false_and, ok_then,
    Bool.false_eq_true, if_false]

/-- A negative `int` is a huge `size_t`: the assertion does not let it pass. -/
theorem sendRest_nonneg {message : Bytes} {i k : Int} {after : TcpConnection}
    (hlen : message.length < 2 ^ 63) (h : conn.sendRest message (toInt i) k = .ok after) :
    0 ≤ toInt i := by
  have hge : -(2 ^ 31) ≤ toInt i := by
    unfold toInt
    have := @Int.le_bmod i (2 ^ 32) (by decide)
    omega
  unfold sendRest at h
  split at h
  · rename_i hassert
    unfold toSize at hassert
    omega
  · cases h

theorem sendRest_zero (message : Bytes) (k : Int) : conn.sendRest message 0 k = .ok conn := by
  have hzero : toSize 0 = 0 := toSize_ofNat (n := 0) (by decide)
  rw [sendRest, hzero, if_pos (Nat.zero_le _), if_neg (Int.lt_irrefl 0)]

/-- A call of `send(const std::string&)` does nothing iff bytes are pending or awaited and
    the length is 0 as an `int`. -/
theorem sendEffect_none_iff {message : Bytes} (hwf : conn.outputBuffer_.WF)
    (hlen : message.length < 2 ^ 63) :
    conn.sendEffect message w = .ok (conn.effect []) ↔
      conn.sendsDirectly = false ∧ toInt message.length = 0 := by
  constructor
  · intro h
    obtain ⟨after, hsend, heff⟩ := then_ok_iff.mp h
    have heff := Except.ok.inj heff
    cases hdirect : conn.sendsDirectly with
    | true =>
      rw [hdirect, if_pos rfl] at heff
      exact absurd (congrArg SendEffect.writes heff) (List.cons_ne_nil _ _)
    | false =>
      refine ⟨rfl, ?_⟩
      rw [send_eq, hdirect, if_neg Bool.false_ne_true] at hsend
      have hnonneg := sendRest_nonneg hlen hsend
      rcases sendRest_cases hwf hsend with ⟨hnonpos, -⟩ | ⟨-, -, hlonger, -⟩
      · omega
      · -- the queued bytes show in `outputBuffer_`
        have hout : after.outputBuffer_ = conn.outputBuffer_ :=
          congrArg SendEffect.outputBuffer_ heff
        rw [hout] at hlonger
        exact absurd hlonger (Nat.lt_irrefl _)
  · rintro ⟨hdirect, hzero⟩
    simp only [sendEffect, send_eq, hdirect, hzero, Bool.false_eq_true, if_false, sendRest_zero,
      ok_then]

end Call

/-- The overloads agree exactly on a connected connection, and when something is pending
    or awaited and the length of the message is 0 as an `int`. -/
theorem overloads_agree_iff {conn : TcpConnection} (hconn : conn.Reached) {buffer : Buffer}
    (hbuffer : buffer.WF) (w : WriteResult) :
    conn.OverloadsAgree buffer w ↔
      conn.state_ = .kConnected ∨
        (conn.sendsDirectly = false ∧ toInt buffer.readable.length = 0) := by
  have hlen : buffer.readable.length < 2 ^ 63 := by
    have hsize := hbuffer.size_lt
    have hwrite := hbuffer.write
    rw [hbuffer.readable_length, hbuffer.readableBytes_eq]
    omega
  by_cases hstate : conn.state_ = .kConnected
  · have hagree : conn.OverloadsAgree buffer w :=
      ⟨(sendBufferEffect_connected hstate).symm, fun hne => absurd hstate hne⟩
    exact iff_of_true hagree (Or.inl hstate)
  · have hbuf : conn.sendBufferEffect buffer w = .ok (conn.effect []) :=
      sendBufferEffect_unconnected hstate
    have hnone := sendEffect_none_iff (w := w) hconn.wf hlen
    constructor
    · intro hagree
      exact Or.inr (hnone.mp (hagree.2 hstate).1)
    · intro hor
      have hsend := hnone.mpr (hor.resolve_left hstate)
      exact ⟨hsend.trans hbuf.symm, fun _ => ⟨hsend, hbuf⟩⟩

/-- One byte in a Buffer. -/
def oneByte : Buffer := ⟨List.replicate 8 0 ++ [3], 8, 9⟩

/-- A connection just established. -/
theorem overloads_agree_iff_example :
    (TcpConnection.new 0).established.OverloadsAgree oneByte (.accepted 1) :=
  (overloads_agree_iff (.established (.new 0)) (by decide +kernel) (.accepted 1)).mpr (Or.inl rfl)

/-- One of two bytes is accepted before the peer closes the connection. -/
def peerClosed : TcpConnection :=
  ConnLoop.closing
    (((TcpConnection.new 0).established.send [1, 2] (.accepted 1)).toOption.getD (.new 0))

theorem peerClosed_reached : peerClosed.Reached := by
  obtain ⟨conn, hsend⟩ : ∃ conn, (TcpConnection.new 0).established.send [1, 2] (.accepted 1)
      = .ok conn := exists_ok (by decide +kernel)
  rw [peerClosed, hsend]
  exact .closing (.send (.established (.new 0)) hsend)

/-- A string sent behind `handleClose` is queued, and the channel that `disableAll` has
    taken out of epoll is in it again. -/
theorem closed_channel_returns :
    peerClosed.Reached ∧ oneByte.WF ∧ peerClosed.state_ = .kdisConnected ∧
    peerClosed.channel_.interest = none ∧
    (peerClosed.sendEffect oneByte.readable (.accepted 1)).map
      (fun e => (e.outputBuffer_.readable, e.channel_.interest)) = .ok ([2, 3], some kWriteEvent) ∧
    ¬peerClosed.OverloadsAgree oneByte (.accepted 1) := by
  have hqueued : (peerClosed.sendEffect oneByte.readable (.accepted 1)).map
      (fun e => (e.outputBuffer_.readable, e.channel_.interest))
        = .ok ([2, 3], some kWriteEvent) := by decide +kernel
  refine ⟨peerClosed_reached, by decide +kernel, rfl, by decide +kernel, hqueued, ?_⟩
  intro hagree
  have hdead : peerClosed.state_ ≠ .kConnected := by decide
  rw [(hagree.2 hdead).1] at hqueued
  exact absurd hqueued (by decide +kernel)

end TcpConnection

end LearnMuduo
