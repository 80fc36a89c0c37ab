/-
  LearnMuduo.Net.TcpConnection

  `bing::TcpConnection` (Net/TcpConnection.h, Net/TcpConnection.cc): its data, and
  the functions that write to the socket or close its sides.

  Each call of `::write` takes its outcome as an argument.  `socket_` records what
  the outside has seen: the bytes the kernel took and which sides were shut down.
-/
import LearnMuduo.Http.HttpContent
import LearnMuduo.Net.Channel

namespace LearnMuduo

open Lib

/-- `TcpConnection::State`. -/
inductive ConnState where
  | kConnecting
  | kConnected
  | kdisConnected
  | kDisConnecting
  deriving DecidableEq, Repr

structure Socket where
  accepted : Bytes
  writeShut : Bool
  readShut : Bool
  deriving DecidableEq, Repr

/-- `::write(fd, data, data.size())` with the outcome `w`. -/
def Socket.write (s : Socket) (data : Bytes) (w : WriteResult) : Socket :=
  { s with accepted := s.accepted ++ data.take (w.taken data.length) }

theorem Socket.write_accepted (s : Socket) (data : Bytes) (w : WriteResult) :
    (s.write data w).accepted = s.accepted ++ data.take (w.taken data.length) := rfl

def Socket.shutDownWrite (s : Socket) : Socket := { s with writeShut := true }

def Socket.shutDownRead (s : Socket) : Socket := { s with readShut := true }

structure TcpConnection where
  state_ : ConnState
  socket_ : Socket
  channel_ : Channel
  inputBuffer_ : Buffer
  outputBuffer_ : Buffer
  content_ : HttpContent
  timestamp_ : Nat

namespace TcpConnection

/-- The constructor, at the time `now`. -/
def new (now : Nat) : TcpConnection :=
  { state_ := .kConnecting
    socket_ := { accepted := [], writeShut := false, readShut := false }
    channel_ := Channel.new
    inputBuffer_ := Buffer.new
    outputBuffer_ := Buffer.new
    content_ := HttpContent.new
    timestamp_ := now }

/-- `connectEstablished` up to the callback. -/
def established (conn : TcpConnection) : TcpConnection :=
  { conn with state_ := .kConnected, channel_ := conn.channel_.enableReading }

def connected (conn : TcpConnection) : Bool := conn.state_ = .kConnected

def IsShutdown (conn : TcpConnection) : Bool := conn.state_ = .kDisConnecting

def updateTimeStamp (conn : TcpConnection) (now : Nat) : TcpConnection :=
  { conn with timestamp_ := now }

/-- The end of `send`: `remain` bytes from `message.c_str() + send_size` are queued. -/
def sendRest (conn : TcpConnection) (message : Bytes) (remain send_size : Int) :
    Except Fault TcpConnection :=
  if toSize remain ≤ message.length then
    if 0 < remain then
      conn.outputBuffer_.append (message.drop send_size.toNat) (toSize remain) >>= fun out =>
        .ok { conn with
          outputBuffer_ := out
          channel_ := if conn.channel_.isWriting then conn.channel_
            else conn.channel_.enableWriting }
    else .ok conn
  else .error .assertion

/-- Whether `send` calls `::write`. -/
def sendsDirectly (conn : TcpConnection) : Bool :=
  !conn.channel_.isWriting && conn.outputBuffer_.readableBytes == 0

/-- `send(const std::string&)`. -/
def send (conn : TcpConnection) (message : Bytes) (w : WriteResult) :
    Except Fault TcpConnection :=
  let remain := toInt message.length
  if conn.sendsDirectly then
    let send_size := toInt (w.value message.length)
    let conn := { conn with socket_ := conn.socket_.write message w }
    if 0 ≤ send_size then conn.sendRest message (toInt (remain - send_size)) send_size
    -- a refused write is at most logged, and nothing is queued
    else .ok conn
  else conn.sendRest message remain 0

/-- `send(Buffer*)`. -/
def sendBuffer (conn : TcpConnection) (buffer : Buffer) (w : WriteResult) :
    Except Fault (TcpConnection × Buffer) :=
  if conn.state_ = .kConnected then
    conn.send buffer.readable w >>= fun conn => .ok (conn, buffer.retrieveAll)
  else .ok (conn, buffer)

def shutdownInloop (conn : TcpConnection) : TcpConnection :=
  if conn.channel_.isWriting then conn else { conn with socket_ := conn.socket_.shutDownWrite }

/-- `shutdown()` called on the connection's loop, where `runInLoop` calls at once. -/
def shutdown (conn : TcpConnection) : TcpConnection :=
  if conn.state_ = .kConnected then { conn with state_ := .kDisConnecting }.shutdownInloop
  else conn

def shutdownRead (conn : TcpConnection) : TcpConnection :=
  if conn.state_ = .kConnected then
    { conn with state_ := .kDisConnecting, socket_ := conn.socket_.shutDownRead }
  else conn

/-- `handleWrite` with the outcome of the `::write` in `outputBuffer_.writeFd`. -/
def handleWrite (conn : TcpConnection) (w : WriteResult) : TcpConnection :=
  if conn.channel_.isWriting then
    let n := (conn.outputBuffer_.writeFd w 0).1
    let conn := { conn with socket_ := conn.socket_.write conn.outputBuffer_.readable w }
    if 0 < n then
      let conn := { conn with outputBuffer_ := conn.outputBuffer_.retrieve (toSize n) }
      if conn.outputBuffer_.readableBytes = 0 then
        let conn := { conn with channel_ := conn.channel_.disableWriting }
        if conn.state_ = .kDisConnecting then conn.shutdownInloop else conn
      else conn
    else conn
  else conn

/-! ## What closing the write side leaves alone -/

section Shutdown

variable {conn : TcpConnection}

@[simp] theorem shutdownInloop_state : conn.shutdownInloop.state_ = conn.state_ := by
  unfold shutdownInloop
  split <;> rfl

@[simp] theorem shutdownInloop_channel : conn.shutdownInloop.channel_ = conn.channel_ := by
  unfold shutdownInloop
  split <;> rfl

@[simp] theorem shutdownInloop_outputBuffer :
    conn.shutdownInloop.outputBuffer_ = conn.outputBuffer_ := by
  unfold shutdownInloop
  split <;> rfl

@[simp] theorem shutdownInloop_accepted :
    conn.shutdownInloop.socket_.accepted = conn.socket_.accepted := by
  unfold shutdownInloop
  split <;> rfl

theorem shutdown_channel : conn.shutdown.channel_ = conn.channel_ := by
  unfold shutdown
  split
  · exact shutdownInloop_channel
  · rfl

theorem shutdown_inputBuffer : conn.shutdown.inputBuffer_ = conn.inputBuffer_ := by
  unfold shutdown shutdownInloop
  split
  · split <;> rfl
  · rfl

theorem shutdown_content : conn.shutdown.content_ = conn.content_ := by
  unfold shutdown shutdownInloop
  split
  · split <;> rfl
  · rfl

theorem shutdown_state :
    conn.shutdown.state_ = conn.state_ ∨
      conn.state_ = .kConnected ∧ conn.shutdown.state_ = .kDisConnecting := by
  unfold shutdown
  split
  · rename_i h
    exact Or.inr ⟨h, shutdownInloop_state⟩
  · exact Or.inl rfl

end Shutdown

/-! ## What writing does to the state and the channel -/

section Frame

variable {conn conn' : TcpConnection} {message : Bytes} {w : WriteResult}

/-- The state, the input Buffer and the parser are those of before. -/
structure SameInput (conn conn' : TcpConnection) : Prop where
  state : conn'.state_ = conn.state_
  inputBuffer : conn'.inputBuffer_ = conn.inputBuffer_
  content : conn'.content_ = conn.content_

theorem sendRest_frame {remain send_size : Int}
    (h : conn.sendRest message remain send_size = .ok conn') :
    SameInput conn conn' ∧ (conn'.channel_ = conn.channel_ ∨
      0 < remain ∧ conn'.channel_ = conn.channel_.enableWriting) := by
  unfold sendRest at h
  split at h
  · split at h
    · rename_i hpos
      obtain ⟨out, -, hconn⟩ := then_ok_iff.mp h
      obtain rfl := Except.ok.inj hconn
      refine ⟨⟨rfl, rfl, rfl⟩, ?_⟩
      simp only
      split
      · exact Or.inl rfl
      · exact Or.inr ⟨hpos, rfl⟩
    · obtain rfl := Except.ok.inj h
      exact ⟨⟨rfl, rfl, rfl⟩, Or.inl rfl⟩
  · simp at h

theorem send_eq : conn.send message w =
    if conn.sendsDirectly then
      if 0 ≤ toInt (w.value message.length) then
        { conn with socket_ := conn.socket_.write message w }.sendRest message
          (toInt (toInt message.length - toInt (w.value message.length)))
          (toInt (w.value message.length))
      else .ok { conn with socket_ := conn.socket_.write message w }
    else conn.sendRest message (toInt message.length) 0 := rfl

theorem send_frame (h : conn.send message w = .ok conn') :
    SameInput conn conn' ∧
      (conn'.channel_ = conn.channel_ ∨ conn'.channel_ = conn.channel_.enableWriting) := by
  rw [send_eq] at h
  split at h
  · split at h
    · obtain ⟨hsame, hch⟩ := sendRest_frame h
      exact ⟨⟨hsame.state, hsame.inputBuffer, hsame.content⟩, hch.imp_right And.right⟩
    · obtain rfl := Except.ok.inj h
      exact ⟨⟨rfl, rfl, rfl⟩, Or.inl rfl⟩
  · obtain ⟨hsame, hch⟩ := sendRest_frame h
    exact ⟨hsame, hch.imp_right And.right⟩

theorem sendBuffer_frame {buffer rest : Buffer}
    (h : conn.sendBuffer buffer w = .ok (conn', rest)) : SameInput conn conn' := by
  unfold sendBuffer at h
  split at h
  · obtain ⟨c, hc, heq⟩ := then_ok_iff.mp h
    obtain ⟨rfl, -⟩ := Prod.mk.inj (Except.ok.inj heq)
    exact (send_frame hc).1
  · obtain ⟨rfl, -⟩ := Prod.mk.inj (Except.ok.inj h)
    exact ⟨rfl, rfl, rfl⟩

/-- Nothing is left of the message for `outputBuffer_`. -/
def LeavesNothing (conn : TcpConnection) (message : Bytes) (w : WriteResult) : Prop :=
  message = [] ∨ conn.sendsDirectly = true ∧
    (w.value message.length < 0 ∨ w.value message.length = message.length)

/-- A send that leaves nothing to queue does not touch the channel. -/
theorem send_leavesNothing (hnone : conn.LeavesNothing message w)
    (h : conn.send message w = .ok conn') : conn'.channel_ = conn.channel_ := by
  have hz : toInt 0 = 0 := toInt_of_lt (n := 0) (by decide)
  have hrest : ∀ {c : TcpConnection} {k : Int}, c.sendRest message 0 k = .ok conn' →
      conn'.channel_ = c.channel_ := fun hc =>
    (sendRest_frame hc).2.resolve_right fun hpos => absurd hpos.1 (Int.lt_irrefl 0)
  rw [send_eq] at h
  rcases hnone with rfl | ⟨hdirect, hval⟩
  · rw [List.length_nil, Int.ofNat_zero, hz] at h
    split at h
    · cases w with
      | error e =>
        rw [WriteResult.value, toInt_neg_one, if_neg (by decide)] at h
        obtain rfl := Except.ok.inj h
        rfl
      | accepted n =>
        rw [WriteResult.value, Nat.min_zero, Int.ofNat_zero, hz, if_pos (Int.le_refl 0),
          Int.sub_zero, hz] at h
        have := hrest h
        exact this
    · exact hrest h
  · rw [if_pos hdirect] at h
    cases w with
    | error e =>
      rw [WriteResult.value, toInt_neg_one, if_neg (by decide)] at h
      obtain rfl := Except.ok.inj h
      rfl
    | accepted n =>
      have hall : WriteResult.value message.length (.accepted n) = message.length :=
        hval.resolve_left (Int.not_lt.mpr (Int.natCast_nonneg _))
      rw [hall, Int.sub_self, hz] at h
      split at h
      · have := hrest h
        exact this
      · obtain rfl := Except.ok.inj h
        rfl

theorem handleWrite_frame :
    (conn.handleWrite w).state_ = conn.state_ ∧
      ((conn.handleWrite w).channel_ = conn.channel_ ∨
        (conn.handleWrite w).channel_ = conn.channel_.disableWriting) := by
  simp only [handleWrite]
  split
  · split
    · split
      · split
        · exact ⟨shutdownInloop_state, Or.inr shutdownInloop_channel⟩
        · exact ⟨rfl, Or.inr rfl⟩
      · exact ⟨rfl, Or.inl rfl⟩
    · exact ⟨rfl, Or.inl rfl⟩
  · exact ⟨rfl, Or.inl rfl⟩

theorem shutdownInloop_same : SameInput conn conn.shutdownInloop := by
  unfold shutdownInloop
  split <;> exact ⟨rfl, rfl, rfl⟩

theorem handleWrite_same : SameInput conn (conn.handleWrite w) := by
  simp only [handleWrite]
  split
  · split
    · split
      · split
        · obtain ⟨hstate, hin, hcontent⟩ := @shutdownInloop_same
            { conn with
              socket_ := conn.socket_.write conn.outputBuffer_.readable w
              outputBuffer_ :=
                conn.outputBuffer_.retrieve (toSize (conn.outputBuffer_.writeFd w 0).1)
              channel_ := conn.channel_.disableWriting }
          exact ⟨hstate, hin, hcontent⟩
        · exact ⟨rfl, rfl, rfl⟩
      · exact ⟨rfl, rfl, rfl⟩
    · exact ⟨rfl, rfl, rfl⟩
  · exact ⟨rfl, rfl, rfl⟩

theorem handleWrite_idle (h : conn.channel_.isWriting = false) : conn.handleWrite w = conn := by
  rw [handleWrite, h, if_neg Bool.false_ne_true]

/-! ## What leaves the time stamp alone -/

theorem shutdownInloop_timestamp : conn.shutdownInloop.timestamp_ = conn.timestamp_ := by
  unfold shutdownInloop
  split <;> rfl

theorem shutdown_timestamp : conn.shutdown.timestamp_ = conn.timestamp_ := by
  unfold shutdown
  split
  · exact shutdownInloop_timestamp
  · rfl

theorem sendRest_timestamp {remain send_size : Int}
    (h : conn.sendRest message remain send_size = .ok conn') :
    conn'.timestamp_ = conn.timestamp_ := by
  unfold sendRest at h
  split at h
  · split at h
    · obtain ⟨out, -, hconn⟩ := then_ok_iff.mp h
      obtain rfl := Except.ok.inj hconn
      rfl
    · obtain rfl := Except.ok.inj h
      rfl
  · cases h

theorem send_timestamp (h : conn.send message w = .ok conn') :
    conn'.timestamp_ = conn.timestamp_ := by
  rw [send_eq] at h
  split at h
  · split at h
    · have hsame := sendRest_timestamp h
      exact hsame
    · obtain rfl := Except.ok.inj h
      rfl
  · exact sendRest_timestamp h

theorem handleWrite_timestamp : (conn.handleWrite w).timestamp_ = conn.timestamp_ := by
  simp only [handleWrite]
  split
  · split
    · split
      · split
        · exact shutdownInloop_timestamp
        · rfl
      · rfl
    · rfl
  · rfl

end Frame

end TcpConnection

end LearnMuduo
