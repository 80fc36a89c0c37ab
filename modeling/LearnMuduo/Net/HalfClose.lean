/-
  LearnMuduo.Net.HalfClose

  The write side is shut down after the pending output, and it is shut down.

  `shutdown` only sets `kDisConnecting`; `shutDownWrite` is executed by
  `shutdownInloop`, called at once, from the queue of the connection's loop, or by
  `handleWrite` behind the last pending byte, and each time under the same test of
  the write interest.  `HalfClose` is a connection with its queued functors and a
  record of the executions.
-/
import LearnMuduo.Net.WriteInterest

namespace LearnMuduo

open Lib

/-- `shutdown()` called on another loop, where `runInLoop` queues the functor: whether
    it did is the second component. -/
def TcpConnection.shutdownElsewhere (conn : TcpConnection) : TcpConnection × Bool :=
  if conn.state_ = .kConnected then ({ conn with state_ := .kDisConnecting }, true)
  else (conn, false)

/-- A step of a run: a call on the connection's loop, `shutdown()` on another one, or
    the loop running a queued `shutdownInloop`. -/
inductive HalfCloseStep where
  | send (message : Bytes) (w : WriteResult)
  | sendBuffer (buffer : Buffer) (w : WriteResult)
  | handleWrite (w : WriteResult)
  | shutdown
  | shutdownElsewhere
  | functor
  deriving DecidableEq, Repr

structure HalfClose where
  conn : TcpConnection
  /-- How many `shutdownInloop` functors are queued. -/
  functors : Nat
  /-- What `outputBuffer_` held, for each execution of `shutDownWrite`. -/
  shutDowns : List Bytes

namespace HalfClose

/-- The connection with the mark of `shutDownWrite` taken off; no code reads it. -/
def unmarked (conn : TcpConnection) : TcpConnection :=
  { conn with socket_ := { conn.socket_ with writeShut := false } }

/-- A call on the connection's loop, with a record of an execution of `shutDownWrite`:
    it is the last thing a call does. -/
def perform (s : HalfClose) (call : WriteCall) : Except Fault HalfClose :=
  call.step (unmarked s.conn) >>= fun conn =>
    .ok { s with
      conn := conn
      shutDowns := if conn.socket_.writeShut then s.shutDowns ++ [conn.outputBuffer_.readable]
        else s.shutDowns }

def step (s : HalfClose) : HalfCloseStep → Except Fault HalfClose
  | .send message w => s.perform (.send message w)
  | .sendBuffer buffer w => s.perform (.sendBuffer buffer w)
  | .handleWrite w => s.perform (.handleWrite w)
  | .shutdown => s.perform .shutdown
  | .shutdownElsewhere =>
    .ok { s with
      conn := s.conn.shutdownElsewhere.1
      functors := if s.conn.shutdownElsewhere.2 then s.functors + 1 else s.functors }
  | .functor =>
    match s.functors with
    | 0 => .ok s
    | n + 1 => { s with functors := n }.perform .shutdownInloop

/-- A connection just established. -/
def fresh (now : Nat) : HalfClose :=
  { conn := (TcpConnection.new now).established, functors := 0, shutDowns := [] }

/-- What is left to be done before the write side is closed, or that it was. -/
structure Closing (s : HalfClose) : Prop where
  interest : s.conn.Interest
  drained : ∀ pending ∈ s.shutDowns, pending = []
  awaited : s.conn.state_ = .kDisConnecting →
    (s.conn.outputBuffer_.readable ≠ [] ∧ s.conn.channel_.isWriting = true) ∨
      0 < s.functors ∨ s.shutDowns ≠ []

end HalfClose

namespace TcpConnection

section Mark

variable {conn conn' : TcpConnection} {w : WriteResult}

theorem sendRest_writeShut {message : Bytes} {remain send_size : Int}
    (h : conn.sendRest message remain send_size = .ok conn') :
    conn'.socket_.writeShut = conn.socket_.writeShut := by
  unfold sendRest at h
  split at h
  · split at h
    · obtain ⟨out, -, hconn⟩ := then_ok_iff.mp h
      obtain rfl := Except.ok.inj hconn
      rfl
    · obtain rfl := Except.ok.inj h
      rfl
  · simp at h

theorem send_writeShut {message : Bytes} (h : conn.send message w = .ok conn') :
    conn'.socket_.writeShut = conn.socket_.writeShut := by
  rw [send_eq] at h
  split at h
  · split at h
    · have hrest := sendRest_writeShut h
      exact hrest
    · obtain rfl := Except.ok.inj h
      rfl
  · exact sendRest_writeShut h

theorem shutdownInloop_writeShut (h : conn.socket_.writeShut = false) :
    conn.shutdownInloop.socket_.writeShut = !conn.channel_.isWriting := by
  unfold shutdownInloop
  split
  · rename_i hwriting
    rw [h, hwriting]
    rfl
  · rename_i hidle
    rw [Bool.not_eq_true] at hidle
    rw [hidle]
    rfl

/-- Output that is pending stays pending, or `handleWrite` writes the last of it; then
    it closes the write side of a connection that is to be closed. -/
theorem handleWrite_drains (hmark : conn.socket_.writeShut = false)
    (hstate : conn.state_ = .kDisConnecting) (hwriting : conn.channel_.isWriting = true) :
    (conn.handleWrite w).channel_.isWriting = true ∨
      (conn.handleWrite w).socket_.writeShut = true := by
  simp only [handleWrite, hwriting, if_true, hstate]
  split
  · split
    · -- the queue is drained and write interest just switched off: this is the execution
      refine Or.inr ((shutdownInloop_writeShut ?_).trans ?_)
      · exact hmark
      show (!conn.channel_.disableWriting.isWriting) = true
      rw [Channel.disableWriting_isWriting]
      rfl
    · exact Or.inl hwriting
  · exact Or.inl hwriting

/-- `handleWrite` closes the write side only behind the last pending byte. -/
theorem handleWrite_marked (hmark : conn.socket_.writeShut = false)
    (h : (conn.handleWrite w).socket_.writeShut = true) :
    (conn.handleWrite w).channel_.isWriting = false := by
  have hsock : (conn.socket_.write conn.outputBuffer_.readable w).writeShut = false := hmark
  simp only [handleWrite] at h ⊢
  split
  · rename_i hwriting
    rw [if_pos hwriting] at h
    split
    · rename_i hn
      rw [if_pos hn] at h
      split
      · rename_i hzero
        rw [if_pos hzero] at h
        split
        · rw [shutdownInloop_channel]
          exact Channel.disableWriting_isWriting
        · exact Channel.disableWriting_isWriting
      · rename_i hzero
        rw [if_neg hzero] at h
        exact absurd h (by simp [hsock])
    · rename_i hn
      rw [if_neg hn] at h
      exact absurd h (by simp [hsock])
  · rename_i hidle
    rw [if_neg hidle, hmark] at h
    exact absurd h (by decide)

end Mark

end TcpConnection

namespace HalfClose

section Step

variable {s s' : HalfClose}

theorem unmarked_interest (h : s.conn.Interest) : (unmarked s.conn).Interest := h.of_eq rfl rfl

/-- A call that leaves the connection in a state where write interest is off whenever
    `shutDownWrite` was executed, and that does not lose what a closing waits for. -/
theorem perform_closing (hi : s.conn.Interest) (hd : ∀ pending ∈ s.shutDowns, pending = [])
    {call : WriteCall} (hs : s.perform call = .ok s')
    (hmarked : ∀ conn, call.step (unmarked s.conn) = .ok conn → conn.socket_.writeShut = true →
      conn.channel_.isWriting = false)
    (hkept : ∀ conn, call.step (unmarked s.conn) = .ok conn → conn.state_ = .kDisConnecting →
      conn.channel_.isWriting = true ∨ conn.socket_.writeShut = true ∨
        0 < s.functors ∨ s.shutDowns ≠ []) : s'.Closing := by
  obtain ⟨conn, hconn, heq⟩ := then_ok_iff.mp hs
  obtain rfl := Except.ok.inj heq
  have hint := WriteCall.step_interest (unmarked_interest hi) hconn
  refine ⟨hint, ?_, fun hstate => ?_⟩
  · intro pending hp
    simp only at hp
    split at hp
    · rename_i hmark
      rcases List.mem_append.mp hp with hp | hp
      · exact hd pending hp
      · -- the new record: with bytes pending, write interest would be on
        obtain rfl := List.mem_singleton.mp hp
        by_contra hne
        have hwriting := hint.writing.mpr hne
        rw [hmarked conn hconn hmark] at hwriting
        exact Bool.false_ne_true hwriting
    · exact hd pending hp
  · rcases hkept conn hconn hstate with hwriting | hmark | hq | hshut
    · exact Or.inl ⟨hint.writing.mp hwriting, hwriting⟩
    · refine Or.inr (Or.inr ?_)
      simp only [hmark, if_true]
      simp
    · exact Or.inr (Or.inl hq)
    · refine Or.inr (Or.inr ?_)
      simp only
      split
      · simp
      · exact hshut

/-- What is awaited before a call, in terms of the write interest alone. -/
theorem Closing.awaits (h : s.Closing) (hstate : s.conn.state_ = .kDisConnecting) :
    s.conn.channel_.isWriting = true ∨ 0 < s.functors ∨ s.shutDowns ≠ [] :=
  (h.awaited hstate).imp_left And.right

/-- A send keeps write interest on, and never executes `shutDownWrite`. -/
theorem Closing.sent (h : s.Closing) {call : WriteCall}
    (hsame : ∀ conn, call.step (unmarked s.conn) = .ok conn →
      conn.socket_.writeShut = false ∧ conn.state_ = s.conn.state_ ∧
        (conn.channel_ = s.conn.channel_ ∨ conn.channel_ = s.conn.channel_.enableWriting))
    (hs : s.perform call = .ok s') : s'.Closing := by
  apply perform_closing h.interest h.drained hs
  · intro conn hconn hmark
    rw [(hsame conn hconn).1] at hmark
    exact absurd hmark (by decide)
  · intro conn hconn hstate
    obtain ⟨-, hst, hch⟩ := hsame conn hconn
    rw [hst] at hstate
    rcases h.awaits hstate with hwriting | hrest
    · apply Or.inl
      rcases hch with hch | hch <;> rw [hch]
      · exact hwriting
      · exact Channel.enableWriting_isWriting
    · exact Or.inr (Or.inr hrest)

theorem send_same {conn conn' : TcpConnection} {message : Bytes} {w : WriteResult}
    (h : (unmarked conn).send message w = .ok conn') :
    conn'.socket_.writeShut = false ∧ conn'.state_ = conn.state_ ∧
      (conn'.channel_ = conn.channel_ ∨ conn'.channel_ = conn.channel_.enableWriting) := by
  obtain ⟨hsame, hch⟩ := TcpConnection.send_frame h
  exact ⟨TcpConnection.send_writeShut h, hsame.state, hch⟩

theorem Closing.send (h : s.Closing) {message : Bytes} {w : WriteResult}
    (hs : s.perform (.send message w) = .ok s') : s'.Closing := by
  apply h.sent _ hs
  intro conn hconn
  exact send_same hconn

theorem Closing.sendBuffer (h : s.Closing) {buffer : Buffer} {w : WriteResult}
    (hs : s.perform (.sendBuffer buffer w) = .ok s') : s'.Closing := by
  apply h.sent _ hs
  intro conn hconn
  obtain ⟨⟨c, rest⟩, hc, heq⟩ := then_ok_iff.mp hconn
  obtain rfl := Except.ok.inj heq
  unfold TcpConnection.sendBuffer at hc
  split at hc
  · obtain ⟨c', hc', heq⟩ := then_ok_iff.mp hc
    obtain ⟨rfl, -⟩ := Prod.mk.inj (Except.ok.inj heq)
    exact send_same hc'
  · obtain ⟨rfl, -⟩ := Prod.mk.inj (Except.ok.inj hc)
    exact ⟨rfl, rfl, Or.inl rfl⟩

theorem Closing.handleWrite (h : s.Closing) {w : WriteResult}
    (hs : s.perform (.handleWrite w) = .ok s') : s'.Closing := by
  apply perform_closing h.interest h.drained hs
  · intro conn hconn hmark
    obtain rfl := Except.ok.inj hconn
    exact TcpConnection.handleWrite_marked rfl hmark
  · intro conn hconn hstate
    obtain rfl := Except.ok.inj hconn
    rw [TcpConnection.handleWrite_frame.1] at hstate
    rcases h.awaits hstate with hwriting | hrest
    · have hdrain := @TcpConnection.handleWrite_drains (unmarked s.conn) w rfl hstate hwriting
      exact hdrain.imp_right Or.inl
    · exact Or.inr (Or.inr hrest)

/-- `shutdownInloop` on a connection that is to be closed: either output is pending, or
    the write side is closed now. -/
theorem perform_closes (hi : s.conn.Interest) (hd : ∀ pending ∈ s.shutDowns, pending = [])
    {call : WriteCall} {base : TcpConnection}
    (hmark : base.socket_.writeShut = false)
    (hcall : call.step (unmarked s.conn) = .ok base.shutdownInloop)
    (hs : s.perform call = .ok s') : s'.Closing := by
  have hshut := TcpConnection.shutdownInloop_writeShut hmark
  apply perform_closing hi hd hs
  · intro conn hconn hclosed
    obtain rfl := Except.ok.inj (hcall.symm.trans hconn)
    rw [hshut, Bool.not_eq_true'] at hclosed
    rw [TcpConnection.shutdownInloop_channel]
    exact hclosed
  · intro conn hconn _
    obtain rfl := Except.ok.inj (hcall.symm.trans hconn)
    rw [TcpConnection.shutdownInloop_channel, hshut]
    cases base.channel_.isWriting with
    | true => exact Or.inl rfl
    | false => exact Or.inr (Or.inl rfl)

theorem Closing.shutdown (h : s.Closing) (hs : s.perform .shutdown = .ok s') : s'.Closing := by
  by_cases hstate : s.conn.state_ = .kConnected
  · apply @perform_closes s s' h.interest h.drained _
      { unmarked s.conn with state_ := .kDisConnecting } rfl _ hs
    -- the state is set before `shutdownInloop` runs
    have hst : (unmarked s.conn).state_ = .kConnected := hstate
    rw [WriteCall.step, TcpConnection.shutdown, if_pos hst]
  · -- a connection that is not connected is left alone
    apply h.sent _ hs
    intro conn hconn
    obtain rfl := Except.ok.inj hconn
    have hst : (unmarked s.conn).shutdown = unmarked s.conn := if_neg hstate
    rw [hst]
    exact ⟨rfl, rfl, Or.inl rfl⟩

theorem step_closing {i : HalfCloseStep} (h : s.Closing) (hs : s.step i = .ok s') :
    s'.Closing := by
  cases i with
  | send message w => exact h.send hs
  | sendBuffer buffer w => exact h.sendBuffer hs
  | handleWrite w => exact h.handleWrite hs
  | shutdown => exact h.shutdown hs
  | shutdownElsewhere =>
    obtain rfl := Except.ok.inj hs
    unfold TcpConnection.shutdownElsewhere
    split
    · -- the state changes now, and the functor that closes is queued
      exact ⟨h.interest.of_eq rfl rfl, h.drained, fun _ => Or.inr (Or.inl (Nat.succ_pos _))⟩
    · exact h
  | functor =>
    simp only [step] at hs
    cases hq : s.functors with
    | zero =>
      rw [hq] at hs
      obtain rfl := Except.ok.inj hs
      exact h
    | succ n =>
      rw [hq] at hs
      -- the functor is gone from the queue, but it either closes or finds output pending
      exact @perform_closes { s with functors := n } s' h.interest h.drained _ (unmarked s.conn)
        rfl rfl hs

/-- **The half-close.**  In every state a run reaches from an established connection:
    `shutDownWrite` was only ever executed with nothing pending, and as long as the
    connection is to be closed, output is pending under write interest, or a functor
    is queued, or `shutDownWrite` has been executed. -/
theorem shutDownWrite_drained {now : Nat} {steps : List HalfCloseStep}
    (hrun : run step (fresh now) steps = .ok s) :
    (∀ pending ∈ s.shutDowns, pending = []) ∧
      (s.conn.state_ = .kDisConnecting →
        (s.conn.outputBuffer_.readable ≠ [] ∧ s.conn.channel_.isWriting = true) ∨
          0 < s.functors ∨ s.shutDowns ≠ []) := by
  have hclosing : s.Closing := by
    apply run_preserves (fun _ _ _ h hs => step_closing h hs) _ hrun
    refine ⟨TcpConnection.established_interest now, by simp [fresh], fun hstate => ?_⟩
    exact absurd hstate ConnState.noConfusion
  exact ⟨hclosing.drained, hclosing.awaited⟩

/-- `shutdown` from another loop overtakes a partial write; the functor finds write
    interest on, and `handleWrite` closes the write side. -/
theorem shutDownWrite_drained_example :
    ∃ s, run step (fresh 0) [.send [1, 2, 3] (.accepted 1), .shutdownElsewhere, .functor,
        .handleWrite (.accepted 2)] = .ok s ∧
      (∀ pending ∈ s.shutDowns, pending = []) ∧
      (s.conn.state_ = .kDisConnecting →
        (s.conn.outputBuffer_.readable ≠ [] ∧ s.conn.channel_.isWriting = true) ∨
          0 < s.functors ∨ s.shutDowns ≠ []) := by
  obtain ⟨s, hs⟩ : ∃ s, run step (fresh 0) [.send [1, 2, 3] (.accepted 1), .shutdownElsewhere,
      .functor, .handleWrite (.accepted 2)] = .ok s := exists_ok (by decide +kernel)
  exact ⟨s, hs, shutDownWrite_drained hs⟩

end Step

end HalfClose

end LearnMuduo
