/-
  LearnMuduo.Net.WriteInterest

  Write interest is on exactly while bytes are pending.

  `send` switches it on when it queues bytes, `handleWrite` off when it has written
  the last of them.  `Interest` is the invariant the two share; it needs no bound on
  the messages, as a `send` whose `int` length overflows either fails its assertion
  or queues a positive number of bytes.
-/
import LearnMuduo.Net.TcpConnection

namespace LearnMuduo

open Lib

/-- A call on the connection's loop that concerns its output. -/
inductive WriteCall where
  | send (message : Bytes) (w : WriteResult)
  | sendBuffer (buffer : Buffer) (w : WriteResult)
  | handleWrite (w : WriteResult)
  | shutdown
  | shutdownInloop
  deriving DecidableEq, Repr

def WriteCall.step (conn : TcpConnection) : WriteCall → Except Fault TcpConnection
  | .send message w => conn.send message w
  | .sendBuffer buffer w => conn.sendBuffer buffer w >>= fun p => .ok p.1
  | .handleWrite w => .ok (conn.handleWrite w)
  | .shutdown => .ok conn.shutdown
  | .shutdownInloop => .ok conn.shutdownInloop

namespace TcpConnection

structure Interest (conn : TcpConnection) : Prop where
  wf : conn.outputBuffer_.WF
  registered : conn.channel_.Registered
  writing : conn.channel_.isWriting = true ↔ conn.outputBuffer_.readable ≠ []

theorem established_interest (now : Nat) : (TcpConnection.new now).established.Interest := by
  refine ⟨Buffer.new_wf (by decide), Channel.enableReading_new_registered, ?_⟩
  have hempty : (TcpConnection.new now).established.outputBuffer_.readable = [] :=
    Buffer.new_readable _
  rw [hempty]
  exact ⟨fun h => absurd h Bool.false_ne_true, fun h => absurd rfl h⟩

section Step

variable {conn conn' : TcpConnection} {w : WriteResult}

/-- Only the output Buffer and the channel matter. -/
theorem Interest.of_eq (h : conn.Interest) (hout : conn'.outputBuffer_ = conn.outputBuffer_)
    (hch : conn'.channel_ = conn.channel_) : conn'.Interest := by
  refine ⟨?_, ?_, ?_⟩
  · rw [hout]
    exact h.wf
  · rw [hch]
    exact h.registered
  · rw [hout, hch]
    exact h.writing

theorem enableWriting_if (ch : Channel) :
    (if ch.isWriting then ch else ch.enableWriting).isWriting = true := by
  split
  · assumption
  · exact Channel.enableWriting_isWriting

theorem toInt_lt (i : Int) : toInt i < 2 ^ 31 := by
  unfold toInt
  have h := @Int.bmod_lt i (2 ^ 32) (by decide)
  omega

/-- A remainder that is positive is queued, and any other changes nothing. -/
theorem sendRest_cases (hwf : conn.outputBuffer_.WF) {message : Bytes} {i send_size : Int}
    (hs : conn.sendRest message (toInt i) send_size = .ok conn') :
    (toInt i ≤ 0 ∧ conn' = conn) ∨
    (0 < toInt i ∧ conn'.outputBuffer_.WF ∧
      conn.outputBuffer_.readable.length < conn'.outputBuffer_.readable.length ∧
      conn'.channel_ =
        if conn.channel_.isWriting then conn.channel_ else conn.channel_.enableWriting) := by
  unfold TcpConnection.sendRest at hs
  split at hs
  · split at hs
    · rename_i hpos
      obtain ⟨out, hout, hconn⟩ := then_ok_iff.mp hs
      obtain rfl := Except.ok.inj hconn
      have hlt := toInt_lt i
      obtain ⟨k, hk⟩ := Int.eq_ofNat_of_zero_le (Int.le_of_lt hpos)
      have hsize : toSize (toInt i) = k := by
        rw [hk]
        exact toSize_ofNat (by omega)
      rw [hsize] at hout
      obtain ⟨hwf', hread, hlen⟩ := Buffer.append_spec hwf (by unfold kMaxSize; omega) hout
      refine Or.inr ⟨hpos, hwf', ?_, rfl⟩
      -- at least one byte was appended
      show conn.outputBuffer_.readable.length < out.readable.length
      rw [hread, List.length_append, List.length_take, Nat.min_eq_left hlen]
      omega
    · rename_i hpos
      obtain rfl := Except.ok.inj hs
      exact Or.inl ⟨Int.not_lt.mp hpos, rfl⟩
  · simp at hs

/-- What is queued switches write interest on. -/
theorem Interest.sendRest (h : conn.Interest) {message : Bytes} {i send_size : Int}
    (hs : conn.sendRest message (toInt i) send_size = .ok conn') : conn'.Interest := by
  rcases sendRest_cases h.wf hs with ⟨-, rfl⟩ | ⟨-, hwf, hlonger, hch⟩
  · exact h
  · have hne : conn'.outputBuffer_.readable ≠ [] := by
      intro hnil
      rw [hnil] at hlonger
      exact Nat.not_lt_zero _ hlonger
    refine ⟨hwf, ?_, fun _ => hne, fun _ => ?_⟩
    · rw [hch]
      split
      · exact h.registered
      · -- the kernel follows the new mask
        exact h.registered.enableWriting
    · rw [hch]
      exact enableWriting_if conn.channel_

theorem Interest.send (h : conn.Interest) {message : Bytes}
    (hs : conn.send message w = .ok conn') : conn'.Interest := by
  rw [send_eq] at hs
  split at hs
  · have hwrite : TcpConnection.Interest
        { conn with socket_ := conn.socket_.write message w } := h.of_eq rfl rfl
    split at hs
    · exact hwrite.sendRest hs
    · -- a refused write queues nothing
      obtain rfl := Except.ok.inj hs
      exact hwrite
  · exact h.sendRest hs

theorem Interest.sendBuffer (h : conn.Interest) {buffer rest : Buffer}
    (hs : conn.sendBuffer buffer w = .ok (conn', rest)) : conn'.Interest := by
  unfold TcpConnection.sendBuffer at hs
  split at hs
  · obtain ⟨c, hc, heq⟩ := then_ok_iff.mp hs
    obtain ⟨rfl, -⟩ := Prod.mk.inj (Except.ok.inj heq)
    exact h.send hc
  · obtain ⟨rfl, -⟩ := Prod.mk.inj (Except.ok.inj hs)
    exact h

theorem Interest.shutdownInloop (h : conn.Interest) : conn.shutdownInloop.Interest :=
  h.of_eq shutdownInloop_outputBuffer shutdownInloop_channel

theorem Interest.shutdown (h : conn.Interest) : conn.shutdown.Interest := by
  refine h.of_eq ?_ shutdown_channel
  unfold TcpConnection.shutdown
  split
  · exact shutdownInloop_outputBuffer
  · rfl

/-- Writing takes bytes from the front, and switches write interest off behind the
    last one. -/
theorem Interest.handleWrite (h : conn.Interest) (w : WriteResult) :
    (conn.handleWrite w).Interest := by
  simp only [TcpConnection.handleWrite]
  split
  · rename_i hwriting
    split
    · obtain ⟨hwf, hread⟩ := Buffer.retrieve_spec h.wf
        (toSize (conn.outputBuffer_.writeFd w 0).1)
      split
      · rename_i hzero
        -- the last byte is out, and `disableWriting` comes in the same call
        have hempty := List.eq_nil_of_length_eq_zero (hwf.readable_length.trans hzero)
        have hdrained : TcpConnection.Interest
            { conn with
              socket_ := conn.socket_.write conn.outputBuffer_.readable w
              outputBuffer_ :=
                conn.outputBuffer_.retrieve (toSize (conn.outputBuffer_.writeFd w 0).1)
              channel_ := conn.channel_.disableWriting } := by
          refine ⟨hwf, h.registered.disableWriting, ?_⟩
          show conn.channel_.disableWriting.isWriting = true ↔ _ ≠ []
          rw [Channel.disableWriting_isWriting, hempty]
          decide
        split
        · exact hdrained.shutdownInloop
        · exact hdrained
      · rename_i hzero
        refine ⟨hwf, h.registered, fun _ hnil => ?_, fun _ => hwriting⟩
        -- bytes are left: `readableBytes` would be 0 without them
        apply hzero
        rw [← hwf.readable_length, hnil]
        rfl
    · exact h.of_eq rfl rfl
  · exact h

end Step

end TcpConnection

namespace WriteCall

theorem step_interest {conn conn' : TcpConnection} {call : WriteCall} (h : conn.Interest)
    (hstep : step conn call = .ok conn') : conn'.Interest := by
  cases call with
  | send message w => exact h.send hstep
  | sendBuffer buffer w =>
    obtain ⟨⟨c, rest⟩, hc, heq⟩ := then_ok_iff.mp hstep
    obtain rfl := Except.ok.inj heq
    exact h.sendBuffer hc
  | handleWrite w =>
    obtain rfl := Except.ok.inj hstep
    exact h.handleWrite w
  | shutdown =>
    obtain rfl := Except.ok.inj hstep
    exact h.shutdown
  | shutdownInloop =>
    obtain rfl := Except.ok.inj hstep
    exact h.shutdownInloop

/-- **Write interest is pending output.**  After any calls on an established
    connection, with any outcomes of their writes: the channel asks to be written, and
    the kernel watches it for that, exactly when `outputBuffer_` has readable bytes. -/
theorem writing_iff_pending {now : Nat} {conn : TcpConnection} {calls : List WriteCall}
    (hrun : run step (TcpConnection.new now).established calls = .ok conn) :
    (conn.channel_.isWriting = true ↔ conn.outputBuffer_.readable ≠ []) ∧
      ∃ mask, conn.channel_.interest = some mask ∧
        (mask.EPOLLOUT = true ↔ conn.outputBuffer_.readable ≠ []) := by
  have hinv : conn.Interest :=
    run_preserves (fun _ _ _ h hs => step_interest h hs) (TcpConnection.established_interest now)
      hrun
  exact ⟨hinv.writing, conn.channel_.events_, hinv.registered.interest, hinv.writing⟩

/-- A direct write that takes one byte of three leaves two pending. -/
theorem writing_iff_pending_example :
    ∃ conn, run step (TcpConnection.new 0).established [.send [1, 2, 3] (.accepted 1)] = .ok conn ∧
      (conn.channel_.isWriting = true ↔ conn.outputBuffer_.readable ≠ []) ∧
      ∃ mask, conn.channel_.interest = some mask ∧
        (mask.EPOLLOUT = true ↔ conn.outputBuffer_.readable ≠ []) := by
  obtain ⟨conn, hconn⟩ : ∃ conn, run step (TcpConnection.new 0).established
      [.send [1, 2, 3] (.accepted 1)] = .ok conn := exists_ok (by decide +kernel)
  exact ⟨conn, hconn, writing_iff_pending hconn⟩

end WriteCall

end LearnMuduo
