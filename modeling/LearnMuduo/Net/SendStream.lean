/-
  LearnMuduo.Net.SendStream

  The outgoing byte stream of a connection: what the socket has accepted followed
  by what `outputBuffer_` holds.

  A `send` that finds nothing pending writes directly, any other one queues, and
  `handleWrite` empties the queue: each keeps the stream (`sendStep_stream`),
  except that the direct path drops the message when `::write` returns -1.
-/
import LearnMuduo.Net.TcpConnection

namespace LearnMuduo

open Lib

/-- A call on the connection's loop. -/
inductive SendStep where
  | send (message : Bytes) (w : WriteResult)
  | handleWrite (w : WriteResult)
  deriving DecidableEq, Repr

namespace SendStep

def step (conn : TcpConnection) : SendStep → Except Fault TcpConnection
  | .send message w => conn.send message w
  | .handleWrite w => .ok (conn.handleWrite w)

def message : SendStep → Bytes
  | .send message _ => message
  | .handleWrite _ => []

/-- The concatenation of the messages passed to `send`. -/
def messages (steps : List SendStep) : Bytes := steps.flatMap message

/-- The length of the message fits an `int`, and no direct write of bytes is refused. -/
def Ok (conn : TcpConnection) : SendStep → Prop
  | .send message w => message.length < 2 ^ 31 ∧
      (conn.sendsDirectly = true → message ≠ [] → 0 ≤ w.value message.length)
  | .handleWrite _ => True

instance (conn : TcpConnection) : DecidablePred (Ok conn)
  | .send _ _ => inferInstanceAs (Decidable (_ ∧ _))
  | .handleWrite _ => inferInstanceAs (Decidable True)

end SendStep

namespace TcpConnection

/-- The bytes the socket has accepted, then the bytes still to be written. -/
def stream (conn : TcpConnection) : Bytes :=
  conn.socket_.accepted ++ conn.outputBuffer_.readable

/-! ## One call -/

section Step

variable {conn conn' : TcpConnection}

/-- What is left of the message goes to the end of the queue. -/
theorem sendRest_spec {message : Bytes} {k : Nat} (hwf : conn.outputBuffer_.WF)
    (hlen : message.length < 2 ^ 31) (hk : k ≤ message.length)
    (hrest : conn.sendRest message (message.length - k : Int) k = .ok conn') :
    conn'.outputBuffer_.WF ∧ conn'.socket_ = conn.socket_ ∧
      conn'.outputBuffer_.readable = conn.outputBuffer_.readable ++ message.drop k := by
  have hsize : toSize (message.length - k : Int) = message.length - k := by
    rw [← Int.ofNat_sub hk]
    exact toSize_ofNat (by omega)
  rw [sendRest, hsize, if_pos (Nat.sub_le _ _)] at hrest
  split at hrest
  · obtain ⟨out, hout, hconn⟩ := then_ok_iff.mp hrest
    obtain rfl := Except.ok.inj hconn
    obtain ⟨hwf', hread, -⟩ := Buffer.append_spec hwf (by unfold kMaxSize; omega) hout
    refine ⟨hwf', rfl, ?_⟩
    rw [hread, Int.toNat_natCast, List.take_of_length_le (by rw [List.length_drop])]
  · rename_i hzero
    obtain rfl := Except.ok.inj hrest
    have hall : message.length ≤ k := by omega
    rw [List.drop_eq_nil_of_le hall, List.append_nil]
    exact ⟨hwf, rfl, rfl⟩

theorem sendsDirectly_empty (hwf : conn.outputBuffer_.WF) (h : conn.sendsDirectly = true) :
    conn.outputBuffer_.readable = [] := by
  simp only [sendsDirectly, Bool.and_eq_true, beq_iff_eq] at h
  exact List.eq_nil_of_length_eq_zero (hwf.readable_length.trans h.2)

/-- Unless the write is refused, `send` hands some bytes to the socket, none when
    others are waiting, and queues the rest. -/
theorem send_cases {message : Bytes} (w : WriteResult) (hlen : message.length < 2 ^ 31) :
    (conn.sendsDirectly = true ∧ w.value message.length < 0 ∧
        conn.send message w = .ok { conn with socket_ := conn.socket_.write message w }) ∨
      ∃ k s, k ≤ message.length ∧ (k = 0 ∨ conn.sendsDirectly = true) ∧
        s.accepted = conn.socket_.accepted ++ message.take k ∧
        conn.send message w
          = { conn with socket_ := s }.sendRest message (message.length - k : Int) k := by
  unfold send
  rw [toInt_of_lt hlen]
  by_cases hdirect : conn.sendsDirectly = true
  · rw [if_pos hdirect]
    cases w with
    | error e =>
      have hneg : WriteResult.value message.length (.error e) < 0 := Int.negSucc_lt_zero 0
      exact Or.inl ⟨hdirect, hneg, by rw [WriteResult.value, toInt_neg_one]; rfl⟩
    | accepted n =>
      have hle : min n message.length ≤ message.length := Nat.min_le_right _ _
      refine Or.inr ⟨_, _, hle, Or.inr hdirect,
        Socket.write_accepted conn.socket_ message (.accepted n), ?_⟩
      rw [WriteResult.value, toInt_of_lt (by omega), if_pos (by omega), ← Int.ofNat_sub hle,
        toInt_of_lt (by omega), Int.ofNat_sub hle]
  · rw [if_neg hdirect]
    refine Or.inr ⟨0, conn.socket_, Nat.zero_le _, Or.inl rfl, by simp, ?_⟩
    -- no direct write: `send_size` is 0 and the whole message remains
    rw [Int.ofNat_zero, Int.sub_zero]

theorem send_stream {message : Bytes} {w : WriteResult} (hwf : conn.outputBuffer_.WF)
    (hok : SendStep.Ok conn (.send message w)) (hsend : conn.send message w = .ok conn') :
    conn'.outputBuffer_.WF ∧ conn'.stream = conn.stream ++ message := by
  obtain ⟨hlen, htaken⟩ := hok
  rcases send_cases w hlen with ⟨hdirect, hval, heq⟩ | ⟨k, s, hk, hdirect, hacc, heq⟩
  · -- a refused write: by assumption there was nothing to write
    obtain rfl : message = [] := by_contra fun hm => by
      have := htaken hdirect hm
      omega
    obtain rfl := Except.ok.inj (heq.symm.trans hsend)
    exact ⟨hwf, by simp [stream, Socket.write_accepted]⟩
  · -- `k` bytes went to the socket and the others behind what was queued
    obtain ⟨hwf', hsock, hread⟩ := @sendRest_spec { conn with socket_ := s } _ _ _
      hwf hlen hk (heq.symm.trans hsend)
    refine ⟨hwf', ?_⟩
    rw [stream, stream, hsock, hread, hacc]
    rcases hdirect with rfl | hdirect
    · simp
    · -- with an empty queue the bytes taken and the bytes queued are neighbours
      rw [sendsDirectly_empty hwf hdirect, List.nil_append, List.append_nil, List.append_assoc,
        List.take_append_drop]

/-- A refused direct write of bytes loses them: the stream stays as it was. -/
theorem send_refused {message : Bytes} (e : Errno) (hdirect : conn.sendsDirectly = true) :
    ∃ conn', conn.send message (.error e) = .ok conn' ∧ conn'.stream = conn.stream := by
  refine ⟨{ conn with socket_ := conn.socket_.write message (.error e) }, ?_, ?_⟩
  · rw [send, if_pos hdirect, WriteResult.value, toInt_neg_one]
    rfl
  · simp [stream, Socket.write_accepted, WriteResult.taken]

theorem send_returns {message : Bytes} (w : WriteResult) (hwf : conn.outputBuffer_.WF)
    (hlen : message.length < 2 ^ 31) (hroom : conn.outputBuffer_.readable.length < 2 ^ 61) :
    ∃ conn', conn.send message w = .ok conn' := by
  rcases send_cases w hlen with ⟨-, -, heq⟩ | ⟨k, s, hk, -, -, heq⟩
  · exact ⟨_, heq⟩
  · have hsize : toSize (message.length - k : Int) = message.length - k := by
      rw [← Int.ofNat_sub hk]
      exact toSize_ofNat (by omega)
    rw [heq, sendRest, hsize, if_pos (Nat.sub_le _ _)]
    split
    · obtain ⟨out, hout⟩ := @Buffer.append_returns _ hwf (message.drop k)
        (message.length - k) (by rw [List.length_drop])
        (by unfold kMaxSize kcheapPrepend; omega)
      rw [Int.toNat_natCast, hout]
      exact ⟨_, rfl⟩
    · exact ⟨_, rfl⟩

/-- What the socket takes leaves the front of the queue. -/
theorem handleWrite_stream (w : WriteResult) (hwf : conn.outputBuffer_.WF) :
    (conn.handleWrite w).outputBuffer_.WF ∧ (conn.handleWrite w).stream = conn.stream := by
  unfold handleWrite
  split
  · cases w with
    | error e =>
      simp only [Buffer.writeFd, Int.reduceNeg, Int.reduceLT, if_false]
      exact ⟨hwf, by simp [stream, Socket.write_accepted, WriteResult.taken]⟩
    | accepted n =>
      have hbytes := hwf.readable_length
      have hlt := hwf.size_lt
      have hle : min n conn.outputBuffer_.readableBytes < 2 ^ 64 := by
        have := hwf.readableBytes_eq
        have := hwf.write
        omega
      simp only [Buffer.writeFd, WriteResult.value, toSize_ofNat hle]
      rw [← hbytes]
      generalize hk : min n conn.outputBuffer_.readable.length = k
      have htake : WriteResult.taken conn.outputBuffer_.readable.length (.accepted n) = k := hk
      obtain ⟨hwf', hread⟩ := Buffer.retrieve_spec hwf k
      -- the last branches change only the channel and the socket's flags
      have hkeep : ∀ c : TcpConnection,
          c.outputBuffer_ = conn.outputBuffer_.retrieve k →
          c.socket_.accepted = conn.socket_.accepted ++ conn.outputBuffer_.readable.take k →
          c.outputBuffer_.WF ∧ c.stream = conn.stream := by
        intro c hout hacc
        refine ⟨hout ▸ hwf', ?_⟩
        rw [stream, stream, hout, hacc, hread, List.append_assoc, List.take_append_drop]
      split
      · split
        · split
          · refine hkeep _ shutdownInloop_outputBuffer ?_
            rw [shutdownInloop_accepted, ← htake]
            rfl
          · exact hkeep _ rfl (by rw [← htake]; rfl)
        · exact hkeep _ rfl (by rw [← htake]; rfl)
      · rename_i hzero
        -- a write that takes nothing retrieves nothing
        obtain rfl : k = 0 := by omega
        refine ⟨hwf, ?_⟩
        simp [stream, Socket.write_accepted, htake]
  · exact ⟨hwf, rfl⟩

end Step

end TcpConnection

/-! ## Runs -/

namespace SendStep

theorem step_stream {conn conn' : TcpConnection} {s : SendStep} (hwf : conn.outputBuffer_.WF)
    (hok : Ok conn s) (h : step conn s = .ok conn') :
    conn'.outputBuffer_.WF ∧ conn'.stream = conn.stream ++ s.message := by
  cases s with
  | send message w => exact TcpConnection.send_stream hwf hok h
  | handleWrite w =>
    obtain rfl := Except.ok.inj h
    obtain ⟨hwf', hstream⟩ := TcpConnection.handleWrite_stream w hwf
    exact ⟨hwf', by rw [hstream, message, List.append_nil]⟩

/-- From any connection whose output Buffer is well-formed. -/
theorem run_stream {conn conn' : TcpConnection} {steps : List SendStep}
    (hwf : conn.outputBuffer_.WF) (hok : Along step Ok conn steps)
    (hrun : run step conn steps = .ok conn') :
    conn'.stream = conn.stream ++ messages steps := by
  induction steps generalizing conn with
  | nil =>
    obtain rfl := Except.ok.inj hrun
    simp [messages]
  | cons s steps ih =>
    obtain ⟨m, hm, hrest⟩ := then_ok_iff.mp hrun
    obtain ⟨hwf', hstream⟩ := step_stream hwf hok.1 hm
    rw [ih hwf' (hok.2 m hm) hrest, hstream, messages, messages, List.flatMap_cons,
      List.append_assoc]

/-- Such a run returns, as long as the bytes of the stream fit in memory. -/
theorem run_returns {conn : TcpConnection} {steps : List SendStep}
    (hwf : conn.outputBuffer_.WF) (hok : Along step Ok conn steps)
    (hroom : (conn.stream ++ messages steps).length < 2 ^ 61) :
    ∃ conn', run step conn steps = .ok conn' := by
  induction steps generalizing conn with
  | nil => exact ⟨conn, rfl⟩
  | cons s steps ih =>
    obtain ⟨m, hm⟩ : ∃ m, step conn s = .ok m := by
      cases s with
      | handleWrite w => exact ⟨_, rfl⟩
      | send message w =>
        -- what is queued is part of the stream, so it fits as well
        have hpart : conn.outputBuffer_.readable.length < 2 ^ 61 := by
          simp only [TcpConnection.stream, List.length_append] at hroom
          omega
        exact TcpConnection.send_returns w hwf hok.1.1 hpart
    obtain ⟨hwf', hstream⟩ := step_stream hwf hok.1 hm
    obtain ⟨conn', hconn'⟩ := ih hwf' (hok.2 m hm) (by
      rw [hstream, List.append_assoc]
      exact hroom)
    exact ⟨conn', by rw [run_cons, hm, ok_then, hconn']⟩

/-- **No byte of a message is lost, duplicated or reordered** on an established
    connection, in a run in which every message is shorter than `2 ^ 31` and no direct
    write of bytes is refused. -/
theorem sent_stream {now : Nat} {conn : TcpConnection} {steps : List SendStep}
    (hok : Along step Ok (TcpConnection.new now).established steps)
    (hrun : run step (TcpConnection.new now).established steps = .ok conn) :
    conn.socket_.accepted ++ conn.outputBuffer_.readable = messages steps := by
  have hstream := run_stream (Buffer.new_wf (by decide)) hok hrun
  have hstart : (TcpConnection.new now).established.stream = [] := Buffer.new_readable _
  rwa [hstart, List.nil_append] at hstream

/-- A direct write that takes one byte of three, then an `EPOLLOUT` that takes the rest. -/
theorem sent_stream_example :
    ∃ conn, run step (TcpConnection.new 0).established
        [.send [1, 2, 3] (.accepted 1), .handleWrite (.accepted 2)] = .ok conn ∧
      conn.socket_.accepted ++ conn.outputBuffer_.readable = [1, 2, 3] := by
  have hok : Along step Ok (TcpConnection.new 0).established
      [.send [1, 2, 3] (.accepted 1), .handleWrite (.accepted 2)] :=
    ⟨⟨by decide, fun _ _ => by decide⟩, fun _ _ => ⟨trivial, fun _ _ => trivial⟩⟩
  obtain ⟨conn, hrun⟩ := run_returns (Buffer.new_wf (by decide)) hok (by decide +kernel)
  exact ⟨conn, hrun, sent_stream hok hrun⟩

/-- `EWOULDBLOCK` on the direct path: the two bytes are neither sent nor queued. -/
theorem send_ewouldblock_loses :
    ∃ conn, run step (TcpConnection.new 0).established
        [.send (ascii "AB") (.error EWOULDBLOCK)] = .ok conn ∧
      conn.socket_.accepted ++ conn.outputBuffer_.readable
        ≠ messages [.send (ascii "AB") (.error EWOULDBLOCK)] := by
  obtain ⟨conn, hsend, hstream⟩ := @TcpConnection.send_refused
    (TcpConnection.new 0).established (ascii "AB") EWOULDBLOCK
    (by decide +kernel)
  refine ⟨conn, by rw [run_cons, step, hsend]; rfl, ?_⟩
  rw [← TcpConnection.stream, hstream]
  decide +kernel

end SendStep

end LearnMuduo
