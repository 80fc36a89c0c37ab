/-
  LearnMuduo.Net.BufferQueue

  `Buffer` refines a byte queue.

  The abstract queue is a list: bytes are pushed at its end and consumed at its
  front.  `BufferOp.step` runs one operation of the class and records the strings
  it hands out; `BufferOp.onQueue` says what the operation means for the queue.
  `step_refines` is the simulation for one operation and `run_refines` its
  closure over whole runs.

  One operation does not always keep its promise: `ensureWriteableBytes(len)`
  computes `writeIdx_ + len` in a `size_t`, and a request for which that sum
  wraps returns without the room asked for (`ensureWriteableBytes_wraps`).
-/
import LearnMuduo.Net.BufferSpec

namespace LearnMuduo

open Lib

/-! ## The operations -/

inductive BufferOp where
  | append (data : Bytes)
  | retrieve (len : Nat)
  | retieveAsString (len : Nat)
  | retrieveAll
  /-- The pointer argument, as its distance from `beginread()`. -/
  | retrieveUntilIdx (ahead : Nat)
  | ensureWriteableBytes (len : Nat)
  /-- A read that stored these bytes. -/
  | readFd (data : Bytes)
  deriving DecidableEq, Repr

namespace BufferOp

/-- One operation; the second component collects the strings handed out. -/
def step (s : Buffer × List Bytes) : BufferOp → Except Fault (Buffer × List Bytes)
  | .append data => s.1.appendString data >>= fun b => .ok (b, s.2)
  | .retrieve len => .ok (s.1.retrieve len, s.2)
  | .retieveAsString len =>
      .ok ((s.1.retieveAsString len).2, s.2 ++ [(s.1.retieveAsString len).1])
  | .retrieveAll => .ok (s.1.retrieveAll, s.2)
  | .retrieveUntilIdx ahead =>
      s.1.retrieveUntilIdx (s.1.readIdx_ + ahead) >>= fun b => .ok (b, s.2)
  | .ensureWriteableBytes len => s.1.ensureWriteableBytes len >>= fun b => .ok (b, s.2)
  | .readFd data => s.1.readFd (.bytes data) 0 >>= fun r => .ok (r.1, s.2)

/-- What the operation means for the queue and for the strings handed out. -/
def onQueue (q : Bytes × List Bytes) : BufferOp → Bytes × List Bytes
  | .append data => (q.1 ++ data, q.2)
  | .retrieve len => (q.1.drop len, q.2)
  | .retieveAsString len => (q.1.drop len, q.2 ++ [q.1.take len])
  | .retrieveAll => ([], q.2)
  | .retrieveUntilIdx ahead => (q.1.drop ahead, q.2)
  | .ensureWriteableBytes _ => q
  | .readFd data => (q.1 ++ data, q.2)

/-- The contract of the operation's arguments: arrays end below `PTRDIFF_MAX`, only
    readable bytes are asked for, and a read stores no more than it was offered. -/
def Legal (b : Buffer) : BufferOp → Prop
  | .append data => data.length ≤ kMaxSize
  | .retieveAsString len => len ≤ b.readable.length
  | .retrieveUntilIdx ahead => ahead ≤ b.readable.length ∧ ahead < 2 ^ 31
  | .readFd data => b.Offered (.bytes data)
  | .retrieve _ | .retrieveAll | .ensureWriteableBytes _ => True

instance (b : Buffer) (op : BufferOp) : Decidable (op.Legal b) := by
  cases op <;> simp only [Legal] <;> infer_instance

/-- The room asked for does not wrap around the end of the address range. -/
def NoWrap (b : Buffer) : BufferOp → Prop
  | .ensureWriteableBytes len => b.writeIdx_ + len < 2 ^ 64
  | _ => True

instance (b : Buffer) (op : BufferOp) : Decidable (op.NoWrap b) := by
  cases op <;> simp only [NoWrap] <;> infer_instance

/-- What is asked of a step: the arguments are legal and no request wraps. -/
def Ok (s : Buffer × List Bytes) (op : BufferOp) : Prop := op.Legal s.1 ∧ op.NoWrap s.1

instance (s : Buffer × List Bytes) (op : BufferOp) : Decidable (op.Ok s) :=
  inferInstanceAs (Decidable (_ ∧ _))

/-! ## Simulation -/

/-- One operation keeps the invariant and acts on the readable bytes as on the queue. -/
theorem step_refines {s s' : Buffer × List Bytes} {op : BufferOp} (h : s.1.WF)
    (hok : op.Ok s) (hstep : op.step s = .ok s') :
    s'.1.WF ∧ (s'.1.readable, s'.2) = op.onQueue (s.1.readable, s.2) := by
  obtain ⟨b, outs⟩ := s
  obtain ⟨hlegal, hwrap⟩ := hok
  cases op with
  | append data =>
    obtain ⟨c, hc, rfl⟩ := by simpa [step, then_ok_iff] using hstep
    obtain ⟨hwf, hr⟩ := Buffer.appendString_spec h hlegal hc
    exact ⟨hwf, by simp only [onQueue, hr]⟩
  | retrieve len =>
    obtain rfl := Except.ok.inj hstep
    obtain ⟨hwf, hr⟩ := Buffer.retrieve_spec h len
    exact ⟨hwf, by simp only [onQueue, hr]⟩
  | retieveAsString len =>
    obtain rfl := Except.ok.inj hstep
    obtain ⟨ht, hwf, hr⟩ := Buffer.retieveAsString_spec h hlegal
    exact ⟨hwf, by simp only [onQueue, hr, ht]⟩
  | retrieveAll =>
    obtain rfl := Except.ok.inj hstep
    obtain ⟨hwf, hr⟩ := Buffer.retrieveAll_spec h
    exact ⟨hwf, by simp only [onQueue, hr]⟩
  | retrieveUntilIdx ahead =>
    obtain ⟨c, hc, hwf, hr⟩ := Buffer.retrieveUntilIdx_spec h hlegal.1 hlegal.2
    simp only [step, hc, ok_then, Except.ok.injEq] at hstep
    subst hstep
    exact ⟨hwf, by simp only [onQueue, hr]⟩
  | ensureWriteableBytes len =>
    obtain ⟨c, hc, rfl⟩ := by simpa [step, then_ok_iff] using hstep
    obtain ⟨hwf, hr, -⟩ := Buffer.ensureWriteableBytes_spec h hwrap hc
    exact ⟨hwf, by simp only [onQueue, hr]⟩
  | readFd data =>
    obtain ⟨⟨c, e⟩, hc, hs⟩ := then_ok_iff.mp hstep
    obtain rfl := Except.ok.inj hs
    obtain ⟨hwf, hr, -⟩ := Buffer.readFd_bytes_spec h hlegal hc
    exact ⟨hwf, by simp only [onQueue, hr]⟩

/-- The simulation over a run from any well-formed Buffer. -/
theorem run_refines {s s' : Buffer × List Bytes} {ops : List BufferOp} (h : s.1.WF)
    (hok : Along step Ok s ops) (hrun : run step s ops = .ok s') :
    s'.1.WF ∧ (s'.1.readable, s'.2) = ops.foldl onQueue (s.1.readable, s.2) := by
  induction ops generalizing s with
  | nil =>
    obtain rfl := Except.ok.inj hrun
    exact ⟨h, rfl⟩
  | cons op ops ih =>
    obtain ⟨t, ht, hrest⟩ := then_ok_iff.mp hrun
    obtain ⟨hwf, hq⟩ := step_refines h hok.1 ht
    obtain ⟨hwf', hq'⟩ := ih hwf (hok.2 t ht) hrest
    exact ⟨hwf', by rw [hq', hq, List.foldl_cons]⟩

/-- **A Buffer is a byte queue.**  After any run of operations on a fresh Buffer in
    which no request for room wraps, the indices are in order, the readable bytes
    and the strings handed out are those of the queue, and a final
    `ensureWriteableBytes(len)` left `len` bytes writable. -/
theorem buffer_refines_queue {initialSize : Nat} {ops : List BufferOp}
    {s : Buffer × List Bytes} (hsize : kcheapPrepend + initialSize ≤ kMaxSize)
    (hok : Along step Ok (Buffer.new initialSize, []) ops)
    (hrun : run step (Buffer.new initialSize, []) ops = .ok s) :
    (kcheapPrepend ≤ s.1.readIdx_ ∧ s.1.readIdx_ ≤ s.1.writeIdx_ ∧
        s.1.writeIdx_ ≤ s.1.buffer_.length) ∧
      (s.1.readable, s.2) = ops.foldl onQueue ([], []) ∧
      ∀ pre len, ops = pre ++ [.ensureWriteableBytes len] → len ≤ s.1.writeableBytes := by
  have hnew := Buffer.new_wf hsize
  obtain ⟨hwf, hq⟩ := run_refines hnew hok hrun
  refine ⟨⟨hwf.prepend, hwf.read, hwf.write⟩, ?_, ?_⟩
  · rw [hq, Buffer.new_readable]
  · rintro pre len rfl
    obtain ⟨m, hm, hlast⟩ := run_prefix hrun
    obtain ⟨hmwf, -⟩ := run_refines hnew (along_append hok) hm
    have hmok : Ok m (.ensureWriteableBytes len) := along_at hok hm
    simp only [run_cons, run_nil, step] at hlast
    obtain ⟨t, ht, hst⟩ := then_ok_iff.mp hlast
    obtain ⟨c, hc, hct⟩ := then_ok_iff.mp ht
    obtain rfl := Except.ok.inj hct
    obtain rfl := Except.ok.inj hst
    exact (Buffer.ensureWriteableBytes_spec hmwf hmok.2 hc).2.2

/-- A small run: append, hand out the front, ask for room. -/
theorem buffer_refines_queue_small :
    (kcheapPrepend ≤ 10 ∧ 10 ≤ 11 ∧ 11 ≤ 16) ∧
      ((Buffer.mk [0, 0, 0, 0, 0, 0, 0, 0, 1, 2, 3, 0, 0, 0, 0, 0] 10 11).readable, [[1, 2]])
        = [append [1, 2, 3], retieveAsString 2, ensureWriteableBytes 5].foldl onQueue ([], []) ∧
      ∀ pre len, [append [1, 2, 3], retieveAsString 2, ensureWriteableBytes 5]
        = pre ++ [.ensureWriteableBytes len] →
          len ≤ (Buffer.mk [0, 0, 0, 0, 0, 0, 0, 0, 1, 2, 3, 0, 0, 0, 0, 0] 10 11).writeableBytes :=
  @buffer_refines_queue 8 [append [1, 2, 3], retieveAsString 2, ensureWriteableBytes 5]
    (Buffer.mk [0, 0, 0, 0, 0, 0, 0, 0, 1, 2, 3, 0, 0, 0, 0, 0] 10 11, [[1, 2]])
    (by decide)
    (along_cons (by decide +kernel)
      (by decide +kernel : step (Buffer.new 8, []) _
        = .ok (Buffer.mk [0, 0, 0, 0, 0, 0, 0, 0, 1, 2, 3, 0, 0, 0, 0, 0] 8 11, []))
      (along_cons (by decide +kernel)
        (by decide +kernel : step _ _
          = .ok (Buffer.mk [0, 0, 0, 0, 0, 0, 0, 0, 1, 2, 3, 0, 0, 0, 0, 0] 10 11, [[1, 2]]))
        ⟨by decide +kernel, fun _ _ => trivial⟩))
    (by decide +kernel)

/-! ## Where the sum wraps -/

/-- A request whose end would lie beyond `2 ^ 64` returns, but leaves a Buffer that is
    out of order or has less room than was asked for. -/
theorem ensureWriteableBytes_wraps {b : Buffer} (h : b.WF) {len : Nat} (hlen : len < 2 ^ 64)
    (hwrap : 2 ^ 64 ≤ b.writeIdx_ + len) :
    ∃ b', b.ensureWriteableBytes len = .ok b' ∧ ¬ (b'.WF ∧ len ≤ b'.writeableBytes) := by
  have hp := h.prepend
  have hr := h.read
  have hw := h.write
  have hs := h.size_lt
  have hwb := h.writeableBytes_eq
  have hfull : b.writeableBytes < len := by omega
  have hfree : sizeAdd b.writeableBytes b.prependanleBytes
      = b.buffer_.length - b.writeIdx_ + b.readIdx_ := by
    rw [hwb, Buffer.prependanleBytes, sizeAdd_of_lt (by omega)]
  -- no well-formed Buffer has that much room
  have hnone : ∀ b' : Buffer, ¬ (b'.WF ∧ len ≤ b'.writeableBytes) := by
    rintro b' ⟨hb', hroom⟩
    have := hb'.size_lt
    rw [hb'.writeableBytes_eq] at hroom
    omega
  rw [Buffer.ensureWriteableBytes, if_pos hfull, Buffer.makeSpace, hfree]
  split
  · have hsmall : sizeAdd b.writeIdx_ len ≤ kMaxSize := by
      unfold sizeAdd kMaxSize
      omega
    rw [Buffer.resize, if_pos hsmall]
    exact ⟨_, rfl, hnone _⟩
  · exact ⟨_, rfl, hnone _⟩

/-- `ensureWriteableBytes(SIZE_MAX)` on a fresh Buffer returns with 1024 bytes writable. -/
theorem ensureWriteableBytes_size_max :
    ∃ s, run step (Buffer.new, []) [.ensureWriteableBytes (2 ^ 64 - 1)] = .ok s ∧
      ¬ (2 ^ 64 - 1 ≤ s.1.writeableBytes) := by
  refine ⟨(Buffer.new, []), ?_, ?_⟩ <;> decide +kernel

end BufferOp

end LearnMuduo
