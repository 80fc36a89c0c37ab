/-
  LearnMuduo.Net.BufferMemory

  The memory of a Buffer (Net/Buffer.h, Net/Buffer.cc).

  `makeSpace(len)` makes the vector longer only when what is free in front of the readable
  bytes and behind them is not enough, and then up to `writeIdx_ + len`.  So it never gets
  longer than the readable bytes and twice the request, and a run of operations keeps the
  memory in proportion to the most that was ever kept, however much flows through.  Nothing
  makes the vector shorter.
-/
import LearnMuduo.Net.BufferQueue

namespace LearnMuduo

open Lib

namespace Buffer

variable {b b' : Buffer} {len : Nat} {data : Bytes}

/-- From `b` to `b'` the vector has grown at most to a request for `need` bytes. -/
structure Grows (b b' : Buffer) (need : Nat) : Prop where
  lower : b.buffer_.length ≤ b'.buffer_.length
  upper : b'.buffer_.length ≤ max b.buffer_.length (need + kcheapPrepend - 1)

theorem Grows.of_eq {need : Nat} (h : b'.buffer_.length = b.buffer_.length) : Grows b b' need where
  lower := Nat.le_of_eq h.symm
  upper := Nat.le_trans (Nat.le_of_eq h) (Nat.le_max_left _ _)

theorem makeSpace_grows (h : b.WF) (hlen : b.writeIdx_ + len < 2 ^ 64)
    (hfull : b.writeableBytes < len) (hok : b.makeSpace len = .ok b') :
    Grows b b' (b.readable.length + 2 * len) := by
  have hr := h.read
  have hw := h.write
  have hs := h.size_lt
  have hwb := h.writeableBytes_eq
  have hrl := h.readable_length
  have hrb := h.readableBytes_eq
  unfold makeSpace at hok
  split at hok
  · rename_i hfew
    have hfree : sizeAdd b.writeableBytes b.prependanleBytes
        = b.buffer_.length - b.writeIdx_ + b.readIdx_ := by
      rw [hwb, prependanleBytes, sizeAdd_of_lt (by omega)]
    have hneed : sizeAdd len kcheapPrepend = len + kcheapPrepend :=
      sizeAdd_of_lt (by have hp := h.prepend; omega)
    rw [hfree, hneed] at hfew
    rw [sizeAdd_of_lt hlen] at hok
    obtain ⟨v, hv, hok⟩ := then_ok_iff.mp hok
    obtain rfl := Except.ok.inj hok
    obtain ⟨zeros, rfl, hlength, -⟩ := resize_grow (by omega) hv
    constructor
    case lower =>
      show _ ≤ (b.buffer_ ++ zeros).length
      omega
    case upper =>
      show (b.buffer_ ++ zeros).length ≤ _
      omega
  · obtain rfl := Except.ok.inj hok
    refine Grows.of_eq (overwrite_length ?_)
    have hp := h.prepend
    omega

theorem ensureWriteableBytes_grows (h : b.WF) (hlen : b.writeIdx_ + len < 2 ^ 64)
    (hok : b.ensureWriteableBytes len = .ok b') :
    Grows b b' (b.readable.length + 2 * len) := by
  unfold ensureWriteableBytes at hok
  split at hok
  · rename_i hfull
    exact makeSpace_grows h hlen hfull hok
  · obtain rfl := Except.ok.inj hok
    exact Grows.of_eq rfl

theorem append_grows (h : b.WF) (hlen : b.writeIdx_ + len < 2 ^ 64)
    (hok : b.append data len = .ok b') : Grows b b' (b.readable.length + 2 * len) := by
  obtain ⟨c, hc, hok⟩ := then_ok_iff.mp hok
  have hgrows : Grows b c (b.readable.length + 2 * len) := ensureWriteableBytes_grows h hlen hc
  split at hok
  · rename_i hfits
    obtain rfl := Except.ok.inj hok
    have hlength : (overwrite c.buffer_ c.writeIdx_ (data.take len)).length = c.buffer_.length :=
      overwrite_length (by rw [List.length_take]; omega)
    exact { lower := hlength ▸ hgrows.lower, upper := hlength ▸ hgrows.upper }
  · cases hok

/-- What a read leaves in the side buffer is appended, when the vector is full. -/
theorem readFd_grows (h : b.WF) (hoff : b.Offered (.bytes data)) {e e' : Errno}
    (hok : b.readFd (.bytes data) e = .ok (b', e')) :
    Grows b b' (b.readable.length + 2 * data.length) := by
  obtain ⟨hle, -, hn⟩ := offered_length h hoff
  by_cases hfit : data.length ≤ b.writeableBytes
  · simp only [readFd, hn, ReadvResult.data, Nat.not_lt_zero, if_false, if_pos hfit] at hok
    obtain ⟨rfl, -⟩ := Prod.mk.inj (Except.ok.inj hok)
    refine Grows.of_eq (overwrite_length ?_)
    have hw := h.write
    rw [List.length_take, h.writeableBytes_eq]
    omega
  · have hspill := Nat.lt_of_not_le hfit
    rw [readFd_spills h hoff hspill] at hok
    obtain ⟨c, hc, hok⟩ := then_ok_iff.mp hok
    obtain ⟨rfl, -⟩ := Prod.mk.inj (Except.ok.inj hok)
    obtain ⟨hfwf, hfull, hlength, hread⟩ := fill_spec h hspill
    have hsmall : (b.fill data).writeIdx_ + (data.length - b.writeableBytes) < 2 ^ 64 := by
      have hs := h.size_lt
      unfold kExtraSize at hle
      omega
    have hgrows := append_grows hfwf hsmall hc
    have hneed : (b.fill data).readable.length = b.readable.length + b.writeableBytes := by
      rw [hread, List.length_append, List.length_take]
      omega
    rw [hneed] at hgrows
    constructor
    case lower => exact Nat.le_trans (Nat.le_of_eq hlength.symm) hgrows.lower
    case upper =>
      have hupper := hgrows.upper
      omega

theorem readFd_returns (h : b.WF) (hoff : b.Offered (.bytes data))
    (hsmall : b.readable.length + 2 * data.length + kcheapPrepend ≤ kMaxSize) (e : Errno) :
    ∃ b', b.readFd (.bytes data) e = .ok (b', e) := by
  by_cases hfit : data.length ≤ b.writeableBytes
  · obtain ⟨b', hb, -⟩ := readFd_fits h hoff hfit
    exact ⟨b', hb⟩
  · have hspill := Nat.lt_of_not_le hfit
    obtain ⟨hfwf, -, -, hread⟩ := fill_spec h hspill
    obtain ⟨hextra, -⟩ := extrabuf_spec h hoff
    obtain ⟨hle, -, -⟩ := offered_length h hoff
    have hneed : (b.fill data).readable.length = b.readable.length + b.writeableBytes := by
      rw [hread, List.length_append, List.length_take]
      omega
    have hfits : data.length - b.writeableBytes ≤ (b.extrabuf data).length := by omega
    obtain ⟨b', hb⟩ := append_returns hfwf hfits (by omega)
    rw [readFd_spills h hoff hspill, hb]
    exact ⟨b', rfl⟩

end Buffer

namespace BufferOp

/-- The bytes that the operation wants to have room for. -/
def request : BufferOp → Nat
  | .append data | .readFd data => data.length
  | .ensureWriteableBytes len => len
  | .retrieve _ | .retieveAsString _ | .retrieveAll | .retrieveUntilIdx _ => 0

/-- Its arguments are legal, and with what is readable it asks for `P` bytes at most. -/
def Modest (P : Nat) (s : Buffer × List Bytes) (op : BufferOp) : Prop :=
  op.Legal s.1 ∧ s.1.readable.length + op.request ≤ P

instance (P : Nat) (s : Buffer × List Bytes) (op : BufferOp) : Decidable (Modest P s op) :=
  inferInstanceAs (Decidable (_ ∧ _))

section Modest

variable {P : Nat} {s s' : Buffer × List Bytes} {op : BufferOp}

theorem Modest.ok (hop : Modest P s op) (h : s.1.WF) (hP : 2 * P + kcheapPrepend ≤ kMaxSize) :
    op.Ok s := by
  refine ⟨hop.1, ?_⟩
  cases op with
  | ensureWriteableBytes len =>
    have hw := h.write
    have hs := h.size_lt
    have hmost : s.1.readable.length + len ≤ P := hop.2
    have hmax : kMaxSize < 2 ^ 63 := by decide
    show s.1.writeIdx_ + len < 2 ^ 64
    omega
  | _ => trivial

theorem step_returns (hop : Modest P s op) (h : s.1.WF)
    (hP : 2 * P + kcheapPrepend ≤ kMaxSize) : ∃ s', op.step s = .ok s' := by
  obtain ⟨hlegal, hmost⟩ := hop
  cases op with
  | append data =>
    have hdata : s.1.readable.length + data.length ≤ P := hmost
    obtain ⟨b', hb, -⟩ := @Buffer.appendString_returns s.1 h data (by omega)
    exact ⟨_, by rw [step, hb, ok_then]⟩
  | retrieveUntilIdx ahead =>
    obtain ⟨b', hb, -⟩ := Buffer.retrieveUntilIdx_spec h hlegal.1 hlegal.2
    exact ⟨_, by rw [step, hb, ok_then]⟩
  | ensureWriteableBytes len =>
    have hlen : s.1.readable.length + len ≤ P := hmost
    obtain ⟨b', hb⟩ := @Buffer.ensureWriteableBytes_returns s.1 h len (by omega)
    exact ⟨_, by rw [step, hb, ok_then]⟩
  | readFd data =>
    have hdata : s.1.readable.length + data.length ≤ P := hmost
    obtain ⟨b', hb⟩ := Buffer.readFd_returns h hlegal (by omega) 0
    exact ⟨_, by rw [step, hb, ok_then]⟩
  | retrieve _ | retieveAsString _ | retrieveAll => exact ⟨_, rfl⟩

theorem step_grows (hok : op.Ok s) (h : s.1.WF) (hstep : op.step s = .ok s') :
    s.1.Grows s'.1 (s.1.readable.length + 2 * op.request) := by
  obtain ⟨hlegal, hwrap⟩ := hok
  cases op with
  | append data =>
    obtain ⟨b', hb, hs⟩ := then_ok_iff.mp hstep
    obtain rfl := Except.ok.inj hs
    have hw := h.write
    have hs := h.size_lt
    have hdata : data.length ≤ kMaxSize := hlegal
    unfold kMaxSize at hdata
    show s.1.Grows b' (s.1.readable.length + 2 * data.length)
    exact Buffer.append_grows h (by omega) hb
  | ensureWriteableBytes len =>
    obtain ⟨b', hb, hs⟩ := then_ok_iff.mp hstep
    obtain rfl := Except.ok.inj hs
    exact Buffer.ensureWriteableBytes_grows h hwrap hb
  | readFd data =>
    obtain ⟨⟨b', e⟩, hb, hs⟩ := then_ok_iff.mp hstep
    obtain rfl := Except.ok.inj hs
    exact Buffer.readFd_grows h hlegal hb
  | retrieve len =>
    obtain rfl := Except.ok.inj hstep
    refine Buffer.Grows.of_eq ?_
    show (s.1.retrieve len).buffer_.length = _
    unfold Buffer.retrieve
    split <;> rfl
  | retieveAsString len =>
    obtain rfl := Except.ok.inj hstep
    refine Buffer.Grows.of_eq ?_
    show (s.1.retrieve len).buffer_.length = _
    unfold Buffer.retrieve
    split <;> rfl
  | retrieveAll =>
    obtain rfl := Except.ok.inj hstep
    exact Buffer.Grows.of_eq rfl
  | retrieveUntilIdx ahead =>
    obtain ⟨b', hb, hs⟩ := then_ok_iff.mp hstep
    obtain rfl := Except.ok.inj hs
    unfold Buffer.retrieveUntilIdx at hb
    split at hb
    · obtain rfl := Except.ok.inj hb
      exact Buffer.Grows.of_eq rfl
    · cases hb

theorem run_grows {ops : List BufferOp} (h : s.1.WF) (hP : 2 * P + kcheapPrepend ≤ kMaxSize)
    (hok : Along step (Modest P) s ops) :
    ∃ s', run step s ops = .ok s' ∧ s'.1.WF ∧ s.1.Grows s'.1 (2 * P) := by
  refine run_total (P := fun t => t.1.WF ∧ s.1.Grows t.1 (2 * P)) ?_ ⟨h, .of_eq rfl⟩ hok
  rintro t op ⟨hwf, hgrown⟩ hop
  obtain ⟨t', ht⟩ := step_returns hop hwf hP
  have hgrows := step_grows (hop.ok hwf hP) hwf ht
  refine ⟨t', ht, (step_refines hwf (hop.ok hwf hP) ht).1, ?_⟩
  have hmost := hop.2
  have hupper := hgrown.upper
  have hupper' := hgrows.upper
  exact { lower := Nat.le_trans hgrown.lower hgrows.lower, upper := by omega }

/-- A run whose operations never keep and ask for more than `P` bytes at once returns, with a
    memory of at most twice that and the bytes in front; at no time is any given back. -/
theorem memory_bounded {initialSize P : Nat} {ops : List BufferOp}
    (hsize : kcheapPrepend + initialSize ≤ kMaxSize) (hP : 2 * P + kcheapPrepend ≤ kMaxSize)
    (hok : Along step (Modest P) (Buffer.new initialSize, []) ops) :
    ∃ s, run step (Buffer.new initialSize, []) ops = .ok s ∧
      s.1.buffer_.length ≤ max (kcheapPrepend + initialSize) (2 * P + kcheapPrepend - 1) ∧
      ∀ pre post m, ops = pre ++ post → run step (Buffer.new initialSize, []) pre = .ok m →
        m.1.buffer_.length ≤ s.1.buffer_.length := by
  have hnew : (Buffer.new initialSize).WF := Buffer.new_wf hsize
  obtain ⟨s, hrun, -, hgrown⟩ := run_grows (s := (Buffer.new initialSize, [])) hnew hP hok
  refine ⟨s, hrun, ?_, ?_⟩
  · have hnew : (Buffer.new initialSize).buffer_.length = kcheapPrepend + initialSize :=
      List.length_replicate
    rw [← hnew]
    exact hgrown.upper
  · rintro pre post m rfl hm
    obtain ⟨m', hm', hwf, -⟩ := run_grows (s := (Buffer.new initialSize, [])) hnew hP
      (along_append hok)
    obtain rfl := Except.ok.inj (hm'.symm.trans hm)
    obtain ⟨s', hs', -, hgrows⟩ := run_grows hwf hP (along_behind hok hm)
    rw [run_append, hm, ok_then] at hrun
    obtain rfl := Except.ok.inj (hs'.symm.trans hrun)
    exact hgrows.lower

end Modest

/-- Two bytes stay behind while a hundred at a time are appended and taken away. -/
def flowExample : List BufferOp :=
  .append [1, 2] ::
    (List.replicate 8 [.append (List.replicate 100 3), .retieveAsString 100]).flatten

theorem memory_bounded_flow :
    ∃ s, run step (Buffer.new 200, []) flowExample = .ok s ∧
      s.1.buffer_.length ≤ max (kcheapPrepend + 200) (2 * 102 + kcheapPrepend - 1) ∧
      ∀ pre post m, flowExample = pre ++ post → run step (Buffer.new 200, []) pre = .ok m →
        m.1.buffer_.length ≤ s.1.buffer_.length :=
  memory_bounded (by decide) (by decide) (by decide +kernel)

end BufferOp

end LearnMuduo
