/-
  LearnMuduo.Net.ReadPath

  What `readFd` and `handleRead` make of the outcome of `::readv`.

  The result of `::readv` is stored in a `size_t`, so the test for an error never
  succeeds and -1 is taken for 2^64 - 1 bytes; and `readFd` has no return
  statement.  `readContract_iff` says what remains of the intended contract.
-/
import LearnMuduo.Net.BufferSpec
import LearnMuduo.Net.ConnEvents

namespace LearnMuduo.Buffer

open Lib

/-- The outcome is returned and acted on: an error is stored and leaves the Buffer,
    the end of the stream leaves it too, bytes are appended. -/
def ReadContract (b : Buffer) (r : ReadvResult) (ret : Int) : Prop :=
  ret = r.value ∧
    match r with
    | .error errno => b.readInput r ret = .ok (b, errno, .handleError)
    | .bytes [] => ∃ e, b.readInput r ret = .ok (b, e, .handleClose)
    | .bytes data => ∃ b' e, b.readInput r ret = .ok (b', e, .messagecb_) ∧ b'.WF ∧
        b'.readable = b.readable ++ data

/-- The vector can take `n` more bytes behind the write index, moving its content to
    the front or growing. -/
def Fits (b : Buffer) (n : Nat) : Prop :=
  n ≤ b.writeableBytes ∨ n - b.writeableBytes + kcheapPrepend ≤ b.readIdx_ ∨
    b.buffer_.length + (n - b.writeableBytes) ≤ kMaxSize

instance (b : Buffer) (n : Nat) : Decidable (b.Fits n) := inferInstanceAs (Decidable (_ ∨ _))

section

variable {b : Buffer}

/-- -1 goes down the branch of a full vector and asks for more than the side buffer has. -/
theorem readFd_error (h : b.WF) (errno e : Errno) (p : Buffer × Errno) :
    b.readFd (.error errno) e ≠ .ok p := by
  intro hok
  have hs := h.size_lt
  have hwb := h.writeableBytes_eq
  simp only [readFd, ReadvResult.value, ReadvResult.data, toSize_neg_one, Nat.not_lt_zero,
    if_false] at hok
  rw [if_neg (by omega)] at hok
  obtain ⟨c, hc, -⟩ := then_ok_iff.mp hok
  refine append_beyond ?_ c hc
  rw [List.drop_nil, (extrabuf_take (Nat.zero_le _)).1, sizeSub_of_le (by omega) (by omega)]
  unfold kExtraSize
  omega

/-- Bytes are read iff the vector can take them. -/
theorem readFd_bytes_iff (h : b.WF) {data : Bytes} (e : Errno)
    (hoff : b.Offered (.bytes data)) :
    (∃ p, b.readFd (.bytes data) e = .ok p) ↔ b.Fits data.length := by
  by_cases hfit : data.length ≤ b.writeableBytes
  · obtain ⟨b', hb, -⟩ := readFd_fits (e := e) h hoff hfit
    exact ⟨fun _ => Or.inl hfit, fun _ => ⟨_, hb⟩⟩
  · have hspill := Nat.lt_of_not_le hfit
    -- the vector is full now, so what is left goes in only by growing or by moving
    obtain ⟨hfwf, hfull, hflen, -⟩ := fill_spec h hspill
    obtain ⟨hextra, -⟩ := extrabuf_spec h hoff
    obtain ⟨hle, -, -⟩ := offered_length h hoff
    have happend := @append_full_iff _ hfwf (b.extrabuf data)
      (data.length - b.writeableBytes) hfull (by omega) (by rw [hextra]; omega)
      (by unfold kExtraSize at hle; unfold kMaxSize; omega)
    rw [hflen] at happend
    rw [readFd_spills h hoff hspill]
    have hbind : (∃ p, ((b.fill data).append (b.extrabuf data) (data.length - b.writeableBytes)
        >>= fun b => Except.ok (b, e)) = .ok p) ↔
        ∃ b', (b.fill data).append (b.extrabuf data) (data.length - b.writeableBytes) = .ok b' := by
      constructor
      · rintro ⟨p, hp⟩
        obtain ⟨b', hb', -⟩ := then_ok_iff.mp hp
        exact ⟨b', hb'⟩
      · rintro ⟨b', hb'⟩
        exact ⟨_, by rw [hb', ok_then]⟩
    rw [hbind, happend, Fits]
    exact ⟨Or.inr, fun hor => hor.resolve_left hfit⟩

theorem readInput_ok_iff {r : ReadvResult} {ret : Int} :
    (∃ q, b.readInput r ret = .ok q) ↔ ∃ p, b.readFd r 0 = .ok p := by
  constructor
  · rintro ⟨q, hq⟩
    obtain ⟨p, hp, -⟩ := then_ok_iff.mp hq
    exact ⟨p, hp⟩
  · rintro ⟨p, hp⟩
    exact ⟨_, by rw [readInput, hp, ok_then]⟩

/-- The end of the stream leaves the Buffer as it is. -/
theorem readFd_nil (h : b.WF) (e : Errno) : b.readFd (.bytes []) e = .ok (b, e) := by
  have hs := h.size_lt
  have hw := h.write
  have hzero : toSize (ReadvResult.bytes []).value = 0 := toSize_ofNat (by decide)
  have hadd : sizeAdd b.writeIdx_ 0 = b.writeIdx_ := sizeAdd_of_lt (by omega)
  simp only [readFd, hzero, ReadvResult.data, Nat.not_lt_zero, if_false,
    if_pos (Nat.zero_le b.writeableBytes), List.take_nil, overwrite, hadd, List.append_nil,
    List.length_nil, Nat.add_zero, List.take_append_drop]

theorem readContract_nil (h : b.WF) (ret : Int) : b.ReadContract (.bytes []) ret ↔ ret = 0 := by
  constructor
  · rintro ⟨hret, -⟩
    exact hret
  · rintro rfl
    exact ⟨rfl, 0, by rw [readInput, readFd_nil h]; rfl⟩

theorem readContract_bytes (h : b.WF) {x : Byte} {xs : Bytes} (hoff : b.Offered (.bytes (x :: xs)))
    (ret : Int) :
    b.ReadContract (.bytes (x :: xs)) ret ↔
      ret = (x :: xs).length ∧ b.Fits (x :: xs).length := by
  rw [← readFd_bytes_iff h 0 hoff]
  constructor
  · rintro ⟨hret, b', e, hok, -⟩
    exact ⟨hret, readInput_ok_iff.mp ⟨_, hok⟩⟩
  · rintro ⟨rfl, ⟨b', e⟩, hok⟩
    obtain ⟨hwf, hread, -⟩ := readFd_bytes_spec h hoff hok
    refine ⟨rfl, b', e, ?_, hwf, hread⟩
    have hpos : (0 : Int) < (x :: xs).length := by simp
    rw [readInput, hok, ok_then, ReadHandler.of, if_pos hpos]

/-- **When a read is handled as intended.**  The contract is met iff the outcome is no
    error, the value found in place of the missing result happens to be the outcome,
    and the vector can take the bytes; and on no input is it met whatever value is
    found there. -/
theorem readContract_iff (h : b.WF) {r : ReadvResult} (hoff : b.Offered r) (ret : Int) :
    (b.ReadContract r ret ↔ 0 ≤ r.value ∧ ret = r.value ∧ b.Fits r.data.length) ∧
      ∃ found, ¬ b.ReadContract r found := by
  -- any value but the outcome itself breaks the contract
  refine ⟨?_, r.value + 1, fun hc => by have := hc.1; omega⟩
  match r with
  | .error errno =>
    constructor
    · rintro ⟨-, hok⟩
      obtain ⟨p, hp⟩ := readInput_ok_iff.mp ⟨_, hok⟩
      -- -1 as a size is more than the side buffer can hold
      exact absurd hp (readFd_error h errno 0 p)
    · rintro ⟨hneg, -⟩
      simp [ReadvResult.value] at hneg
  | .bytes [] =>
    rw [readContract_nil h]
    exact ⟨fun hret => ⟨Int.le_refl 0, hret, Or.inl (Nat.zero_le _)⟩, fun hall => hall.2.1⟩
  | .bytes (x :: xs) =>
    rw [readContract_bytes h hoff]
    exact ⟨fun hall => ⟨Int.natCast_nonneg _, hall⟩, And.right⟩

end

/-- Three bytes read into a fresh Buffer. -/
theorem readContract_example :
    (Buffer.new.ReadContract (.bytes [1, 2, 3]) 3 ↔
        0 ≤ (ReadvResult.bytes [1, 2, 3]).value ∧ 3 = (ReadvResult.bytes [1, 2, 3]).value ∧
          Buffer.new.Fits 3) ∧
      ∃ found, ¬ Buffer.new.ReadContract (.bytes [1, 2, 3]) found :=
  readContract_iff (b := Buffer.new) (new_wf (by decide)) (r := .bytes [1, 2, 3])
    (by decide +kernel) 3

/-- `EAGAIN` on a fresh Buffer, even when -1 is what stands in place of the result. -/
theorem readContract_eagain : ¬ Buffer.new.ReadContract (.error EWOULDBLOCK) (-1) := by
  rintro ⟨-, hok⟩
  obtain ⟨p, hp⟩ := readInput_ok_iff.mp ⟨_, hok⟩
  exact readFd_error (new_wf (by decide)) EWOULDBLOCK 0 p hp

end LearnMuduo.Buffer
