/-
  LearnMuduo.Log.LogStream

  `bing::LogStream` and the `LogBuffer` it fills (Log/logstream.h), with the bytes of
  `data_` as they lie in memory.

  `cur_` is its distance from `data_`.  A length passes through an `int` on its way to
  `memcpy`, which takes a `size_t`; a copy that does not stay in `data_` is a fault.  An
  integer is formatted in place, behind `cur_`, before `cur_` moves.
-/
import LearnMuduo.Lib.Overwrite
import LearnMuduo.Lib.Run
import LearnMuduo.Log.AsyncLogging

namespace LearnMuduo

open Lib

def kMaxNumericSize : Int := 32

namespace LogBuffer

/-- A `LogBuffer<SIZE>` in memory. -/
structure Raw (SIZE : Nat) where
  data_ : Bytes
  size : data_.length = SIZE
  cur_ : Int

namespace Raw

variable {SIZE : Nat}

/-- The constructor does not initialise `data_`. -/
def new (data : Bytes) (size : data.length = SIZE) : Raw SIZE :=
  { data_ := data, size := size, cur_ := 0 }

/-- `static_cast<int>(end() - cur_)`. -/
def avial (b : Raw SIZE) : Int := toInt (SIZE - b.cur_)

/-- `add`, with the conversion of its argument. -/
def add (b : Raw SIZE) (len : Int) : Raw SIZE := { b with cur_ := b.cur_ + len }

/-- `memcpy(cur_, buf, n)`. -/
def memcpy (b : Raw SIZE) (buf : Bytes) (n : Nat) : Except Fault (Raw SIZE) :=
  if h : n ≤ buf.length ∧ 0 ≤ b.cur_ ∧ b.cur_ + n ≤ SIZE then
    .ok { b with
      data_ := overwrite b.data_ b.cur_.toNat (buf.take n)
      size := by
        have hsize := b.size
        have hlen : (buf.take n).length ≤ n := List.length_take_le n buf
        rw [overwrite_length (by omega), hsize] }
  else .error .outOfBounds

def append (b : Raw SIZE) (buf : Bytes) (len : Int) : Except Fault (Raw SIZE) :=
  if len ≤ b.avial then b.memcpy buf (toSize len) >>= fun b => .ok (b.add len) else .ok b

/-- What has been put in. -/
def content (b : Raw SIZE) : Bytes := b.data_.take b.cur_.toNat

structure InRange (b : Raw SIZE) : Prop where
  low : 0 ≤ b.cur_
  high : b.cur_ ≤ SIZE

end Raw

end LogBuffer

/-! ## Integers -/

/-- The digits of `i`, the last one first: the loop of `convert`. -/
def convertLoop (i : Int) : Bytes :=
  let a := i.tmod 10
  UInt8.ofNat (a + 48).toNat :: if i.tdiv 10 = 0 then [] else convertLoop (i.tdiv 10)
  termination_by i.natAbs
  decreasing_by
    rename_i hne
    have habs : (i.tdiv 10).natAbs = i.natAbs / 10 := Int.natAbs_tdiv i 10
    have hzero : (i.tdiv 10).natAbs ≠ 0 := fun h => hne (Int.natAbs_eq_zero.mp h)
    omega

/-- `convert(buf, value)`: what stands in `buf` in front of the terminator. -/
def convert (value : Int) : Bytes :=
  (convertLoop value ++ if value < 0 then [45] else []).reverse

/-- An operand of one of the integer types, on a 64-bit target. -/
inductive Integer where
  | bool (boolean : Bool)
  | short (num : Int16)
  | unsignedShort (num : UInt16)
  | int (num : Int32)
  | unsignedInt (num : UInt32)
  | long (num : Int64)
  | unsignedLong (num : UInt64)
  | longLong (num : Int64)
  | unsignedLongLong (num : UInt64)
  deriving DecidableEq

def Integer.value : Integer → Int
  | .bool boolean => if boolean then 1 else 0
  | .short num => num.toInt
  | .unsignedShort num => num.toNat
  | .int num => num.toInt
  | .unsignedInt num => num.toNat
  | .long num => num.toInt
  | .unsignedLong num => num.toNat
  | .longLong num => num.toInt
  | .unsignedLongLong num => num.toNat

/-! ## The stream -/

/-- An operand of `<<`.  A `double`, or a `float` widened to one, is known by what
    `snprintf` makes of it. -/
inductive Operand where
  | integer (num : Integer)
  | double (text : Bytes) (fits : text.length ≤ 31)
  | char (v : Byte)
  /-- A `const char*`, which may be null. -/
  | cString (str : Option Bytes)
  | string (v : Bytes)
  | buffer (v : LogBuffer kSmallBuffer)

structure LogStream where
  buffer_ : LogBuffer.Raw kSmallBuffer

namespace LogStream

def new (data : Bytes) (size : data.length = kSmallBuffer) : LogStream :=
  { buffer_ := .new data size }

def append (s : LogStream) (data : Bytes) (len : Int) : Except Fault LogStream :=
  s.buffer_.append data len >>= fun b => .ok { buffer_ := b }

/-- `convert` writes the text and a terminator at `cur_`. -/
def formatInterger (s : LogStream) (num : Int) : Except Fault LogStream :=
  if kMaxNumericSize ≤ s.buffer_.avial then
    s.buffer_.memcpy (convert num ++ [0]) ((convert num).length + 1) >>= fun b =>
      .ok { buffer_ := b.add (convert num).length }
  else .ok s

/-- `operator<<`. -/
def put (s : LogStream) : Operand → Except Fault LogStream
  | .integer num => s.formatInterger num.value
  | .double text _ => s.append text text.length
  | .char v => s.append [v] 1
  | .cString (some str) => s.append str (toInt str.length)
  | .cString none => s.append (ascii "(null)") 6
  | .string v => s.append v (toInt v.length)
  | .buffer v => s.append v.data (toInt v.len)

end LogStream

/-! ## One append -/

namespace LogBuffer.Raw

variable {SIZE : Nat} {b : Raw SIZE} {buf : Bytes} {len : Int}

theorem new_inRange {data : Bytes} (size : data.length = SIZE) : (new data size).InRange :=
  ⟨Int.le_refl 0, Int.natCast_nonneg SIZE⟩

theorem InRange.avial_eq (h : b.InRange) (hsize : SIZE < 2 ^ 31) : b.avial = SIZE - b.cur_ := by
  have hlow := h.low
  have hhigh := h.high
  obtain ⟨room, hroom⟩ := Int.eq_ofNat_of_zero_le (Int.sub_nonneg_of_le hhigh)
  rw [avial, hroom]
  exact toInt_of_lt (by omega)

theorem InRange.content_length (h : b.InRange) : b.content.length = b.cur_.toNat := by
  have hsize := b.size
  have hhigh := h.high
  rw [content, List.length_take]
  omega

/-- The bytes copied, with `cur_` moved behind some of them. -/
theorem memcpy_ok {n k : Nat} (h : b.InRange) (hn : n ≤ buf.length) (hroom : b.cur_ + n ≤ SIZE)
    (hk : k ≤ n) :
    ∃ b', b.memcpy buf n = .ok b' ∧ (b'.add k).InRange ∧
      (b'.add k).content = b.content ++ buf.take k := by
  have hlow := h.low
  have hsize := b.size
  have hcur : (b.data_.take b.cur_.toNat).length = b.cur_.toNat := h.content_length
  rw [memcpy, dif_pos ⟨hn, hlow, hroom⟩]
  refine ⟨_, rfl, ⟨?_, ?_⟩, ?_⟩
  · show 0 ≤ b.cur_ + k
    omega
  · show b.cur_ + k ≤ SIZE
    omega
  · have hto : (b.cur_ + k).toNat = b.cur_.toNat + k := by omega
    show (overwrite b.data_ b.cur_.toNat (buf.take n)).take (b.cur_ + k).toNat = _
    -- the content of before, the bytes copied, and behind them what is left
    rw [overwrite, hto, List.append_assoc, List.take_append, hcur, Nat.add_sub_cancel_left,
      List.take_of_length_le (by omega), List.take_append_of_le_length
      (by rw [List.length_take]; omega), List.take_take, Nat.min_eq_left hk]
    rfl

theorem append_full (buf : Bytes) (h : b.avial < len) : b.append buf len = .ok b :=
  if_neg (Int.not_le.mpr h)

theorem append_fits {n : Nat} (h : b.InRange) (hsize : SIZE < 2 ^ 31) (hroom : n ≤ b.avial)
    (hn : n ≤ buf.length) :
    ∃ b', b.append buf n = .ok b' ∧ b'.InRange ∧ b'.content = b.content ++ buf.take n := by
  have hlow := h.low
  have havial := h.avial_eq hsize
  obtain ⟨b', hb, hrange, hcontent⟩ :=
    @memcpy_ok _ b buf n n h hn (by omega) (Nat.le_refl n)
  rw [append, if_pos hroom, toSize_ofNat (by omega), hb, ok_then]
  exact ⟨_, rfl, hrange, hcontent⟩

/-- A negative length passes the test, and is a huge one for `memcpy`. -/
theorem append_negative (buf : Bytes) (h : b.InRange) (hsize : SIZE < 2 ^ 31)
    (hneg : len < 0) (hlow : -2 ^ 31 ≤ len) : b.append buf len = .error .outOfBounds := by
  have hcur := h.low
  have hhigh := h.high
  have havial := h.avial_eq hsize
  have hhuge : (toSize len : Int) = 2 ^ 64 + len := by
    unfold toSize
    omega
  have hbad : ¬(toSize len ≤ buf.length ∧ 0 ≤ b.cur_ ∧ b.cur_ + toSize len ≤ SIZE) := by
    rintro ⟨-, -, hroom⟩
    rw [hhuge] at hroom
    omega
  rw [append, if_pos (by omega), memcpy, dif_neg hbad, error_then]

/-- The buffer without the memory behind it, as the logging thread is modelled with it. -/
def InRange.buffer (h : b.InRange) : LogBuffer SIZE where
  data := b.content
  fits := by
    have hhigh := h.high
    rw [h.content_length]
    omega

/-- Passed the length of the text, `append` in memory does what it does to that buffer. -/
theorem append_refines (h : b.InRange) (hsize : SIZE < 2 ^ 31) (buf : Bytes) :
    ∃ b', b.append buf buf.length = .ok b' ∧ ∃ h' : b'.InRange,
      h'.buffer = h.buffer.append buf := by
  have hlow := h.low
  have hhigh := h.high
  have havial := h.avial_eq hsize
  -- the two measure the same room
  have hroom : h.buffer.avial = SIZE - b.cur_.toNat :=
    congrArg (SIZE - ·) h.content_length
  by_cases hfits : buf.length ≤ h.buffer.avial
  · obtain ⟨b', hb, hrange, hcontent⟩ :=
      append_fits (n := buf.length) h hsize (by omega) (Nat.le_refl _)
    refine ⟨b', hb, hrange, ?_⟩
    rw [List.take_length] at hcontent
    rw [LogBuffer.append, dif_pos hfits]
    exact (LogBuffer.mk.injEq _ _ _ _).mpr hcontent
  · refine ⟨b, append_full buf (by omega), h, ?_⟩
    rw [LogBuffer.append, dif_neg hfits]

end LogBuffer.Raw

end LearnMuduo
