/-
  LearnMuduo.Log.LogTime

  The time in front of a log line: `Logger::Impl::forattedTime` (Log/logger.cc).

  The field behind the seconds is made from the microseconds with `".%03d"`, which fills up
  to three digits and does not cut, and then four characters of it are taken.  They are the
  milliseconds when there are six digits, or none that counts.
-/
import LearnMuduo.Base.TimeStamp
import LearnMuduo.Lib.Decimal
import LearnMuduo.Log.Operands

namespace LearnMuduo

open Lib
open Lib.HttpReader (digits isDigit)
open Lib.Decimal (padded)

def DOT : Byte := 46

/-- `%03d`: three characters or more, the sign among them. -/
def percent03d (i : Int) : Bytes :=
  if i < 0 then Decimal.minus :: padded 2 i.natAbs else padded 3 i.natAbs

/-- `class Tmp`: characters and how many of them to take. -/
structure Tmp where
  str_ : Bytes
  len_ : Int

/-- `operator<<(LogStream&, Tmp)`. -/
def LogStream.putTmp (s : LogStream) (v : Tmp) : Except Fault LogStream := s.append v.str_ v.len_

namespace Logger

/-- `buf` of `forattedTime`: the format reads an `int`. -/
def fractionBuf (time_ : TimeStamp) : Bytes :=
  let microSecond := time_.tmod kMicroSecond2Second
  overwrite (List.replicate 32 0) 0 (DOT :: percent03d (toInt microSecond))

/-- `forattedTime`; `t_time` is what `localtime_r` and `snprintf` make of the seconds. -/
def forattedTime (t_time : Int → Bytes) (time_ : TimeStamp) (logstream_ : LogStream) :
    Except Fault LogStream :=
  let seconds := time_.tdiv kMicroSecond2Second
  logstream_.putTmp { str_ := t_time seconds, len_ := 19 } >>= fun logstream_ =>
    logstream_.putTmp { str_ := fractionBuf time_, len_ := 4 }

/-- The four characters behind the seconds. -/
def fraction (time_ : TimeStamp) : Bytes := (fractionBuf time_).take 4

/-- The whole milliseconds in the second of the timestamp. -/
def milliSecond (time_ : TimeStamp) : Int := (time_.tmod kMicroSecond2Second).tdiv 1000

/-- The field is a dot and the three digits of the milliseconds. -/
def ShowsMilliseconds (time_ : TimeStamp) : Prop :=
  ∃ ms : Nat, (ms : Int) = milliSecond time_ ∧ fraction time_ = DOT :: padded 3 ms

/-- No microseconds, or six digits of them. -/
def SixDigits (time_ : TimeStamp) : Prop :=
  time_.tmod kMicroSecond2Second = 0 ∨ 100000 ≤ time_.tmod kMicroSecond2Second

/-! ## Three characters of a number -/

section Cut

variable {n : Nat}

/-- The front of six digits is the three digits of the thousands. -/
theorem take_three_large (hlow : 100000 ≤ n) (hhigh : n < 1000000) :
    (padded 3 n).take 3 = padded 3 (n / 1000) := by
  obtain ⟨low, -, heq⟩ := Decimal.digits_div 3 (n := n) (by omega)
  have hle : (digits (n / 10 ^ 3)).length ≤ 3 :=
    (Decimal.digits_length_le_iff (by decide)).mpr (by omega)
  have hge : ¬(digits (n / 10 ^ 3)).length ≤ 2 := by
    rw [Decimal.digits_length_le_iff (by decide)]
    omega
  have hthree : (digits (n / 10 ^ 3)).length = 3 := by omega
  rw [Decimal.padded_of_length (by rw [heq, List.length_append]; omega), heq,
    List.take_left' hthree]
  exact (Decimal.padded_of_length (Nat.le_of_eq hthree.symm)).symm

/-- With four or five digits the text begins with a digit that is not zero. -/
theorem take_three_middle (hlow : 1000 ≤ n) (hhigh : n < 100000) :
    (padded 3 n).take 3 ≠ padded 3 (n / 1000) := by
  have hlong : ¬(digits n).length ≤ 3 := by
    rw [Decimal.digits_length_le_iff (by decide)]
    omega
  have hhead : ((padded 3 n).take 3).head? = (digits n).head? := by
    rw [Decimal.padded_of_length (by omega), List.head?_take, if_neg (by decide)]
  have hfirst : n / 1000 / 100 = 0 := by omega
  intro heq
  apply Decimal.digits_head (n := n) (by omega)
  rw [← hhead, heq, Decimal.padded_three (by omega), hfirst]
  rfl

/-- With fewer they are themselves taken for the milliseconds. -/
theorem take_three_small (hlow : n ≠ 0) (hhigh : n < 1000) :
    (padded 3 n).take 3 ≠ padded 3 (n / 1000) := by
  have hzero : n / 1000 = 0 := by omega
  have hnone : padded 3 0 = [Decimal.zero, Decimal.zero, Decimal.zero] := by decide
  rw [hzero, hnone, Decimal.padded_three hhigh, List.take_of_length_le (Nat.le_refl 3)]
  intro heq
  obtain ⟨ha, hb⟩ := List.cons.inj heq
  obtain ⟨hb, hc⟩ := List.cons.inj hb
  have hlast := (Decimal.digit_eq_zero_iff (by omega)).mp (List.cons.inj hc).1
  have hmiddle := (Decimal.digit_eq_zero_iff (by omega)).mp hb
  have hfirst := (Decimal.digit_eq_zero_iff (by omega)).mp ha
  omega

theorem take_three_iff (hhigh : n < 1000000) :
    (padded 3 n).take 3 = padded 3 (n / 1000) ↔ n = 0 ∨ 100000 ≤ n := by
  by_cases hzero : n = 0
  · subst hzero
    exact iff_of_true (by decide) (Or.inl rfl)
  · by_cases hsmall : n < 1000
    · exact iff_of_false (take_three_small hzero hsmall) (by omega)
    · by_cases hmiddle : n < 100000
      · exact iff_of_false (take_three_middle (by omega) hmiddle) (by omega)
      · exact iff_of_true (take_three_large (by omega) hhigh) (Or.inr (by omega))

end Cut

/-! ## The field -/

section Field

variable {time_ : TimeStamp} {n : Nat}

theorem padded_length (w n : Nat) : w ≤ (padded w n).length := by
  rw [padded, List.length_append, List.length_replicate]
  omega

theorem percent03d_length (i : Int) : 3 ≤ (percent03d i).length := by
  unfold percent03d
  split
  · have hlen := padded_length 2 i.natAbs
    rw [List.length_cons]
    omega
  · exact padded_length 3 i.natAbs

theorem fractionBuf_length (time_ : TimeStamp) : 4 ≤ (fractionBuf time_).length := by
  have hdigits := percent03d_length (toInt (time_.tmod kMicroSecond2Second))
  rw [fractionBuf, overwrite, List.take_zero, List.nil_append, List.length_append,
    List.length_cons]
  omega

theorem microSecond_range (time_ : TimeStamp) :
    -1000000 < time_.tmod kMicroSecond2Second ∧ time_.tmod kMicroSecond2Second < 1000000 := by
  have habs := Int.natAbs_tmod time_ kMicroSecond2Second
  have hsize : kMicroSecond2Second.natAbs = 1000000 := rfl
  have hlt : time_.natAbs % 1000000 < 1000000 := Nat.mod_lt _ (by decide)
  rw [hsize] at habs
  omega

/-- The conversion to `int` changes no number of microseconds. -/
theorem toInt_microSecond (time_ : TimeStamp) :
    toInt (time_.tmod kMicroSecond2Second) = time_.tmod kMicroSecond2Second := by
  have hrange := microSecond_range time_
  unfold toInt
  exact Int.bmod_eq_of_le (by omega) (by omega)

theorem fraction_eq (time_ : TimeStamp) :
    fraction time_ = DOT :: (percent03d (time_.tmod kMicroSecond2Second)).take 3 := by
  have hlen := percent03d_length (time_.tmod kMicroSecond2Second)
  rw [fraction, fractionBuf, toInt_microSecond, overwrite, List.take_zero, List.nil_append,
    List.take_append_of_le_length (by rw [List.length_cons]; omega), List.take_succ_cons]

/-- The field shows the milliseconds exactly if there are six digits of microseconds, or
    none that counts. -/
theorem showsMilliseconds_iff : ShowsMilliseconds time_ ↔ SixDigits time_ := by
  have hrange := microSecond_range time_
  rw [ShowsMilliseconds, SixDigits, milliSecond, fraction_eq]
  by_cases hneg : time_.tmod kMicroSecond2Second < 0
  · -- before the epoch the sign is one of the characters
    refine iff_of_false ?_ (by omega)
    rintro ⟨ms, -, heq⟩
    rw [percent03d, if_pos hneg, List.take_succ_cons] at heq
    have hminus : Decimal.minus ∈ padded 3 ms := by
      rw [← (List.cons.inj heq).2]
      exact List.mem_cons_self
    exact absurd (Decimal.padded_isDigit hminus) (by decide)
  · obtain ⟨n, hn⟩ := Int.eq_ofNat_of_zero_le (Int.not_lt.mp hneg)
    have hdiv : ((n : Int).tdiv 1000) = ((n / 1000 : Nat) : Int) := rfl
    rw [hn, percent03d, if_neg (by omega), Int.natAbs_natCast, hdiv]
    have hiff := take_three_iff (n := n) (by omega)
    constructor
    · rintro ⟨ms, hms, heq⟩
      obtain rfl : ms = n / 1000 := by omega
      have := hiff.mp (List.cons.inj heq).2
      omega
    · intro hsix
      exact ⟨n / 1000, rfl, congrArg (DOT :: ·) (hiff.mpr (by omega))⟩

/-- On a stream with room the time text is the seconds, and then the field. -/
theorem forattedTime_content {t_time : Int → Bytes} {s : LogStream} (h : s.buffer_.InRange)
    (hroom : 23 ≤ s.buffer_.avial) (hlen : ∀ seconds, 19 ≤ (t_time seconds).length) :
    ∃ s', forattedTime t_time time_ s = .ok s' ∧ s'.buffer_.content = s.buffer_.content ++
      (t_time (time_.tdiv kMicroSecond2Second)).take 19 ++ fraction time_ := by
  have hsize : kSmallBuffer < 2 ^ 31 := by decide
  obtain ⟨b₁, hb₁, hrange₁, hcontent₁⟩ :=
    LogBuffer.Raw.append_fits (n := 19) h hsize (by omega) (hlen (time_.tdiv kMicroSecond2Second))
  -- nineteen characters less, and four are still free
  have hroom₁ : 4 ≤ b₁.avial := by
    have hcur := congrArg List.length hcontent₁
    have hlow := hrange₁.low
    have hlow' := h.low
    have havial := h.avial_eq hsize
    have hmin := hlen (time_.tdiv kMicroSecond2Second)
    rw [hrange₁.content_length, List.length_append, h.content_length, List.length_take] at hcur
    rw [hrange₁.avial_eq hsize]
    omega
  obtain ⟨b₂, hb₂, -, hcontent₂⟩ :=
    LogBuffer.Raw.append_fits (n := 4) hrange₁ hsize hroom₁ (fractionBuf_length time_)
  have h₁ := LogStream.append_ok hb₁
  have h₂ := LogStream.append_ok (s := { buffer_ := b₁ }) hb₂
  refine ⟨{ buffer_ := b₂ }, ?_, ?_⟩
  · rw [forattedTime, LogStream.putTmp]
    exact (congrArg (· >>= _) h₁).trans h₂
  · show b₂.content = _
    rw [hcontent₂, hcontent₁]
    rfl

end Field

/-! ## Sorting -/

section Sorting

variable {t t' : TimeStamp}

/-- Of two timestamps of one second the later one has no fewer milliseconds. -/
theorem fraction_mono (hle : t ≤ t')
    (hsecond : t.tdiv kMicroSecond2Second = t'.tdiv kMicroSecond2Second)
    (h : ShowsMilliseconds t) (h' : ShowsMilliseconds t') : fraction t ≤ fraction t' := by
  have hpos := showsMilliseconds_iff.mp h
  have hpos' := showsMilliseconds_iff.mp h'
  obtain ⟨ms, hms, heq⟩ := h
  obtain ⟨ms', hms', heq'⟩ := h'
  have hparts := Int.tdiv_mul_add_tmod t kMicroSecond2Second
  have hparts' := Int.tdiv_mul_add_tmod t' kMicroSecond2Second
  have hrange' := microSecond_range t'
  rw [hsecond] at hparts
  have hmicro : t.tmod kMicroSecond2Second ≤ t'.tmod kMicroSecond2Second := by
    apply Int.le_of_add_le_add_left (a := t'.tdiv kMicroSecond2Second * kMicroSecond2Second)
    rw [hparts, hparts']
    exact hle
  rw [SixDigits] at hpos hpos'
  rw [milliSecond, Int.tdiv_eq_ediv_of_nonneg (by omega)] at hms hms'
  rw [heq, heq', List.cons_le_cons_iff]
  exact Or.inr ⟨rfl, Decimal.padded_three_mono (by omega) (by omega)⟩

/-- Two timestamps of one second show their milliseconds, in their order, exactly if both
    have six digits of microseconds or none that counts. -/
theorem fields_sort_iff (hle : t ≤ t')
    (hsecond : t.tdiv kMicroSecond2Second = t'.tdiv kMicroSecond2Second) :
    (ShowsMilliseconds t ∧ ShowsMilliseconds t' ∧ fraction t ≤ fraction t') ↔
      SixDigits t ∧ SixDigits t' := by
  rw [← showsMilliseconds_iff, ← showsMilliseconds_iff]
  constructor
  · rintro ⟨h, h', -⟩
    exact ⟨h, h'⟩
  · rintro ⟨h, h'⟩
    exact ⟨h, h', fraction_mono hle hsecond h h'⟩

theorem fields_sort_iff_example :
    ShowsMilliseconds 1000100000 ∧ ShowsMilliseconds 1000999999 ∧
      fraction 1000100000 ≤ fraction 1000999999 :=
  (fields_sort_iff (by decide) (by decide)).mpr
    ⟨Or.inr (by decide), Or.inr (by decide)⟩

/-- `.999` comes before `.100`. -/
theorem fields_disorder :
    fraction 1000099999 = ascii ".999" ∧ fraction 1000100000 = ascii ".100" ∧
      ¬ ∀ t t' : TimeStamp, t ≤ t' →
        t.tdiv kMicroSecond2Second = t'.tdiv kMicroSecond2Second →
        ShowsMilliseconds t ∧ ShowsMilliseconds t' ∧ fraction t ≤ fraction t' := by
  refine ⟨?_, ?_, ?_⟩
  · rw [fraction_eq]
    decide
  · rw [fraction_eq]
    decide
  · intro h
    obtain ⟨-, -, hle⟩ := h 1000099999 1000100000 (by decide) (by decide)
    rw [fraction_eq, fraction_eq] at hle
    exact absurd hle (by decide)

end Sorting

end Logger

end LearnMuduo
