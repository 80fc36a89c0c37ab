/-
  LearnMuduo.Base.TimeStamp

  `bing::TimeStamp` (Base/TimeStamp.h, Base/TimeStamp.cc): microseconds since the
  epoch in an `int64_t`.  A `double` of seconds is the rational number it stands for.
-/
import Mathlib.Data.Rat.Floor
import LearnMuduo.Base.CTypes
import LearnMuduo.Lib.Run

namespace LearnMuduo

open Lib

/-- The microseconds of a `TimeStamp`. -/
abbrev TimeStamp := Int

def kMicroSecond2Second : Int := 1000 * 1000

/-- A signed 64-bit result: out of range it is undefined. -/
def int64 (i : Int) : Except Fault Int :=
  if -2 ^ 63 ≤ i ∧ i < 2 ^ 63 then .ok i else .error .overflow

/-- `static_cast<int64_t>(add_seconds)` cuts the fraction off. -/
def truncate (add_seconds : ℚ) : Int := add_seconds.num.tdiv add_seconds.den

def AddTime (timestamp : TimeStamp) (add_seconds : ℚ) : Except Fault TimeStamp :=
  int64 (truncate add_seconds) >>= fun seconds =>
    int64 (seconds * kMicroSecond2Second) >>= fun addSeconds => int64 (timestamp + addSeconds)

theorem int64_ok {i j : Int} (h : int64 i = .ok j) : j = i ∧ -2 ^ 63 ≤ i ∧ i < 2 ^ 63 := by
  unfold int64 at h
  split at h
  · rename_i hrange
    exact ⟨(Except.ok.inj h).symm, hrange⟩
  · cases h

theorem AddTime_ok {t t' : TimeStamp} {d : ℚ} (h : AddTime t d = .ok t') :
    t' = t + truncate d * kMicroSecond2Second := by
  obtain ⟨seconds, hs, h⟩ := then_ok_iff.mp h
  obtain ⟨us, hus, h⟩ := then_ok_iff.mp h
  rw [(int64_ok h).1, (int64_ok hus).1, (int64_ok hs).1]

end LearnMuduo
