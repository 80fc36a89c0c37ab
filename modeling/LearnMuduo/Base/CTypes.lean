/-
  LearnMuduo.Base.CTypes

  The C++ ground the sources stand on: bytes, `size_t` and `int` arithmetic on a
  64-bit target, and the ways a call can fail to return.

  Machine integers are `Nat` / `Int` values kept in range by the conversions
  below; `sizeAdd` and `sizeSub` wrap as unsigned arithmetic does, `toInt` is
  `static_cast<int>`.
-/
import Mathlib.Data.List.Basic
import Mathlib.Tactic.NormNum

namespace LearnMuduo

abbrev Byte := UInt8
abbrev Bytes := List Byte

/-- The bytes of an ASCII literal of the source. -/
def ascii (s : String) : Bytes := s.toList.map fun c => UInt8.ofNat c.toNat

/-- Why a call did not return. -/
inductive Fault where
  /-- `std::length_error`; nothing in the sources catches it. -/
  | lengthError
  /-- A failed `assert`. -/
  | assertion
  /-- A read or write outside the object a pointer points into. -/
  | outOfBounds
  /-- A loop that makes no progress. -/
  | spin
  /-- Signed arithmetic, or a conversion to `int64_t`, out of range. -/
  | overflow
  /-- `std::bad_alloc`; nothing in the sources catches it. -/
  | badAlloc
  /-- A use of an object that has been destroyed, or of none. -/
  | dangling
  deriving DecidableEq, Repr

abbrev Errno := Nat

/-- `EAGAIN` is the same number on Linux. -/
def EWOULDBLOCK : Errno := 11

/-! ## size_t and int -/

/-- `PTRDIFF_MAX`: no array is longer, and `std::vector<char>::max_size()` is this. -/
def kMaxSize : Nat := 2 ^ 63 - 1

/-- Conversion to `size_t`. -/
def toSize (i : Int) : Nat := (i % 2 ^ 64).toNat

def sizeAdd (a b : Nat) : Nat := (a + b) % 2 ^ 64

def sizeSub (a b : Nat) : Nat := (a + 2 ^ 64 - b) % 2 ^ 64

/-- `static_cast<int>`. -/
def toInt (i : Int) : Int := i.bmod (2 ^ 32)

theorem toSize_ofNat {n : Nat} (h : n < 2 ^ 64) : toSize n = n := by
  unfold toSize
  omega

theorem toSize_neg_one : toSize (-1) = 2 ^ 64 - 1 := by decide

theorem sizeAdd_of_lt {a b : Nat} (h : a + b < 2 ^ 64) : sizeAdd a b = a + b :=
  Nat.mod_eq_of_lt h

theorem sizeSub_of_le {a b : Nat} (hb : b ≤ a) (ha : a < 2 ^ 64) : sizeSub a b = a - b := by
  unfold sizeSub
  omega

theorem toInt_of_lt {n : Nat} (h : n < 2 ^ 31) : toInt n = n := by
  unfold toInt
  rw [Int.bmod_eq_of_le] <;> omega

theorem toInt_range (i : Int) : -2 ^ 31 ≤ toInt i ∧ toInt i < 2 ^ 31 := by
  unfold toInt
  have hlow := @Int.le_bmod i (2 ^ 32) (by decide)
  have hhigh := @Int.bmod_lt i (2 ^ 32) (by decide)
  omega

/-- A narrowed length that is not negative is not more than the length. -/
theorem toInt_le_length (n : Nat) (h : 0 ≤ toInt n) : toInt n ≤ n := by
  have hdef : toInt n = (n : Int).bmod (2 ^ 32) := by
    unfold toInt
    rfl
  rw [Int.bmod_def] at hdef
  split at hdef
  · omega
  · omega

theorem toInt_of_nonneg {n : Nat} (hn : n < 2 ^ 32) (h : 0 ≤ toInt n) : toInt n = n := by
  have hdef : toInt n = (n : Int).bmod (2 ^ 32) := by
    unfold toInt
    rfl
  rw [Int.bmod_def] at hdef
  split at hdef
  · omega
  · omega

theorem toInt_neg_one : toInt (-1) = -1 := by decide

-- Unfolding these meets numerals like `2 ^ 64`, which unification counts down from.
attribute [irreducible] toSize sizeAdd sizeSub toInt

end LearnMuduo
