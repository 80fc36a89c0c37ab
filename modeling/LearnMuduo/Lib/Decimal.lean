/-
  LearnMuduo.Lib.Decimal

  Integers written in decimal.

  `Canonical` says what is expected of the text of an integer and not how it is made: a
  minus sign exactly in front of a negative one, then digits only, no zero in front, and
  the text reads back.  `signed` is such a text (`canonical_signed`), `padded` the digits
  of a number filled up with zeros.
-/
import Mathlib.Algebra.Group.Nat.Defs
import LearnMuduo.Lib.HttpReader

namespace LearnMuduo.Lib.Decimal

open HttpReader

def minus : UInt8 := 45

def zero : UInt8 := 48

/-- The octet of a digit. -/
def digit (d : Nat) : UInt8 := UInt8.ofNat (48 + d)

/-- An integer in decimal. -/
def signed (i : Int) : Octets := if i < 0 then minus :: digits i.natAbs else digits i.natAbs

/-- The text behind the sign. -/
def magnitude (s : Octets) : Octets := if s.head? = some minus then s.tail else s

def readInt (s : Octets) : Option Int :=
  (readNat (magnitude s)).map fun (n : Nat) =>
    if s.head? = some minus then -(n : Int) else (n : Int)

structure Canonical (s : Octets) (i : Int) : Prop where
  sign : s.head? = some minus ↔ i < 0
  nonempty : magnitude s ≠ []
  digits : ∀ b ∈ magnitude s, isDigit b = true
  leading : (magnitude s).head? = some zero → magnitude s = [zero]
  value : readInt s = some i

/-- The digits with zeros in front, `w` octets or more. -/
def padded (w n : Nat) : Octets := List.replicate (w - (digits n).length) zero ++ digits n

/-! ## Digits -/

section Digits

variable {n : Nat}

theorem digitChar_octet (h : n < 10) : UInt8.ofNat n.digitChar.toNat = digit n := by
  rw [digit, Nat.toNat_digitChar_of_lt_ten h]

theorem digit_toNat (h : n < 10) : (digit n).toNat = 48 + n :=
  UInt8.toNat_ofNat_of_lt (by unfold UInt8.size; omega)

theorem digit_eq_zero_iff (h : n < 10) : digit n = zero ↔ n = 0 := by
  constructor
  · intro heq
    have hnat := congrArg UInt8.toNat heq
    rw [digit_toNat h] at hnat
    have hzero : zero.toNat = 48 := rfl
    omega
  · rintro rfl
    rfl

theorem digits_of_lt (h : n < 10) : digits n = [digit n] := by
  rw [digits, Nat.toDigits_of_lt_base h, List.map_singleton, digitChar_octet h]

/-- The last digit comes last. -/
theorem digits_of_le (h : 10 ≤ n) : digits n = digits (n / 10) ++ [digit (n % 10)] := by
  rw [digits, Nat.toDigits_of_base_le (by decide) h, List.map_append, List.map_singleton,
    digitChar_octet (Nat.mod_lt n (by decide))]
  rfl

theorem digits_length_le_iff {k : Nat} (hk : 0 < k) : (digits n).length ≤ k ↔ n < 10 ^ k := by
  rw [digits, List.length_map, Nat.length_toDigits_le_iff (by decide) hk]

theorem digits_length_pos : 0 < (digits n).length := by
  rw [digits, List.length_map]
  exact Nat.length_toDigits_pos

theorem digits_ne_nil : digits n ≠ [] := List.ne_nil_of_length_pos digits_length_pos

/-- No zero stands in front of a number other than zero. -/
theorem digits_head (h : n ≠ 0) : (digits n).head? ≠ some zero := by
  induction n using Nat.strong_induction_on with
  | h n ih =>
    by_cases hlt : n < 10
    · rw [digits_of_lt hlt, List.head?_cons]
      intro heq
      exact h ((digit_eq_zero_iff hlt).mp (Option.some.inj heq))
    · rw [digits_of_le (by omega), List.head?_append_of_ne_nil _ digits_ne_nil]
      exact ih (n / 10) (by omega) (by omega)

/-- The front of the digits is the digits of the quotient. -/
theorem digits_div (k : Nat) (h : 10 ^ k ≤ n) :
    ∃ low : Octets, low.length = k ∧ digits n = digits (n / 10 ^ k) ++ low := by
  induction k with
  | zero => exact ⟨[], rfl, by rw [Nat.pow_zero, Nat.div_one, List.append_nil]⟩
  | succ k ih =>
    have hpos : 0 < 10 ^ k := Nat.pow_pos (by decide)
    rw [Nat.pow_succ] at h
    obtain ⟨low, hlow, heq⟩ := ih (by omega)
    have hquot : 10 ≤ n / 10 ^ k := (Nat.le_div_iff_mul_le hpos).mpr (by omega)
    refine ⟨digit (n / 10 ^ k % 10) :: low, by rw [List.length_cons, hlow], ?_⟩
    rw [heq, digits_of_le hquot, Nat.div_div_eq_div_mul, Nat.pow_succ, List.append_assoc]
    rfl

theorem minus_not_digit : isDigit minus = false := by decide

/-! ## A given width -/

theorem padded_of_length {w : Nat} (h : w ≤ (digits n).length) : padded w n = digits n := by
  rw [padded, Nat.sub_eq_zero_of_le h, List.replicate_zero, List.nil_append]

/-- Three digits. -/
theorem padded_three (h : n < 1000) :
    padded 3 n = [digit (n / 100), digit (n / 10 % 10), digit (n % 10)] := by
  by_cases hone : n < 10
  · have hlow : n / 100 = 0 ∧ n / 10 % 10 = 0 ∧ n % 10 = n := by omega
    rw [padded, digits_of_lt hone, hlow.1, hlow.2.1, hlow.2.2]
    rfl
  · by_cases htwo : n < 100
    · have hlow : n / 100 = 0 ∧ n / 10 % 10 = n / 10 := by omega
      rw [padded, digits_of_le (by omega), digits_of_lt (by omega), hlow.1, hlow.2]
      rfl
    · have hlow : n / 10 / 10 = n / 100 := by omega
      have hthree : digits n = [digit (n / 100), digit (n / 10 % 10), digit (n % 10)] := by
        rw [digits_of_le (by omega), digits_of_le (by omega), digits_of_lt (by omega), hlow]
        rfl
      rw [padded_of_length (by rw [hthree]; rfl), hthree]

theorem digit_lt {m : Nat} (hm : m < 10) (h : n < m) : digit n < digit m := by
  rw [UInt8.lt_iff_toNat_lt, digit_toNat (by omega), digit_toNat hm]
  omega

/-- Of the same width, the text of the smaller number is not behind the other in the
    dictionary. -/
theorem padded_three_mono {m : Nat} (hm : m < 1000) (h : n ≤ m) : padded 3 n ≤ padded 3 m := by
  rw [padded_three (by omega), padded_three hm, List.cons_le_cons_iff, List.cons_le_cons_iff,
    List.cons_le_cons_iff]
  rcases Nat.lt_or_ge (n / 100) (m / 100) with hlt | hge
  · exact Or.inl (digit_lt (by omega) hlt)
  · have hfirst : n / 100 = m / 100 := by omega
    refine Or.inr ⟨congrArg digit hfirst, ?_⟩
    rcases Nat.lt_or_ge (n / 10 % 10) (m / 10 % 10) with hlt | hge
    · exact Or.inl (digit_lt (by omega) hlt)
    · have hsecond : n / 10 % 10 = m / 10 % 10 := by omega
      refine Or.inr ⟨congrArg digit hsecond, ?_⟩
      rcases Nat.lt_or_ge (n % 10) (m % 10) with hlt | hge
      · exact Or.inl (digit_lt (by omega) hlt)
      · have hthird : n % 10 = m % 10 := by omega
        exact Or.inr ⟨congrArg digit hthird, List.le_refl _⟩

theorem padded_isDigit {w : Nat} {b : UInt8} (h : b ∈ padded w n) : isDigit b = true := by
  rcases List.mem_append.mp h with hzero | hdigit
  · rw [List.eq_of_mem_replicate hzero]
    rfl
  · exact digits_isDigit hdigit

end Digits

/-! ## Signed numbers -/

section Signed

variable {i : Int} {s : Octets}

theorem head_ne_minus (h : ∀ b ∈ s, isDigit b = true) : s.head? ≠ some minus := by
  intro heq
  have hdigit := h minus (List.mem_of_mem_head? heq)
  rw [minus_not_digit] at hdigit
  cases hdigit

theorem magnitude_minus : magnitude (minus :: s) = s := if_pos rfl

theorem magnitude_digits (h : s.head? ≠ some minus) : magnitude s = s := if_neg h

/-- The text of a number without a sign, with one if the integer is negative. -/
theorem canonical_of_digits {n : Nat} : Canonical (digits n) n := by
  have hhead : (digits n).head? ≠ some minus := head_ne_minus fun b hb => digits_isDigit hb
  have hmag : magnitude (digits n) = digits n := magnitude_digits hhead
  refine ⟨?_, ?_, ?_, ?_, ?_⟩
  · exact iff_of_false hhead (by omega)
  · rw [hmag]
    exact digits_ne_nil
  · rw [hmag]
    exact fun b hb => digits_isDigit hb
  · rw [hmag]
    intro hzero
    obtain rfl : n = 0 := by_contra fun hne => digits_head hne hzero
    rfl
  · rw [readInt, hmag, readNat_digits, Option.map_some, if_neg hhead]

theorem canonical_signed (i : Int) : Canonical (signed i) i := by
  by_cases hneg : i < 0
  · rw [signed, if_pos hneg]
    refine ⟨iff_of_true rfl hneg, ?_, ?_, ?_, ?_⟩
    · rw [magnitude_minus]
      exact digits_ne_nil
    · rw [magnitude_minus]
      exact fun b hb => digits_isDigit hb
    · rw [magnitude_minus]
      exact fun hzero => absurd hzero (digits_head (by omega))
    · rw [readInt, magnitude_minus, readNat_digits, Option.map_some, List.head?_cons, if_pos rfl]
      exact congrArg some (by omega)
  · rw [signed, if_neg hneg]
    obtain ⟨n, rfl⟩ := Int.eq_ofNat_of_zero_le (Int.not_lt.mp hneg)
    exact canonical_of_digits

end Signed

end LearnMuduo.Lib.Decimal
