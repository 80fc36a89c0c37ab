/-
  LearnMuduo.Log.Integers

  The text of an integer on a `LogStream`.

  `convert` takes the digits with C++ division, whose remainder has the sign of the
  dividend: the digits of a number come out right, and those of a negative one lie below
  `'0'`.  Either way the text and its terminator fit the reserve.
-/
import LearnMuduo.Lib.Decimal
import LearnMuduo.Log.LogStream

namespace LearnMuduo

open Lib
open Lib.HttpReader (digits isDigit)
open Lib.Decimal (Canonical digit)

/-! ## The loop -/

section Loop

variable {i : Int} {n k : Nat}

theorem convertLoop_of_zero (h : i.tdiv 10 = 0) :
    convertLoop i = [UInt8.ofNat (i.tmod 10 + 48).toNat] := by
  rw [convertLoop, if_pos h]

theorem convertLoop_of_ne (h : i.tdiv 10 ≠ 0) :
    convertLoop i = UInt8.ofNat (i.tmod 10 + 48).toNat :: convertLoop (i.tdiv 10) := by
  rw [convertLoop, if_neg h]

/-- A number gives its digits, the last one first. -/
theorem convertLoop_natural (n : Nat) : (convertLoop n).reverse = digits n := by
  induction n using Nat.strong_induction_on with
  | h n ih =>
    have hdiv : (n : Int).tdiv 10 = ((n / 10 : Nat) : Int) := rfl
    have hdigit : UInt8.ofNat ((n : Int).tmod 10 + 48).toNat = digit (n % 10) := by
      have hmod : (n : Int).tmod 10 = ((n % 10 : Nat) : Int) := rfl
      have hto : (((n % 10 : Nat) : Int) + 48).toNat = 48 + n % 10 := by omega
      rw [hmod, hto, digit]
    by_cases hlt : n < 10
    · have hzero : (n : Int).tdiv 10 = 0 := by rw [hdiv]; omega
      rw [convertLoop_of_zero hzero, hdigit, Decimal.digits_of_lt hlt, Nat.mod_eq_of_lt hlt]
      rfl
    · have hne : (n : Int).tdiv 10 ≠ 0 := by rw [hdiv]; omega
      rw [convertLoop_of_ne hne, hdigit, hdiv, List.reverse_cons, ih (n / 10) (by omega)]
      exact (Decimal.digits_of_le (Nat.le_of_not_lt hlt)).symm

/-- There are as many digits as the magnitude has. -/
theorem convertLoop_length (hk : 0 < k) (h : i.natAbs < 10 ^ k) : (convertLoop i).length ≤ k := by
  induction k generalizing i with
  | zero => omega
  | succ k ih =>
    by_cases hzero : i.tdiv 10 = 0
    · rw [convertLoop_of_zero hzero, List.length_singleton]
      omega
    · have habs : (i.tdiv 10).natAbs = i.natAbs / 10 := Int.natAbs_tdiv i 10
      have hpos : (i.tdiv 10).natAbs ≠ 0 := fun hz => hzero (Int.natAbs_eq_zero.mp hz)
      rw [Nat.pow_succ] at h
      have hk' : 0 < k := by
        by_contra hk0
        obtain rfl : k = 0 := by omega
        omega
      rw [convertLoop_of_ne hzero, List.length_cons]
      exact Nat.succ_le_succ (ih hk' (by omega))

/-- A digit that is not zero is taken from a negative number with a minus sign. -/
theorem convertLoop_negative (h : 0 < n) : ∃ b ∈ convertLoop (-n), isDigit b = false := by
  induction n using Nat.strong_induction_on with
  | h n ih =>
    have hdiv : (-(n : Int)).tdiv 10 = -((n / 10 : Nat) : Int) := Int.neg_tdiv n 10
    have hmod : (-(n : Int)).tmod 10 = -((n % 10 : Nat) : Int) := Int.neg_tmod n 10
    by_cases hzero : n % 10 = 0
    · -- the last digit is zero, and there is another one
      obtain ⟨b, hb, hbad⟩ := ih (n / 10) (by omega) (by omega)
      rw [convertLoop_of_ne (by rw [hdiv]; omega), hdiv]
      exact ⟨b, List.mem_cons_of_mem _ hb, hbad⟩
    · have hto : ((-(n : Int)).tmod 10 + 48).toNat = 48 - n % 10 := by
        rw [hmod]
        omega
      have hbyte : (UInt8.ofNat (48 - n % 10)).toNat = 48 - n % 10 :=
        UInt8.toNat_ofNat_of_lt (by unfold UInt8.size; omega)
      refine ⟨UInt8.ofNat (48 - n % 10), ?_, decide_eq_false ?_⟩
      · rw [convertLoop, hto]
        exact List.mem_cons_self
      · rintro ⟨hlow, -⟩
        rw [UInt8.le_iff_toNat_le, hbyte] at hlow
        have hfirst : (48 : UInt8).toNat = 48 := rfl
        omega

end Loop

/-! ## The text -/

theorem convert_natural (n : Nat) : convert n = digits n := by
  have hpos : ¬(n : Int) < 0 := by omega
  rw [convert, if_neg hpos, List.append_nil, convertLoop_natural]

theorem convert_negative {i : Int} (h : i < 0) :
    convert i = Decimal.minus :: (convertLoop i).reverse := by
  rw [convert, if_pos h, List.reverse_append]
  rfl

/-- The text of an integer is the one expected exactly if it is not negative. -/
theorem convert_canonical_iff (i : Int) : Canonical (convert i) i ↔ 0 ≤ i := by
  constructor
  · intro hcanonical
    by_contra hneg
    obtain ⟨n, rfl⟩ : ∃ n : Nat, i = -n := ⟨i.natAbs, by omega⟩
    obtain ⟨b, hb, hbad⟩ := convertLoop_negative (n := n) (by omega)
    have hdigit := hcanonical.digits b (by
      rw [convert_negative (by omega), Decimal.magnitude_minus]
      exact List.mem_reverse.mpr hb)
    rw [hbad] at hdigit
    cases hdigit
  · intro hpos
    obtain ⟨n, rfl⟩ := Int.eq_ofNat_of_zero_le hpos
    rw [convert_natural]
    exact Decimal.canonical_of_digits

/-- Every type has at most 64 bits. -/
theorem Integer.value_natAbs (num : Integer) : num.value.natAbs < 10 ^ 20 := by
  cases num with
  | bool boolean => cases boolean <;> simp [Integer.value]
  | short num =>
    have hlow := num.le_toInt
    have hhigh := num.toInt_lt
    simp only [Integer.value]
    omega
  | unsignedShort num =>
    have hhigh := num.toNat_lt
    simp only [Integer.value]
    omega
  | int num =>
    have hlow := num.le_toInt
    have hhigh := num.toInt_lt
    simp only [Integer.value]
    omega
  | unsignedInt num =>
    have hhigh := num.toNat_lt
    simp only [Integer.value]
    omega
  | long num | longLong num =>
    have hlow := num.le_toInt
    have hhigh := num.toInt_lt
    simp only [Integer.value]
    omega
  | unsignedLong num | unsignedLongLong num =>
    have hhigh := num.toNat_lt
    simp only [Integer.value]
    omega

theorem convert_length (num : Integer) : (convert num.value).length ≤ 21 := by
  have hloop := convertLoop_length (k := 20) (by decide) num.value_natAbs
  rw [convert, List.length_reverse, List.length_append]
  split
  · rw [List.length_singleton]
    omega
  · rw [List.length_nil]
    omega

/-! ## The stream -/

namespace LogStream

variable {s : LogStream}

/-- With the reserve free, text and terminator stay in `data_`. -/
theorem formatInterger_room (num : Integer) (h : s.buffer_.InRange)
    (hroom : kMaxNumericSize ≤ s.buffer_.avial) :
    ∃ s', s.formatInterger num.value = .ok s' ∧ s'.buffer_.InRange ∧
      s'.buffer_.content = s.buffer_.content ++ convert num.value := by
  have hlen := convert_length num
  have havial := h.avial_eq (by decide)
  rw [formatInterger, if_pos hroom]
  rw [kMaxNumericSize] at hroom
  obtain ⟨b', hb, hrange, hcontent⟩ :=
    @LogBuffer.Raw.memcpy_ok _ s.buffer_ (convert num.value ++ [0])
      ((convert num.value).length + 1) (convert num.value).length h
      (by rw [List.length_append, List.length_singleton]) (by omega) (Nat.le_succ _)
  rw [hb, ok_then]
  refine ⟨_, rfl, hrange, ?_⟩
  rw [hcontent, List.take_left]

/-- An integer for which the reserve is free is written in canonical decimal exactly if it
    is not negative; the bytes written never exceed the reserve. -/
theorem integer_canonical_iff (num : Integer) (h : s.buffer_.InRange)
    (hroom : kMaxNumericSize ≤ s.buffer_.avial) :
    ((∃ s' text, s.put (.integer num) = .ok s' ∧
        s'.buffer_.content = s.buffer_.content ++ text ∧ Canonical text num.value) ↔
      0 ≤ num.value) ∧
    ((convert num.value).length + 1 : Int) ≤ kMaxNumericSize := by
  obtain ⟨s₁, hs, -, hcontent⟩ := formatInterger_room num h hroom
  constructor
  · rw [← convert_canonical_iff]
    constructor
    · rintro ⟨s', text, hs', htext, hcanonical⟩
      -- the text appended is that of `convert`
      obtain rfl := Except.ok.inj (hs.symm.trans hs')
      rw [hcontent] at htext
      rw [List.append_cancel_left htext]
      exact hcanonical
    · exact fun hcanonical => ⟨s₁, convert num.value, hs, hcontent, hcanonical⟩
  · have hlen := convert_length num
    rw [kMaxNumericSize]
    omega

/-- A stream just constructed, on zeroed memory. -/
def blank : LogStream := new (List.replicate kSmallBuffer 0) List.length_replicate

theorem blank_inRange : blank.buffer_.InRange := LogBuffer.Raw.new_inRange _

theorem blank_room : kMaxNumericSize ≤ blank.buffer_.avial := by
  rw [blank_inRange.avial_eq (by decide)]
  decide

theorem integer_canonical_iff_example :
    ∃ s' text, blank.put (.integer (.unsignedLong 1024)) = .ok s' ∧
      s'.buffer_.content = blank.buffer_.content ++ text ∧ Canonical text 1024 :=
  (integer_canonical_iff (.unsignedLong 1024) blank_inRange blank_room).1.mpr (by decide)

/-- `-5` comes out as `-+`. -/
theorem negative_garbled :
    convert (-5) = ascii "-+" ∧ Canonical (ascii "-5") (-5) ∧
      ¬ ∀ (s : LogStream) (num : Integer), s.buffer_.InRange →
        kMaxNumericSize ≤ s.buffer_.avial →
        ∃ s' text, s.put (.integer num) = .ok s' ∧
          s'.buffer_.content = s.buffer_.content ++ text ∧ Canonical text num.value := by
  have hfive : Decimal.signed (-5) = ascii "-5" := by decide
  refine ⟨?_, hfive ▸ Decimal.canonical_signed (-5), ?_⟩
  · rw [convert_negative (by decide), convertLoop_of_zero (by decide)]
    decide
  · intro h
    have hpos := (integer_canonical_iff (.int (-5)) blank_inRange blank_room).1.mp
      (h blank (.int (-5)) blank_inRange blank_room)
    exact absurd hpos (by decide)

end LogStream

end LearnMuduo
