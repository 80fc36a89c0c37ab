/-
  LearnMuduo.Log.Operands

  What a sequence of operands leaves on a `LogStream`.

  An operand is appended whole or not at all, and nothing is written outside `data_`, as
  long as the `int` its length is narrowed to is that length, or zero, or more than there
  is room (`Narrows`).  Any other length is negative or too small: `memcpy` then leaves
  `data_`, or a part of the text is appended.
-/
import LearnMuduo.Log.Integers

namespace LearnMuduo

open Lib

/-- What the operand is to leave on the stream. -/
def Operand.text : Operand → Bytes
  | .integer num => convert num.value
  | .double text _ => text
  | .char v => [v]
  | .cString str => str.getD (ascii "(null)")
  | .string v => v
  | .buffer v => v.data

namespace LogStream

/-- The narrowed length of the operand does no harm. -/
def Narrows (s : LogStream) (op : Operand) : Prop :=
  toInt op.text.length = op.text.length ∨ toInt op.text.length = 0 ∨
    s.buffer_.avial < toInt op.text.length

/-- The operand is written inside `data_`, whole or not at all. -/
def Whole (s : LogStream) (op : Operand) : Prop :=
  ∃ s', s.put op = .ok s' ∧ s'.buffer_.InRange ∧
    (s'.buffer_.content = s.buffer_.content ∨
      s'.buffer_.content = s.buffer_.content ++ op.text)

variable {s s' : LogStream} {op : Operand}

/-! ## One operand -/

section Append

variable {text : Bytes}

theorem append_ok {b : LogBuffer.Raw kSmallBuffer} {len : Int}
    (h : s.buffer_.append text len = .ok b) : s.append text len = .ok { buffer_ := b } := by
  rw [append, h, ok_then]

/-- A front of the text adds nothing, or all of it. -/
theorem take_whole_iff {content : Bytes} {n : Nat} (hn : n ≤ text.length) :
    (content ++ text.take n = content ∨ content ++ text.take n = content ++ text) ↔
      n = 0 ∨ n = text.length := by
  constructor
  · rintro (hnone | hall)
    · have hnil := congrArg List.length (List.append_right_eq_self.mp hnone)
      rw [List.length_take, List.length_nil] at hnil
      omega
    · have hlen := congrArg List.length (List.append_cancel_left hall)
      rw [List.length_take] at hlen
      omega
  · rintro (rfl | rfl)
    · exact Or.inl (by rw [List.take_zero, List.append_nil])
    · exact Or.inr (by rw [List.take_length])

/-- The three things that become of a text whose length was narrowed. -/
theorem append_narrowed (h : s.buffer_.InRange) :
    (∃ s', s.append text (toInt text.length) = .ok s' ∧ s'.buffer_.InRange ∧
      (s'.buffer_.content = s.buffer_.content ∨
        s'.buffer_.content = s.buffer_.content ++ text)) ↔
    (toInt text.length = text.length ∨ toInt text.length = 0 ∨
      s.buffer_.avial < toInt text.length) := by
  have hrange := toInt_range text.length
  have hsize : kSmallBuffer < 2 ^ 31 := by decide
  by_cases hfull : s.buffer_.avial < toInt text.length
  · -- no room: the stream stays as it is
    have hs := append_ok (LogBuffer.Raw.append_full text hfull)
    exact iff_of_true ⟨s, hs, h, Or.inl rfl⟩ (Or.inr (Or.inr hfull))
  · by_cases hneg : toInt text.length < 0
    · have hbad := LogBuffer.Raw.append_negative text h hsize hneg hrange.1
      constructor
      · rintro ⟨s', hs', -⟩
        rw [append, hbad, error_then] at hs'
        cases hs'
      · omega
    · -- some bytes are copied, from the front of the text
      obtain ⟨n, hn⟩ := Int.eq_ofNat_of_zero_le (Int.not_lt.mp hneg)
      have hle := toInt_le_length text.length (by omega)
      obtain ⟨b', hb, hrange', hcontent⟩ :=
        @LogBuffer.Raw.append_fits _ s.buffer_ text n h hsize (by omega) (by omega)
      rw [hn]
      constructor
      · rintro ⟨s', hs', -, hwhole⟩
        obtain rfl := Except.ok.inj ((append_ok hb).symm.trans hs')
        rw [show (LogStream.mk b').buffer_.content = _ from hcontent,
          take_whole_iff (by omega)] at hwhole
        omega
      · intro hwhole
        refine ⟨_, append_ok hb, hrange', ?_⟩
        show b'.content = _ ∨ b'.content = _
        rw [hcontent, take_whole_iff (by omega)]
        omega

end Append

theorem toInt_small {n : Nat} (h : n ≤ 31) : toInt n = n := toInt_of_lt (by omega)

/-- The operands that are texts. -/
theorem put_text (h : ∀ num, op ≠ .integer num) :
    s.put op = s.append op.text (toInt op.text.length) := by
  cases op with
  | integer num => exact absurd rfl (h num)
  | double text fits =>
    rw [Operand.text, toInt_small fits]
    rfl
  | char v =>
    rw [Operand.text, List.length_singleton, toInt_small (by decide)]
    rfl
  | cString str =>
    cases str with
    | none =>
      have hlen : (ascii "(null)").length = 6 := by decide
      rw [Operand.text, Option.getD_none, hlen, toInt_small (by decide)]
      rfl
    | some str => rfl
  | string v => rfl
  | buffer v => rfl

/-- An integer is written inside its reserve, or left out. -/
theorem put_integer (num : Integer) (h : s.buffer_.InRange) : Whole s (.integer num) := by
  by_cases hroom : kMaxNumericSize ≤ s.buffer_.avial
  · obtain ⟨s', hs, hrange, hcontent⟩ := formatInterger_room num h hroom
    exact ⟨s', hs, hrange, Or.inr hcontent⟩
  · have hs : s.put (.integer num) = .ok s := if_neg hroom
    exact ⟨s, hs, h, Or.inl rfl⟩

/-- Whether an operand is kept whole or left out is a matter of its narrowed length. -/
theorem whole_iff (h : s.buffer_.InRange) : Whole s op ↔ Narrows s op := by
  by_cases hnum : ∃ num, op = .integer num
  · obtain ⟨num, rfl⟩ := hnum
    have hlen := convert_length num
    exact iff_of_true (put_integer num h) (Or.inl (toInt_small (by rw [Operand.text]; omega)))
  · have hput := put_text (s := s) fun num heq => hnum ⟨num, heq⟩
    rw [Whole, Narrows, hput]
    exact append_narrowed h

/-! ## A sequence of operands -/

/-- The texts of some of the operands, in their order. -/
def Keeps (ops : List Operand) (content : Bytes) : Prop :=
  ∃ kept : List Bytes, kept.Sublist (ops.map Operand.text) ∧ content = kept.flatten

theorem run_whole {ops : List Operand} (h : s.buffer_.InRange) (hok : Along put Narrows s ops) :
    ∃ (s' : LogStream) (kept : List Bytes), run put s ops = .ok s' ∧ s'.buffer_.InRange ∧
      kept.Sublist (ops.map Operand.text) ∧
      s'.buffer_.content = s.buffer_.content ++ kept.flatten := by
  induction ops generalizing s with
  | nil => exact ⟨s, [], rfl, h, List.Sublist.refl _, by rw [List.flatten_nil, List.append_nil]⟩
  | cons op ops ih =>
    obtain ⟨s₁, hs, hrange, hwhole⟩ := (whole_iff h).mpr hok.1
    obtain ⟨s', kept, hrun, hrange', hsub, hcontent⟩ := ih hrange (hok.2 s₁ hs)
    rw [run_cons, hs, ok_then]
    rcases hwhole with hnone | hall
    · exact ⟨s', kept, hrun, hrange', hsub.cons _, by rw [hcontent, hnone]⟩
    · refine ⟨s', op.text :: kept, hrun, hrange', hsub.cons_cons _, ?_⟩
      rw [hcontent, hall, List.flatten_cons, List.append_assoc]

/-- Operands whose lengths survive the narrowing are kept whole or left out, and nothing
    is written outside `data_`; at each of them that is exactly what it takes. -/
theorem operands_whole {data : Bytes} (size : data.length = kSmallBuffer) {ops : List Operand}
    (hok : Along put Narrows (new data size) ops) :
    ∃ s', run put (new data size) ops = .ok s' ∧ s'.buffer_.InRange ∧
      Keeps ops s'.buffer_.content ∧ ∀ op, Whole s' op ↔ Narrows s' op := by
  have hnew : (new data size).buffer_.InRange := LogBuffer.Raw.new_inRange size
  obtain ⟨s', kept, hrun, hrange, hsub, hcontent⟩ := run_whole hnew hok
  refine ⟨s', hrun, hrange, ⟨kept, hsub, ?_⟩, fun op => whole_iff hrange⟩
  rw [hcontent]
  rfl

/-- A number and a line feed. -/
theorem operands_whole_example :
    ∃ s', run put blank [.integer (.int 7), .char 10] = .ok s' ∧ s'.buffer_.InRange ∧
      Keeps [.integer (.int 7), .char 10] s'.buffer_.content ∧
      ∀ op, Whole s' op ↔ Narrows s' op := by
  have hseven : (Operand.integer (.int 7)).text.length ≤ 31 :=
    Nat.le_trans (convert_length (.int 7)) (by decide)
  have hline : (Operand.char 10).text.length ≤ 31 := by decide
  exact operands_whole List.length_replicate
    ⟨Or.inl (toInt_small hseven), fun _ _ => ⟨Or.inl (toInt_small hline), fun _ _ => trivial⟩⟩

theorem put_string_escapes {v : Bytes} (h : s.buffer_.InRange) (hneg : toInt v.length < 0) :
    s.put (.string v) = .error .outOfBounds := by
  have hbad := LogBuffer.Raw.append_negative v h (by decide) hneg (toInt_range _).1
  rw [put, append, hbad, error_then]

/-- A string of `2 ^ 31` bytes makes `memcpy` leave `data_`. -/
theorem long_string_escapes :
    ¬ ∀ (data : Bytes) (size : data.length = kSmallBuffer) (ops : List Operand),
      ∃ s', run put (new data size) ops = .ok s' ∧ s'.buffer_.InRange ∧
        Keeps ops s'.buffer_.content := by
  intro h
  obtain ⟨s', hrun, -⟩ := h (List.replicate kSmallBuffer 0) List.length_replicate
    [.string (List.replicate (2 ^ 31) 97)]
  have hneg : toInt ((List.replicate (2 ^ 31) (97 : Byte)).length : Int) < 0 := by
    rw [List.length_replicate]
    decide +kernel
  have hput := put_string_escapes (s := blank) blank_inRange hneg
  rw [run_cons, ← blank, hput, error_then] at hrun
  cases hrun

end LogStream

end LearnMuduo
