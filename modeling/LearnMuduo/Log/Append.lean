/-
  LearnMuduo.Log.Append

  When `append` stores its message.

  `append` asks whether the current buffer has any room, and `LogBuffer::append` whether it
  has room for the message.  Between the two questions a message is lost.
-/
import LearnMuduo.Log.WriterSpec

namespace LearnMuduo

open Lib

namespace AsyncLogging

/-- What the writer has not taken yet: `buffers_`, then `current_buffer_`. -/
def unswapped (s : AsyncLogging) : Bytes :=
  ((s.buffers_ ++ [s.current_buffer_]).map LogBuffer.data).flatten

theorem unswapped_eq (s : AsyncLogging) :
    s.unswapped = (s.buffers_.map LogBuffer.data).flatten ++ s.current_buffer_.data := by
  rw [unswapped, List.map_append, List.flatten_append, List.map_singleton, List.flatten_singleton]

variable {s s' : AsyncLogging} {buf : Bytes}

theorem store_unswapped (h : buf.length ≤ s.current_buffer_.avial) :
    (s.store buf).unswapped = s.unswapped ++ buf := by
  rw [unswapped_eq, unswapped_eq, List.append_assoc]
  show _ ++ (s.current_buffer_.append buf).data = _
  rw [LogBuffer.append_data h]
  rfl

theorem store_full (h : s.current_buffer_.avial < buf.length) :
    (s.store buf).unswapped = s.unswapped := by
  rw [unswapped_eq, unswapped_eq]
  show _ ++ (s.current_buffer_.append buf).data = _
  rw [LogBuffer.append_full h]
  rfl

theorem Sound.rotate_unswapped (h : Sound s) : s.rotate.unswapped = s.unswapped := by
  rw [unswapped_eq, h.rotate_current, List.append_nil]
  rfl

/-- A message is stored whole, unless the current buffer has some room but not enough. -/
theorem append_stores_iff (hreach : Reachable step new s) (hlen : buf.length ≤ kSmallBuffer)
    (hs : step s (.append buf) = some s') :
    s'.unswapped = s.unswapped ++ buf ↔
      ¬ (0 < s.current_buffer_.avial ∧ s.current_buffer_.avial < buf.length) := by
  obtain ⟨-, rfl⟩ := append_ok hs
  have hsound := reachable_sound hreach
  by_cases hroom : s.current_buffer_.avial = 0
  · -- the current buffer is full: the message goes to an empty one
    have hempty := LogBuffer.avial_of_empty hsound.rotate_current
    have hfits : buf.length ≤ s.rotate.current_buffer_.avial := by
      rw [hempty, kLargeBuffer]
      rw [kSmallBuffer] at hlen
      omega
    rw [append, if_neg (not_not.mpr hroom), store_unswapped hfits, hsound.rotate_unswapped]
    exact iff_of_true rfl fun hno => by omega
  · rw [append, if_pos hroom]
    by_cases hfits : buf.length ≤ s.current_buffer_.avial
    · rw [store_unswapped hfits]
      exact iff_of_true rfl fun hno => by omega
    · rw [store_full (not_le.mp hfits)]
      refine iff_of_false ?_ (not_not.mpr (by omega))
      intro heq
      have hnil := List.self_eq_append_right.mp heq
      rw [hnil] at hfits
      exact hfits (Nat.zero_le _)

/-- A first message finds an empty buffer. -/
theorem append_stores_iff_example :
    (new.append [104, 105]).unswapped = new.unswapped ++ [104, 105] :=
  (append_stores_iff (s := new) .refl (by decide) rfl).mpr (by decide)

/-! ## A buffer that fills up -/

/-- The longest message, all of it zero. -/
def longMessage : Bytes := List.replicate kSmallBuffer 0

/-- Appends have filled the current buffer up to `n`, and nothing else has happened. -/
structure Filled (s s' : AsyncLogging) (n : Nat) : Prop where
  reach : Reachable step s s'
  length : s'.current_buffer_.data.length = n
  same : ∃ b appended stored,
    s' = { s with current_buffer_ := b, appended := appended, stored := stored }

theorem Filled.avial {n : Nat} (h : Filled s s' n) :
    s'.current_buffer_.avial = kLargeBuffer - n := by
  rw [LogBuffer.avial, h.length]

theorem Filled.append_step {n : Nat} (h : Filled s s' n) (buf : Bytes)
    (hunlocked : s.locked = false) :
    step s' (.append buf) = some (s'.append buf) := by
  have hlocked : s'.locked = false := by
    obtain ⟨b, appended, stored, rfl⟩ := h.same
    exact hunlocked
  rw [step, if_neg (by rw [hlocked]; exact Bool.false_ne_true)]

/-- As long as there is room, a message makes the current buffer fuller. -/
theorem Filled.append {n : Nat} (h : Filled s s' n) (buf : Bytes) (hunlocked : s.locked = false)
    (hfits : n + buf.length ≤ kLargeBuffer) (hroom : n < kLargeBuffer) :
    Filled s (s'.append buf) (n + buf.length) := by
  have havial := h.avial
  have hstore : s'.append buf = s'.store buf := if_pos (by omega)
  refine ⟨h.reach.tail trivial (h.append_step buf hunlocked), ?_, ?_⟩
  · rw [hstore]
    show (s'.current_buffer_.append buf).data.length = _
    rw [LogBuffer.append_data (by omega), List.length_append, h.length]
  · rw [hstore]
    obtain ⟨b, appended, stored, rfl⟩ := h.same
    exact ⟨_, _, _, rfl⟩

/-- Any number of long messages for which there is room. -/
theorem exists_filled (hunlocked : s.locked = false) (hempty : s.current_buffer_.data = [])
    {k : Nat} (hk : k ≤ 1000) : ∃ s', Filled s s' (k * kSmallBuffer) := by
  induction k with
  | zero =>
    refine ⟨s, .refl, ?_, _, _, _, rfl⟩
    rw [hempty, Nat.zero_mul]
    rfl
  | succ k ih =>
    obtain ⟨m, hm⟩ := ih (by omega)
    have hlen : longMessage.length = kSmallBuffer := List.length_replicate
    have hbound : k * kSmallBuffer + kSmallBuffer ≤ kLargeBuffer := by
      rw [kSmallBuffer, kLargeBuffer]
      omega
    have hnext := hm.append longMessage hunlocked (by rw [hlen]; exact hbound)
      (by rw [kSmallBuffer, kLargeBuffer] at *; omega)
    rw [hlen, ← Nat.succ_mul] at hnext
    exact ⟨_, hnext⟩

/-- One byte is left, and two are to be appended: they are lost. -/
theorem append_loses :
    ¬ ∀ (s s' : AsyncLogging) (buf : Bytes), Reachable step new s → buf.length ≤ kSmallBuffer →
      step s (.append buf) = some s' → s'.unswapped = s.unswapped ++ buf := by
  intro h
  obtain ⟨m, hm⟩ := exists_filled (s := new) rfl rfl (Nat.le_succ 999)
  have hlen : (List.replicate 3999 (0 : Byte)).length = 3999 := List.length_replicate
  have hs := hm.append (List.replicate 3999 0) rfl
    (by rw [hlen, kSmallBuffer, kLargeBuffer]; omega) (by rw [kSmallBuffer, kLargeBuffer]; omega)
  rw [hlen] at hs
  have havial : (m.append (List.replicate 3999 0)).current_buffer_.avial = 1 := by
    rw [hs.avial, kSmallBuffer, kLargeBuffer]
  have hkept := h _ _ [104, 105] hs.reach (by decide) (hs.append_step [104, 105] rfl)
  rw [append, if_pos (by omega), store_full (by rw [havial]; decide)] at hkept
  exact absurd (List.self_eq_append_right.mp hkept) (List.cons_ne_nil _ _)

end AsyncLogging

end LearnMuduo
