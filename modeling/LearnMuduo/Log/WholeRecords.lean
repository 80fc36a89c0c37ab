/-
  LearnMuduo.Log.WholeRecords

  What is written are whole messages, in their order.

  The buffers the writer has not written and those of the front ends hold whole messages,
  one after the other (`Recorded`): with what is written before them they are the stored
  messages, or a part of these where a long batch was cut down.
-/
import LearnMuduo.Lib.Records
import LearnMuduo.Log.WriterSpec

namespace LearnMuduo

open Lib

namespace AsyncLogging

/-- The buffers of the batch that are still to be written. -/
def unwritten (s : AsyncLogging) : List (LogBuffer kLargeBuffer) :=
  match s.pc with
  | .dropping => s.buffers_to_write
  | .writing rest => rest
  | _ => []

/-- The contents of all buffers that are not written, from the oldest on. -/
def pending (s : AsyncLogging) : List Bytes :=
  s.unwritten.map LogBuffer.data ++
    (s.buffers_.map LogBuffer.data ++ [s.current_buffer_.data])

/-- The messages written and pending are, up to `R`, those that were stored. -/
def Recorded (R : List Bytes → List Bytes → Prop) (s : AsyncLogging) : Prop :=
  ∃ w m, s.written = w.flatten ∧ Holds s.pending m ∧ R (w ++ m) s.stored

section Steps

variable {R : List Bytes → List Bytes → Prop} {s s' : AsyncLogging} {buf : Bytes}

/-- Nothing but the writer's place has changed, and nothing was left to be written. -/
theorem Recorded.of_idle (h : Recorded R s) (hu : s.unwritten = []) (hu' : s'.unwritten = [])
    (hbuffers : s'.buffers_ = s.buffers_) (hcurrent : s'.current_buffer_ = s.current_buffer_)
    (hwritten : s'.written = s.written) (hstored : s'.stored = s.stored) : Recorded R s' := by
  have hpending : s'.pending = s.pending := by
    rw [pending, pending, hu, hu', hbuffers, hcurrent]
  rw [Recorded, hwritten, hpending, hstored]
  exact h

theorem Recorded.store (h : Recorded R s)
    (hR : ∀ l l' x, R l l' → R (l ++ [x]) (l' ++ [x])) : Recorded R (s.store buf) := by
  obtain ⟨w, m, hw, hm, hr⟩ := h
  by_cases hfits : buf.length ≤ s.current_buffer_.avial
  · refine ⟨w, m ++ [buf], hw, ?_, ?_⟩
    · rw [pending, ← List.append_assoc] at hm ⊢
      show Holds (_ ++ [(s.current_buffer_.append buf).data]) _
      rw [LogBuffer.append_data hfits]
      exact hm.record
    · show R _ (if _ then _ else _)
      rw [if_pos hfits, ← List.append_assoc]
      exact hR _ _ buf hr
  · -- the message is lost, and was not stored
    refine ⟨w, m, hw, ?_, ?_⟩
    · rw [pending] at hm ⊢
      show Holds (_ ++ (_ ++ [(s.current_buffer_.append buf).data])) _
      rw [LogBuffer.append_full (not_le.mp hfits)]
      exact hm
    · show R _ (if _ then _ else _)
      rw [if_neg hfits]
      exact hr

theorem Recorded.rotate (h : Recorded R s) (hsound : Sound s) : Recorded R s.rotate := by
  obtain ⟨w, m, hw, hm, hr⟩ := h
  refine ⟨w, m, hw, ?_, hr⟩
  have hempty : s.rotate.current_buffer_.data = [] := hsound.rotate_current
  have hpending : s.rotate.pending = s.pending ++ [[]] := by
    rw [pending, hempty, pending, List.append_assoc]
    show _ ++ ((s.buffers_ ++ [s.current_buffer_]).map LogBuffer.data ++ [[]]) = _
    rw [List.map_append]
    rfl
  rw [hpending, ← List.append_nil m]
  exact hm.append holds_empty

theorem Recorded.append (h : Recorded R s) (hsound : Sound s)
    (hR : ∀ l l' x, R l l' → R (l ++ [x]) (l' ++ [x])) : Recorded R (s.append buf) := by
  unfold AsyncLogging.append
  split
  · exact h.store hR
  · exact (h.rotate hsound).store hR

/-- The buffers of the front ends become the batch. -/
theorem Recorded.swap (h : Recorded R s) (hsound : Sound s) (hs : step s .swap = some s') :
    Recorded R s' := by
  obtain ⟨hpc, buffer, hspare, rfl⟩ := swap_ok hs
  obtain ⟨w, m, hw, hm, hr⟩ := h
  have hu : s.unwritten = [] := by rw [unwritten, hpc]
  have hidle : s.buffers_to_write = [] := hsound.idle (by rw [hpc]; exact id)
  have hempty : buffer.data = [] := hsound.spare1 buffer hspare
  refine ⟨w, m, hw, ?_, hr⟩
  rw [pending, hu, List.map_nil, List.nil_append] at hm
  show Holds ((s.buffers_ ++ [s.current_buffer_]).map LogBuffer.data ++
    (s.buffers_to_write.map LogBuffer.data ++ [buffer.data])) m
  -- the new current buffer is empty: it adds no message
  rw [hidle, hempty, List.map_append, ← List.append_nil m]
  exact hm.append holds_empty

theorem Recorded.write (h : Recorded R s) (hs : step s .write = some s') : Recorded R s' := by
  rcases write_ok hs with ⟨buffer, rest, hpc, rfl⟩ | ⟨hpc, rfl⟩
  · obtain ⟨w, m, hw, hm, hr⟩ := h
    rw [pending, unwritten, hpc, List.map_cons, ← List.singleton_append, List.append_assoc] at hm
    -- the buffer that is written takes the messages in it along
    obtain ⟨m₁, m₂, h₁, h₂, rfl⟩ := hm.split
    refine ⟨w ++ m₁, m₂, ?_, h₂, ?_⟩
    · show s.written ++ buffer.data = _
      rw [List.flatten_append, hw, h₁.singleton]
    · rw [List.append_assoc]
      exact hr
  · exact h.of_idle (by rw [unwritten, hpc]) rfl rfl rfl rfl rfl

/-- Every step but the drop. -/
theorem step_recorded {a : LogAction} (h : Recorded R s) (hsound : Sound s)
    (hR : ∀ l l' x, R l l' → R (l ++ [x]) (l' ++ [x])) (ha : a ≠ .drop)
    (hs : step s a = some s') : Recorded R s' := by
  cases a with
  | append buf =>
    obtain ⟨-, rfl⟩ := append_ok hs
    exact h.append hsound hR
  -- every step from here on leaves the buffers alone
  | start =>
    obtain ⟨hpc, rfl⟩ := start_ok hs
    exact h.of_idle (by rw [unwritten, hpc]) rfl rfl rfl rfl rfl
  | stop =>
    obtain ⟨-, rfl⟩ := stop_ok hs
    exact h
  | test =>
    obtain ⟨hpc, rfl⟩ := test_ok hs
    refine h.of_idle (by rw [unwritten, hpc]) ?_ rfl rfl rfl rfl
    rw [unwritten]
    cases s.running_ <;> rfl
  | lock =>
    obtain ⟨hpc, rfl⟩ := lock_ok hs
    exact h.of_idle (by rw [unwritten, hpc]) rfl rfl rfl rfl rfl
  | wait =>
    obtain ⟨hpc, rfl⟩ := wait_ok hs
    refine h.of_idle (by rw [unwritten, hpc]) ?_ rfl rfl rfl rfl
    rw [unwritten]
    cases s.buffers_to_write <;> rfl
  | wake =>
    obtain ⟨hpc, rfl⟩ := wake_ok hs
    exact h.of_idle (by rw [unwritten, hpc]) rfl rfl rfl rfl rfl
  -- the steps that move buffers
  | swap => exact h.swap hsound hs
  | drop => exact absurd rfl ha
  | write => exact h.write hs
  | recycle =>
    obtain ⟨hpc, r1, r2, -, -, rfl⟩ := recycle_ok hs
    exact h.of_idle (by rw [unwritten, hpc]) rfl rfl rfl rfl rfl

/-- A batch that is cut down holds fewer messages. -/
theorem Recorded.drop (h : Recorded List.Sublist s) (hs : step s .drop = some s') :
    Recorded List.Sublist s' := by
  obtain ⟨hpc, rfl⟩ := drop_ok hs
  obtain ⟨w, m, hw, hm, hr⟩ := h
  rw [pending, unwritten, hpc] at hm
  have hsub := (s.kept_sublist.map LogBuffer.data).append_right
    (s.buffers_.map LogBuffer.data ++ [s.current_buffer_.data])
  obtain ⟨m', hm', hsub'⟩ := hm.sublist hsub
  exact ⟨w, m', hw, hm', (hsub'.append_left w).trans hr⟩

theorem new_recorded (hR : R [] []) : Recorded R new :=
  ⟨[], [], rfl, holds_empty, hR⟩

theorem step_stored {a : LogAction} (h : s.stored.Sublist s.appended)
    (hs : step s a = some s') : s'.stored.Sublist s'.appended := by
  by_cases happend : ∃ buf, a = .append buf
  · obtain ⟨buf, rfl⟩ := happend
    obtain ⟨-, rfl⟩ := append_ok hs
    obtain ⟨happended, hstored | hstored⟩ := append_logged s buf
    · rw [happended, hstored]
      exact h.append (List.Sublist.refl _)
    · rw [happended, hstored]
      exact h.trans (List.sublist_append_left _ _)
  · obtain ⟨hstored, happended, -⟩ := step_frame (fun buf he => happend ⟨buf, he⟩) hs
    rw [hstored, happended]
    exact h

end Steps

/-- In every reachable state the bytes written are a concatenation of whole messages: a
    subsequence of those appended, in their order. -/
theorem written_whole {s : AsyncLogging} (h : Reachable step new s) :
    ∃ ms : List Bytes, ms.Sublist s.appended ∧ s.written = ms.flatten := by
  have hinv : Sound s ∧ Recorded List.Sublist s ∧ s.stored.Sublist s.appended := by
    refine h.invariant (P := fun s => Sound s ∧ Recorded List.Sublist s ∧
      s.stored.Sublist s.appended) ?_ ?_
    · exact ⟨new_sound, new_recorded (List.Sublist.refl []), List.Sublist.refl []⟩
    · rintro x a y ⟨hsound, hrecorded, hstored⟩ _ hs
      refine ⟨step_sound hsound hs, ?_, step_stored hstored hs⟩
      by_cases ha : a = .drop
      · subst ha
        exact hrecorded.drop hs
      · exact step_recorded hrecorded hsound
          (fun l l' x hl => hl.append (List.Sublist.refl [x])) ha hs
  obtain ⟨-, ⟨w, m, hw, -, hsub⟩, hstored⟩ := hinv
  exact ⟨w, ((List.sublist_append_left w m).trans hsub).trans hstored, hw⟩

/-- A message is appended while the writer waits, and another one while it writes. -/
theorem written_whole_example :
    ∃ s, walk step new [.start, .test, .lock, .wait, .append [1, 2], .wake, .swap, .append [3],
        .drop, .write, .write, .recycle] = some s ∧
      ∃ ms : List Bytes, ms.Sublist s.appended ∧ s.written = ms.flatten := by
  obtain ⟨s, hs⟩ : ∃ s, walk step new [.start, .test, .lock, .wait, .append [1, 2], .wake, .swap,
      .append [3], .drop, .write, .write, .recycle] = some s :=
    Option.isSome_iff_exists.mp (by decide +kernel)
  exact ⟨s, hs, written_whole (Reachable.of_walk hs)⟩

end AsyncLogging

end LearnMuduo
