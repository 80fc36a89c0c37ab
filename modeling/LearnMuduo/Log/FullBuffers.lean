/-
  LearnMuduo.Log.FullBuffers

  When the writer waits although a full buffer is there.

  The test before the wait is about the writer's own batch, which is always empty there,
  and not about `buffers_`.  A buffer that fills up while the writer waits wakes it; one
  that fills up at another time is notified to nobody and lies in `buffers_` for the
  whole wait.
-/
import LearnMuduo.Log.Append

namespace LearnMuduo

open Lib

namespace AsyncLogging

/-- A buffer that is full is exchanged only while the writer waits for the notification. -/
def Heard (s : AsyncLogging) (a : LogAction) : Prop :=
  ∀ buf, a = .append buf → s.current_buffer_.avial = 0 → s.pc = .waiting

/-- Except in its wait, and until it takes them then, the writer has left no full buffer. -/
structure Taken (s : AsyncLogging) : Prop where
  sound : Sound s
  none : s.pc ≠ .waiting → s.pc ≠ .woken → s.buffers_ = []

variable {s s' : AsyncLogging} {a : LogAction} {buf : Bytes}

theorem Taken.append (h : Taken s) (hok : Heard s (.append buf)) : Taken (s.append buf) := by
  refine ⟨h.sound.append, fun hwaiting hwoken => ?_⟩
  unfold AsyncLogging.append at hwaiting hwoken ⊢
  split
  · rename_i hroom
    rw [if_pos hroom] at hwaiting hwoken
    exact h.none hwaiting hwoken
  · rename_i hfull
    rw [if_neg hfull] at hwaiting
    exact absurd (hok buf rfl (not_not.mp hfull)) hwaiting

/-- The test before the wait finds the batch empty: the writer always waits. -/
theorem Sound.waits (h : Sound s) (hs : step s .wait = some s') : s'.pc = .waiting := by
  obtain ⟨hpc, rfl⟩ := wait_ok hs
  exact if_pos (h.idle (by rw [hpc]; exact id))

theorem Taken.step (h : Taken s) (hok : Heard s a) (hs : step s a = some s') : Taken s' := by
  have hsound := step_sound h.sound hs
  have hnone := h.none
  cases a with
  | append buf =>
    obtain ⟨-, rfl⟩ := append_ok hs
    exact h.append hok
  | start =>
    obtain ⟨hpc, rfl⟩ := start_ok hs
    rw [hpc] at hnone
    exact ⟨hsound, fun _ _ => hnone WriterPc.noConfusion WriterPc.noConfusion⟩
  | stop =>
    obtain ⟨-, rfl⟩ := stop_ok hs
    exact ⟨hsound, hnone⟩
  | test =>
    obtain ⟨hpc, rfl⟩ := test_ok hs
    rw [hpc] at hnone
    exact ⟨hsound, fun _ _ => hnone WriterPc.noConfusion WriterPc.noConfusion⟩
  | lock =>
    obtain ⟨hpc, rfl⟩ := lock_ok hs
    rw [hpc] at hnone
    exact ⟨hsound, fun _ _ => hnone WriterPc.noConfusion WriterPc.noConfusion⟩
  -- in the wait a full buffer may come, and the swap takes it
  | wait => exact ⟨hsound, fun hno => absurd (h.sound.waits hs) hno⟩
  | wake =>
    obtain ⟨-, rfl⟩ := wake_ok hs
    exact ⟨hsound, fun _ hno => absurd rfl hno⟩
  | swap =>
    obtain ⟨hpc, buffer, -, rfl⟩ := swap_ok hs
    exact ⟨hsound, fun _ _ => h.sound.idle (by rw [hpc]; exact id)⟩
  -- behind the swap the writer is busy, and a full buffer is not exchanged
  | drop =>
    obtain ⟨hpc, rfl⟩ := drop_ok hs
    rw [hpc] at hnone
    exact ⟨hsound, fun _ _ => hnone WriterPc.noConfusion WriterPc.noConfusion⟩
  | write =>
    rcases write_ok hs with ⟨buffer, rest, hpc, rfl⟩ | ⟨hpc, rfl⟩
    · rw [hpc] at hnone
      exact ⟨hsound, fun _ _ => hnone WriterPc.noConfusion WriterPc.noConfusion⟩
    · rw [hpc] at hnone
      exact ⟨hsound, fun _ _ => hnone WriterPc.noConfusion WriterPc.noConfusion⟩
  | recycle =>
    obtain ⟨hpc, r1, r2, -, -, rfl⟩ := recycle_ok hs
    rw [hpc] at hnone
    exact ⟨hsound, fun _ _ => hnone WriterPc.noConfusion WriterPc.noConfusion⟩

/-- In a run in which every full buffer is exchanged during a wait, the writer never starts
    one with a full buffer in `buffers_`. -/
theorem no_full_buffer_waits (h : Reaches step Heard new s) (hs : step s .wait = some s') :
    s.buffers_ = [] := by
  have hinv : Taken s :=
    h.invariant ⟨new_sound, fun _ _ => rfl⟩ fun _ _ _ hx hok hs => hx.step hok hs
  obtain ⟨hpc, -⟩ := wait_ok hs
  refine hinv.none ?_ ?_
  · rw [hpc]
    exact WriterPc.noConfusion
  · rw [hpc]
    exact WriterPc.noConfusion

/-- The writer waits for the first time. -/
def firstWait : AsyncLogging := after step new [.start, .test, .lock, .wait]

/-- A message comes during the wait; the writer takes it, and waits again. -/
theorem no_full_buffer_waits_example :
    (after step (firstWait.append [7])
      [.wake, .swap, .drop, .write, .write, .recycle, .test, .lock]).buffers_ = [] := by
  have hquiet : ∀ as : List LogAction, (∀ buf, .append buf ∉ as) →
      ∀ a ∈ as, ∀ x, Heard x a := by
    intro as has a ha x buf heq
    exact absurd (heq ▸ ha) (has buf)
  have hfirst : Reaches step Heard new firstWait := Reaches.after rfl (hquiet _ (by simp))
  have happend : Reaches step Heard new (firstWait.append [7]) :=
    hfirst.tail (a := .append [7]) (fun _ _ _ => rfl) rfl
  exact no_full_buffer_waits (happend.trans (Reaches.after rfl (hquiet _ (by simp)))) rfl

/-- The writer has swapped, and is writing. -/
def firstBatch : AsyncLogging := after step firstWait [.wake, .swap, .drop]

/-- The current buffer fills up while the writer writes; then the writer waits with the full
    buffer in `buffers_`. -/
theorem full_buffer_waits :
    ¬ ∀ s s' : AsyncLogging, Reachable step new s → step s .wait = some s' →
      s'.pc = .waiting → ∀ b ∈ s.buffers_, b.avial ≠ 0 := by
  intro h
  have hfirst : Reachable step new firstWait := Reaches.after rfl fun _ _ _ => trivial
  have hwriting : Reachable step new firstBatch :=
    hfirst.trans (Reaches.after rfl fun _ _ _ => trivial)
  obtain ⟨m, hm⟩ := exists_filled (s := firstBatch) rfl rfl (Nat.le_refl 1000)
  have hfull : m.current_buffer_.avial = 0 := by
    rw [hm.avial, kSmallBuffer, kLargeBuffer]
  have hnext := (hwriting.trans hm.reach).tail trivial (hm.append_step [7] rfl)
  rw [append, if_neg (not_not.mpr hfull)] at hnext
  obtain ⟨b, appended, stored, rfl⟩ := hm.same
  have hwait := hnext.trans
    (@Reachable.of_walk _ _ step _ _ [.write, .write, .recycle, .test, .lock] rfl)
  exact h _ _ hwait rfl rfl b List.mem_cons_self hfull

end AsyncLogging

end LearnMuduo
