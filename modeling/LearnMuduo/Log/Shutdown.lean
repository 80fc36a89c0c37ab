/-
  LearnMuduo.Log.Shutdown

  What `stop` loses.

  The writer tests `running_` at the head of its loop and takes the front ends' buffers
  behind it.  Messages stored since it last took them are written only if `stop` comes
  between the two (`stop_flushes_iff`): everywhere else in the loop the next test ends it.
-/
import LearnMuduo.Log.Append
import LearnMuduo.Log.WholeRecords

namespace LearnMuduo

open Lib

/-- Behind the test of `running_` and before the swap. -/
def WriterPc.tested : WriterPc → Bool
  | .locking => true
  | .entered => true
  | .waiting => true
  | .woken => true
  | _ => false

namespace AsyncLogging

/-- No batch is cut down. -/
def NoOverrun (s : AsyncLogging) (a : LogAction) : Prop :=
  a = .drop → s.buffers_to_write.length ≤ 16

/-- What the writer has taken from the front ends: written, or in the batch to be written. -/
def taken (s : AsyncLogging) : Bytes := s.written ++ (s.unwritten.map LogBuffer.data).flatten

variable {s s' t : AsyncLogging} {a : LogAction} {buf : Bytes}

/-- Nothing that is stored is lost. -/
theorem Recorded.stored_eq (h : Recorded Eq s) : s.stored.flatten = s.taken ++ s.unswapped := by
  obtain ⟨w, m, hw, hm, hr⟩ := h
  have hflat := hm.flatten
  rw [pending, List.flatten_append, List.flatten_append, List.flatten_singleton] at hflat
  rw [← hr, List.flatten_append, ← hflat, taken, unswapped_eq, hw, List.append_assoc]

theorem kept_eq (h : NoOverrun s .drop) : s.kept = s.buffers_to_write := by
  have hle := h rfl
  rw [kept, if_neg (by omega)]

theorem step_recorded_eq (h : Recorded Eq s) (hsound : Sound s) (hok : NoOverrun s a)
    (hs : step s a = some s') : Recorded Eq s' := by
  by_cases ha : a = .drop
  · subst ha
    obtain ⟨hpc, rfl⟩ := drop_ok hs
    obtain ⟨w, m, hw, hm, hr⟩ := h
    refine ⟨w, m, hw, ?_, hr⟩
    rw [pending, unwritten, hpc] at hm
    show Holds (s.kept.map LogBuffer.data ++ _) m
    rw [kept_eq hok]
    exact hm
  · exact step_recorded h hsound (fun l l' x hl => by rw [hl]) ha hs

theorem reaches_recorded (h : Reaches step NoOverrun new s) : Sound s ∧ Recorded Eq s := by
  refine h.invariant (P := fun s => Sound s ∧ Recorded Eq s) ⟨new_sound, new_recorded rfl⟩ ?_
  rintro x a y ⟨hsound, hrecorded⟩ hok hs
  exact ⟨step_sound hsound hs, step_recorded_eq hrecorded hsound hok hs⟩

theorem step_stored_extends (hs : step s a = some s') : s.stored <+: s'.stored := by
  by_cases happend : ∃ buf, a = .append buf
  · obtain ⟨buf, rfl⟩ := happend
    obtain ⟨-, rfl⟩ := append_ok hs
    obtain ⟨-, hstored | hstored⟩ := append_logged s buf
    · rw [hstored]
      exact List.prefix_append _ _
    · exact hstored ▸ List.prefix_refl _
  · have hframe := step_frame (fun buf he => happend ⟨buf, he⟩) hs
    exact hframe.1 ▸ List.prefix_refl _

theorem append_taken (s : AsyncLogging) (buf : Bytes) : (s.append buf).taken = s.taken := by
  unfold append
  split <;> rfl

theorem taken_of_idle (h : s.unwritten = []) : s.taken = s.written := by
  rw [taken, h, List.map_nil, List.flatten_nil, List.append_nil]

/-! ## After `stop` -/

/-- The writer will take nothing any more. -/
structure Ending (s : AsyncLogging) : Prop where
  stopped : s.running_ = false
  untested : s.pc.tested = false
  started : s.pc ≠ .ready

/-- It goes on with the batch it has, and returns. -/
theorem Ending.step (h : Ending s) (hok : NoOverrun s a) (hs : step s a = some s') :
    Ending s' ∧ s'.taken = s.taken := by
  have huntested := h.untested
  cases a with
  | append buf =>
    obtain ⟨-, rfl⟩ := append_ok hs
    refine ⟨⟨?_, ?_, ?_⟩, append_taken s buf⟩
    · rw [append_running]
      exact h.stopped
    · rw [append_pc]
      exact huntested
    · rw [append_pc]
      exact h.started
  | start =>
    obtain ⟨hpc, -⟩ := start_ok hs
    exact absurd hpc h.started
  | stop =>
    obtain ⟨hrunning, -⟩ := stop_ok hs
    rw [h.stopped] at hrunning
    cases hrunning
  -- `running_` is false: the thread returns
  | test =>
    obtain ⟨hpc, rfl⟩ := test_ok hs
    have hnext : (if s.running_ then WriterPc.locking else .returned) = .returned := by
      rw [h.stopped]
      rfl
    rw [hnext]
    refine ⟨⟨h.stopped, rfl, WriterPc.noConfusion⟩, ?_⟩
    rw [taken_of_idle (by rw [unwritten, hpc] : s.unwritten = [])]
    exact taken_of_idle rfl
  -- the steps between the test and the swap are not taken any more
  | lock =>
    obtain ⟨hpc, -⟩ := lock_ok hs
    rw [hpc] at huntested
    cases huntested
  | wait =>
    obtain ⟨hpc, -⟩ := wait_ok hs
    rw [hpc] at huntested
    cases huntested
  | wake =>
    obtain ⟨hpc, -⟩ := wake_ok hs
    rw [hpc] at huntested
    cases huntested
  | swap =>
    obtain ⟨hpc, -⟩ := swap_ok hs
    rw [hpc] at huntested
    cases huntested
  -- the rest of the iteration writes what is in the batch
  | drop =>
    obtain ⟨hpc, rfl⟩ := drop_ok hs
    refine ⟨⟨h.stopped, rfl, WriterPc.noConfusion⟩, ?_⟩
    show s.written ++ (s.kept.map LogBuffer.data).flatten = _
    rw [kept_eq hok, taken, unwritten, hpc]
  | write =>
    rcases write_ok hs with ⟨buffer, rest, hpc, rfl⟩ | ⟨hpc, rfl⟩
    · refine ⟨⟨h.stopped, rfl, WriterPc.noConfusion⟩, ?_⟩
      show s.written ++ buffer.data ++ (rest.map LogBuffer.data).flatten = _
      rw [taken, unwritten, hpc, List.map_cons, List.flatten_cons, List.append_assoc]
    · refine ⟨⟨h.stopped, rfl, WriterPc.noConfusion⟩, ?_⟩
      rw [taken_of_idle (by rw [unwritten, hpc] : s.unwritten = [])]
      exact taken_of_idle rfl
  | recycle =>
    obtain ⟨hpc, r1, r2, -, -, rfl⟩ := recycle_ok hs
    refine ⟨⟨h.stopped, rfl, WriterPc.noConfusion⟩, ?_⟩
    rw [taken_of_idle (by rw [unwritten, hpc] : s.unwritten = [])]
    exact taken_of_idle rfl

/-- The writer will take what the front ends have, or has taken at least `bytes`. -/
structure Flushing (bytes : Bytes) (s : AsyncLogging) : Prop where
  sound : Sound s
  recorded : Recorded Eq s
  stored : bytes <+: s.stored.flatten
  stopped : s.running_ = false
  taken : s.pc.tested = true ∨ Ending s ∧ bytes <+: s.taken

/-- Behind the swap the front ends have nothing. -/
theorem swap_unswapped (hsound : Sound s) (hs : step s .swap = some s') :
    s'.unswapped = [] := by
  obtain ⟨hpc, buffer, hspare, rfl⟩ := swap_ok hs
  have hidle : s.buffers_to_write = [] := hsound.idle (by rw [hpc]; exact id)
  rw [unswapped_eq]
  show (s.buffers_to_write.map LogBuffer.data).flatten ++ buffer.data = []
  rw [hidle, hsound.spare1 buffer hspare]
  rfl

/-- Between the test and the swap the writer does nothing else. -/
theorem tested_step (htested : s.pc.tested = true) (hs : step s a = some s') :
    s'.pc.tested = true ∨ a = .swap := by
  cases a with
  | append buf =>
    obtain ⟨-, rfl⟩ := append_ok hs
    rw [append_pc]
    exact Or.inl htested
  | start =>
    obtain ⟨hpc, -⟩ := start_ok hs
    rw [hpc] at htested
    cases htested
  | stop =>
    obtain ⟨-, rfl⟩ := stop_ok hs
    exact Or.inl htested
  | test =>
    obtain ⟨hpc, -⟩ := test_ok hs
    rw [hpc] at htested
    cases htested
  -- from the test on, up to the swap
  | lock =>
    obtain ⟨-, rfl⟩ := lock_ok hs
    exact Or.inl rfl
  | wait =>
    obtain ⟨-, rfl⟩ := wait_ok hs
    left
    cases s.buffers_to_write <;> rfl
  | wake =>
    obtain ⟨-, rfl⟩ := wake_ok hs
    exact Or.inl rfl
  | swap => exact Or.inr rfl
  -- elsewhere the writer had not tested
  | drop =>
    obtain ⟨hpc, -⟩ := drop_ok hs
    rw [hpc] at htested
    cases htested
  | write =>
    rcases write_ok hs with ⟨buffer, rest, hpc, -⟩ | ⟨hpc, -⟩
    · rw [hpc] at htested
      cases htested
    · rw [hpc] at htested
      cases htested
  | recycle =>
    obtain ⟨hpc, -⟩ := recycle_ok hs
    rw [hpc] at htested
    cases htested

theorem step_stopped (h : s.running_ = false) (hstart : s.pc ≠ .ready)
    (hs : step s a = some s') : s'.running_ = false := by
  by_cases happend : ∃ buf, a = .append buf
  · obtain ⟨buf, rfl⟩ := happend
    obtain ⟨-, rfl⟩ := append_ok hs
    rw [append_running]
    exact h
  · refine (step_frame (fun buf he => happend ⟨buf, he⟩) hs).2.2 ?_ h
    rintro rfl
    exact hstart (start_ok hs).1

theorem Flushing.step {bytes : Bytes} (h : Flushing bytes s) (hok : NoOverrun s a)
    (hs : step s a = some s') : Flushing bytes s' := by
  have hsound := step_sound h.sound hs
  have hrecorded := step_recorded_eq h.recorded h.sound hok hs
  have hstored : bytes <+: s'.stored.flatten := by
    obtain ⟨more, hmore⟩ := step_stored_extends hs
    rw [← hmore, List.flatten_append]
    exact h.stored.trans (List.prefix_append _ _)
  have hstarted : s.pc ≠ .ready := by
    rcases h.taken with htested | ⟨hending, -⟩
    · intro hpc
      rw [hpc] at htested
      cases htested
    · exact hending.started
  have hstopped := step_stopped h.stopped hstarted hs
  refine ⟨hsound, hrecorded, hstored, hstopped, ?_⟩
  rcases h.taken with htested | ⟨hending, htaken⟩
  · rcases tested_step htested hs with htested' | rfl
    · exact Or.inl htested'
    · -- the swap takes all that is stored
      have hall := hrecorded.stored_eq
      rw [swap_unswapped h.sound hs, List.append_nil] at hall
      refine Or.inr ⟨⟨hstopped, ?_, ?_⟩, hall ▸ hstored⟩
      · obtain ⟨-, buffer, -, rfl⟩ := swap_ok hs
        rfl
      · obtain ⟨-, buffer, -, rfl⟩ := swap_ok hs
        exact WriterPc.noConfusion
  · obtain ⟨hending', heq⟩ := hending.step hok hs
    exact Or.inr ⟨hending', heq ▸ htaken⟩

/-- While no batch is cut down: by the time `writeThread` returns, what was stored before
    `stop` is written iff the writer had tested `running_` and not yet swapped, or the front
    ends had nothing it had not taken. -/
theorem stop_flushes_iff (h : Reaches step NoOverrun new s) (hs : step s .stop = some s')
    (ht : Reaches step NoOverrun s' t) (hpc : t.pc = .returned) :
    s.stored.flatten <+: t.written ↔ s.pc.tested = true ∨ s.unswapped = [] := by
  obtain ⟨hsound, hrecorded⟩ := reaches_recorded h
  have hall := hrecorded.stored_eq
  obtain ⟨hrunning, rfl⟩ := stop_ok hs
  have hwritten : t.taken = t.written := taken_of_idle (by rw [unwritten, hpc])
  -- from either side `Flushing` leads to the bytes being written
  have hstop : ∀ hbefore : s.pc.tested = true ∨ Ending { s with running_ := false } ∧
      s.stored.flatten <+: s.taken, s.stored.flatten <+: t.written := by
    intro hbefore
    have hstart : Flushing s.stored.flatten { s with running_ := false } :=
      ⟨step_sound hsound hs, hrecorded, List.prefix_refl _, rfl, hbefore⟩
    have hend := ht.invariant hstart fun _ _ _ hx hok hs => hx.step hok hs
    rcases hend.taken with htested | ⟨-, htaken⟩
    · rw [hpc] at htested
      cases htested
    · exact hwritten ▸ htaken
  by_cases htested : s.pc.tested = true
  · exact iff_of_true (hstop (Or.inl htested)) (Or.inl htested)
  · have hending : Ending { s with running_ := false } := by
      exact ⟨rfl, Bool.not_eq_true _ ▸ htested, hsound.started hrunning⟩
    -- nothing is taken behind the test, so what was not taken stays unwritten
    have htaken : t.taken = s.taken := by
      have hboth := ht.invariant (P := fun x => Ending x ∧ x.taken = s.taken) ⟨hending, rfl⟩
        fun _ _ _ hx hok hs => ⟨(hx.1.step hok hs).1, ((hx.1.step hok hs).2).trans hx.2⟩
      exact hboth.2
    constructor
    · intro hprefix
      rw [← hwritten, htaken, hall] at hprefix
      have hlen := hprefix.length_le
      rw [List.length_append] at hlen
      exact Or.inr (List.length_eq_zero_iff.mp (by omega))
    · rintro (hno | hnone)
      · exact absurd hno htested
      · rw [hnone, List.append_nil] at hall
        exact hstop (Or.inr ⟨hending, hall ▸ List.prefix_refl _⟩)

/-! ## Two runs -/

theorem reaches_after {as : List LogAction} (h : (walk step s as).isSome = true)
    (hdrop : .drop ∉ as) : Reaches step NoOverrun s (after step s as) := by
  apply Reaches.after h
  intro a ha _ heq
  exact absurd (heq ▸ ha) hdrop

/-- The writer waits, and a message is in the current buffer. -/
def waitingExample : AsyncLogging := after step new [.start, .test, .append [7], .lock, .wait]

/-- The same behind `stop`, when the writer has swapped. -/
def stoppedExample : AsyncLogging := after step waitingExample [.stop, .wake, .swap]

/-- `stop` finds the writer in its wait: the message is written. -/
theorem stop_flushes_iff_example : waitingExample.stored.flatten = [7] ∧
    waitingExample.stored.flatten <+: (after step (after step stoppedExample [.drop])
      [.write, .write, .recycle, .test]).written := by
  refine ⟨rfl, ?_⟩
  have hstop : step waitingExample .stop = some (after step waitingExample [.stop]) := rfl
  have hswap : Reaches step NoOverrun (after step waitingExample [.stop]) stoppedExample :=
    @reaches_after _ [.wake, .swap] (by decide +kernel) (by decide)
  have hdrop : Reaches step NoOverrun stoppedExample (after step stoppedExample [.drop]) :=
    Reaches.tail (a := .drop) .refl (fun _ => by decide +kernel) rfl
  refine (stop_flushes_iff (reaches_after (by decide +kernel) (by decide)) hstop
    ((hswap.trans hdrop).trans (reaches_after (by decide +kernel) (by decide))) rfl).mpr ?_
  exact Or.inl rfl

/-- The writer has not yet tested `running_`: the message is lost. -/
theorem stop_loses :
    ¬ ∀ s s' t : AsyncLogging, Reaches step NoOverrun new s → step s .stop = some s' →
      Reaches step NoOverrun s' t → t.pc = .returned → s.stored.flatten <+: t.written := by
  intro h
  have hlost := h (after step new [.start, .append [7]]) _ _
    (reaches_after (by decide +kernel) (by decide)) rfl
    (@reaches_after _ [.test] (by decide +kernel) (by decide)) rfl
  exact absurd hlost (by decide)

end AsyncLogging

end LearnMuduo
