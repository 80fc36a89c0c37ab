/-
  LearnMuduo.Log.LogOutput

  The asynchronous log with its file (Log/asynclogging.cc, Log/Logfile.cc): each buffer that
  the writer writes goes through `LogFile::append` to a `FILE` whose calls may fall short.

  What the file gets is compared with `written`, what was passed on.  `FileWritter` counts what
  it was passed; so the count and the length of the file differ as soon as a byte is lost.
-/
import LearnMuduo.Log.LogFile
import LearnMuduo.Log.WholeRecords

namespace LearnMuduo

open Lib

/-- The logging, and `output` of `writeThread`. -/
structure LogOutput where
  logging : AsyncLogging
  output : FileWritter

namespace LogOutput

/-- Nothing is logged, and the file has just been opened to be appended to. -/
def new : LogOutput :=
  { logging := .new, output := { file_ := { bytes := [], calls := 0 }, writtenbytes_ := 0 } }

/-- The block the step writes. -/
def block (s : LogOutput) (a : LogAction) : Option Bytes :=
  match a, s.logging.pc with
  | .write, .writing (buffer :: _) => some buffer.data
  | _, _ => none

/-- A step of the logging; `output.append` is a part of the one that writes a buffer. -/
def step (answers : Nat → Nat) (s : LogOutput) (a : LogAction) : Option LogOutput :=
  match s.logging.step a, s.block a with
  | none, _ => none
  | some logging, none => some { s with logging := logging }
  | some logging, some data =>
    match s.output.append answers data data.length with
    | .ok output => some { logging := logging, output := output }
    | .error _ => none

/-- If the step writes a block, the calls of `fwrite` take all of it. -/
def Takes (answers : Nat → Nat) (s : LogOutput) (a : LogAction) : Prop :=
  ∀ data, s.block a = some data → FileWritter.Accepted answers s.output.file_.calls data.length

section Step

variable {answers : Nat → Nat} {s s' : LogOutput} {a : LogAction}

theorem block_length {data : Bytes} (h : s.block a = some data) : data.length ≤ kMaxSize := by
  unfold block at h
  split at h
  · rename_i buffer _ _
    obtain rfl := Option.some.inj h
    exact Nat.le_trans buffer.fits (by decide)
  · cases h

/-- The step writes no block, and what was passed on stays. -/
theorem written_of_none (hblock : s.block a = none) {logging : AsyncLogging}
    (hs : s.logging.step a = some logging) : logging.written = s.logging.written := by
  cases a with
  | append buf =>
    obtain ⟨-, rfl⟩ := AsyncLogging.append_ok hs
    simp only [AsyncLogging.append]
    split <;> rfl
  | write =>
    rcases AsyncLogging.write_ok hs with ⟨buffer, rest, hpc, -⟩ | ⟨-, rfl⟩
    · simp only [block, hpc] at hblock
      cases hblock
    · rfl
  | start => obtain ⟨-, rfl⟩ := AsyncLogging.start_ok hs; rfl
  | stop => obtain ⟨-, rfl⟩ := AsyncLogging.stop_ok hs; rfl
  | test => obtain ⟨-, rfl⟩ := AsyncLogging.test_ok hs; rfl
  | lock => obtain ⟨-, rfl⟩ := AsyncLogging.lock_ok hs; rfl
  | wait => obtain ⟨-, rfl⟩ := AsyncLogging.wait_ok hs; rfl
  | wake => obtain ⟨-, rfl⟩ := AsyncLogging.wake_ok hs; rfl
  | swap => obtain ⟨-, buffer, -, rfl⟩ := AsyncLogging.swap_ok hs; rfl
  | drop => obtain ⟨-, rfl⟩ := AsyncLogging.drop_ok hs; rfl
  | recycle => obtain ⟨-, r1, r2, -, -, rfl⟩ := AsyncLogging.recycle_ok hs; rfl

theorem written_of_some {data : Bytes} (hblock : s.block a = some data) {logging : AsyncLogging}
    (hs : s.logging.step a = some logging) :
    logging.written = s.logging.written ++ data := by
  unfold block at hblock
  split at hblock
  · rename_i buffer rest hpc
    obtain rfl := Option.some.inj hblock
    rcases AsyncLogging.write_ok hs with ⟨buffer', rest', hpc', rfl⟩ | ⟨hpc', -⟩
    · obtain ⟨rfl, -⟩ := List.cons.inj (WriterPc.writing.inj (hpc.symm.trans hpc'))
      rfl
    · cases hpc.symm.trans hpc'
  · cases hblock

/-- What a step does to the file. -/
theorem step_effect (hs : s.step answers a = some s') :
    s.logging.step a = some s'.logging ∧
      ∃ data n, s'.logging.written = s.logging.written ++ data ∧ n ≤ data.length ∧
        s'.output.file_.bytes = s.output.file_.bytes ++ data.take n ∧
        s'.output.writtenbytes_ = s.output.writtenbytes_ + Int64.ofNat data.length ∧
        (s.Takes answers a → n = data.length) := by
  unfold step at hs
  split at hs
  · cases hs
  · rename_i logging hlogging hblock
    obtain rfl := Option.some.inj hs
    refine ⟨hlogging, [], 0, ?_, Nat.le_refl 0, ?_, ?_, fun _ => rfl⟩
    · rw [List.append_nil]
      exact written_of_none hblock hlogging
    · exact (List.append_nil _).symm
    · exact (Int64.add_zero _).symm
  · rename_i logging data hlogging hblock
    obtain ⟨w, n, happend, hn, hbytes, hcount, hall⟩ := FileWritter.append_returns answers s.output
      (Nat.le_refl data.length) (block_length hblock)
    rw [happend] at hs
    obtain rfl := Option.some.inj hs
    exact ⟨hlogging, data, n, written_of_some hblock hlogging, hn, hbytes, hcount,
      fun htakes => hall.mpr (htakes data hblock)⟩

/-- Writing to the file never stops the writer. -/
theorem step_isSome : (s.step answers a).isSome = (s.logging.step a).isSome := by
  unfold step
  split
  · rename_i hlogging
    rw [hlogging]
    rfl
  · rename_i logging hlogging _
    rw [hlogging]
    rfl
  · rename_i logging data hlogging hblock
    obtain ⟨w, n, happend, -⟩ := FileWritter.append_returns answers s.output
      (Nat.le_refl data.length) (block_length hblock)
    rw [hlogging, happend]
    rfl

/-- What holds of the log and its file after any steps. -/
structure Filed (s : LogOutput) : Prop where
  sound : s.logging.Sound
  recorded : s.logging.Recorded List.Sublist
  stored : s.logging.stored.Sublist s.logging.appended
  bytes : s.output.file_.bytes.Sublist s.logging.written
  count : s.output.writtenbytes_ = Int64.ofNat s.logging.written.length

theorem new_filed : Filed new where
  sound := AsyncLogging.new_sound
  recorded := AsyncLogging.new_recorded (List.Sublist.refl [])
  stored := List.Sublist.refl []
  bytes := List.Sublist.refl []
  count := rfl

theorem step_filed (h : Filed s) (hs : s.step answers a = some s') : Filed s' := by
  obtain ⟨hlogging, data, n, hwritten, -, hbytes, hcount, -⟩ := step_effect hs
  refine
    { sound := AsyncLogging.step_sound h.sound hlogging
      recorded := ?_
      stored := AsyncLogging.step_stored h.stored hlogging
      bytes := ?_
      count := ?_ }
  · by_cases hdrop : a = .drop
    · subst hdrop
      exact h.recorded.drop hlogging
    · exact AsyncLogging.step_recorded h.recorded h.sound
        (fun l l' x hl => hl.append (List.Sublist.refl [x])) hdrop hlogging
  · rw [hbytes, hwritten]
    exact h.bytes.append (List.take_sublist n data)
  · rw [hcount, hwritten, h.count, List.length_append, Int64.ofNat_add]

/-- What was passed on are whole messages. -/
theorem Filed.messages (h : Filed s) :
    ∃ ms : List Bytes, ms.Sublist s.logging.appended ∧ s.logging.written = ms.flatten := by
  obtain ⟨ms, rest, hms, -, hsub⟩ := h.recorded
  exact ⟨ms, ((List.sublist_append_left ms rest).trans hsub).trans h.stored, hms⟩

theorem step_whole (h : s.output.file_.bytes = s.logging.written) (htakes : s.Takes answers a)
    (hs : s.step answers a = some s') : s'.output.file_.bytes = s'.logging.written := by
  obtain ⟨-, data, n, hwritten, -, hbytes, -, hall⟩ := step_effect hs
  rw [hbytes, hwritten, h, hall htakes, List.take_length]

end Step

section Run

variable {answers : Nat → Nat} {s : LogOutput}

theorem run_filed (h : Reachable (step answers) new s) : Filed s :=
  h.invariant new_filed fun _ _ _ hx _ hs => step_filed hx hs

theorem run_whole (h : Reaches (step answers) (Takes answers) new s) :
    s.output.file_.bytes = s.logging.written :=
  h.invariant (P := fun s => s.output.file_.bytes = s.logging.written) rfl
    fun _ _ _ hx htakes hs => step_whole hx htakes hs

/-- The count is right as long as nothing has been lost, and no longer. -/
theorem Filed.count_iff (h : Filed s) (hsmall : s.logging.written.length < 2 ^ 63) :
    s.output.writtenbytes_.toInt = s.output.file_.bytes.length ↔
      s.output.file_.bytes = s.logging.written := by
  have hcount : s.output.writtenbytes_.toInt = s.logging.written.length := by
    rw [h.count]
    exact Int64.toInt_ofNat_of_lt hsmall
  rw [hcount, Int.natCast_inj]
  constructor
  · intro hlength
    exact h.bytes.eq_of_length hlength.symm
  · intro hbytes
    rw [hbytes]

end Run

/-- The file holds whole messages, in their order, less the bytes its calls did not take; and
    `writtenbytes_` tells whether any are missing.  None are, if the calls of `fwrite` take
    every block, the calls after a short one included. -/
theorem file_whole (answers : Nat → Nat) (s : LogOutput) (h : Reachable (step answers) new s) :
    (∃ ms : List Bytes, ms.Sublist s.logging.appended ∧
      s.output.file_.bytes.Sublist ms.flatten ∧
      (ms.flatten.length < 2 ^ 63 →
        (s.output.writtenbytes_.toInt = s.output.file_.bytes.length ↔
          s.output.file_.bytes = ms.flatten)) ∧
      (Reaches (step answers) (Takes answers) new s → s.output.file_.bytes = ms.flatten)) ∧
    ∀ a, (s.step answers a).isSome = (s.logging.step a).isSome := by
  have hfiled : Filed s := run_filed h
  obtain ⟨ms, hsub, hms⟩ := hfiled.messages
  refine ⟨⟨ms, hsub, ?_, ?_, ?_⟩, fun a => step_isSome⟩
  · rw [← hms]
    exact hfiled.bytes
  · rw [← hms]
    exact hfiled.count_iff
  · intro hwhole
    rw [← hms]
    exact run_whole hwhole

/-- The second call for the block takes nothing: a byte of the message is lost. -/
def short (k : Nat) : Nat :=
  if k = 0 then 2 else if k = 1 then 0 else kMaxSize

/-- A message is logged and written, then the file is short of it by a byte. -/
theorem file_whole_example :
    ∃ s, walk (step short) new [.append [1, 2, 3], .start, .test, .lock, .wait, .wake, .swap,
        .drop, .write] = some s ∧
      s.output.file_.bytes = [1, 2] ∧ s.output.writtenbytes_ = 3 ∧
      (∃ ms : List Bytes, ms.Sublist s.logging.appended ∧
        s.output.file_.bytes.Sublist ms.flatten ∧
        (ms.flatten.length < 2 ^ 63 →
          (s.output.writtenbytes_.toInt = s.output.file_.bytes.length ↔
            s.output.file_.bytes = ms.flatten)) ∧
        (Reaches (step short) (Takes short) new s → s.output.file_.bytes = ms.flatten)) ∧
      ∀ a, (s.step short a).isSome = (s.logging.step a).isSome := by
  have hrun : (walk (step short) new [.append [1, 2, 3], .start, .test, .lock, .wait, .wake,
      .swap, .drop, .write]).any (fun s =>
        s.output.file_.bytes = [1, 2] && s.output.writtenbytes_ = 3) = true := by
    decide +kernel
  obtain ⟨s, hs, hend⟩ := (Option.any_eq_true _ _).mp hrun
  obtain ⟨hbytes, hcount⟩ := (Bool.and_eq_true _ _).mp hend
  exact ⟨s, hs, of_decide_eq_true hbytes, of_decide_eq_true hcount,
    file_whole short s (Reachable.of_walk hs)⟩

end LogOutput

end LearnMuduo
