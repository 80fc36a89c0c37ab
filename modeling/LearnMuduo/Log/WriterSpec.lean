/-
  LearnMuduo.Log.WriterSpec

  What each step of the logging does, and which buffers are empty.

  `Sound` is the invariant of the buffers: the spare ones hold nothing, those in
  `buffers_` are full, and the batch of the writer is long enough to give back what the
  writer has handed out.  So the writer never takes a buffer from an empty vector.
-/
import LearnMuduo.Log.AsyncLogging

namespace LearnMuduo

open Lib

/-- Between the swap and the end of the iteration. -/
def WriterPc.Busy : WriterPc → Prop
  | .dropping => True
  | .writing _ => True
  | .recycling => True
  | _ => False

namespace AsyncLogging

variable {s s' : AsyncLogging} {buf : Bytes}

section Steps

theorem append_ok (h : step s (.append buf) = some s') : s.locked = false ∧ s' = s.append buf := by
  simp only [step] at h
  split at h
  · cases h
  · rename_i hlocked
    exact ⟨Bool.not_eq_true _ ▸ hlocked, (Option.some.inj h).symm⟩

theorem start_ok (h : step s .start = some s') : s.pc = .ready ∧ s' =
    { s with running_ := true, pc := .testing, new_buffer1 := some .new
             new_buffer2 := some .new } :=
  Option.ite_none_right_eq_some.mp h |>.imp_right fun h => (Option.some.inj h).symm

theorem stop_ok (h : step s .stop = some s') : s.running_ = true ∧ s' =
    { s with running_ := false } :=
  Option.ite_none_right_eq_some.mp h |>.imp_right fun h => (Option.some.inj h).symm

theorem test_ok (h : step s .test = some s') : s.pc = .testing ∧ s' =
    { s with pc := if s.running_ then .locking else .returned } :=
  Option.ite_none_right_eq_some.mp h |>.imp_right fun h => (Option.some.inj h).symm

theorem lock_ok (h : step s .lock = some s') : s.pc = .locking ∧ s' = { s with pc := .entered } :=
  Option.ite_none_right_eq_some.mp h |>.imp_right fun h => (Option.some.inj h).symm

theorem wait_ok (h : step s .wait = some s') : s.pc = .entered ∧ s' =
    { s with pc := if s.buffers_to_write = [] then .waiting else .woken } :=
  Option.ite_none_right_eq_some.mp h |>.imp_right fun h => (Option.some.inj h).symm

theorem wake_ok (h : step s .wake = some s') : s.pc = .waiting ∧ s' = { s with pc := .woken } :=
  Option.ite_none_right_eq_some.mp h |>.imp_right fun h => (Option.some.inj h).symm

theorem swap_ok (h : step s .swap = some s') : s.pc = .woken ∧ ∃ buffer,
    s.new_buffer1 = some buffer ∧ s' =
      { s with
        current_buffer_ := buffer
        new_buffer1 := none
        buffers_ := s.buffers_to_write
        buffers_to_write := s.buffers_ ++ [s.current_buffer_]
        next_buffer_ := s.next_buffer_.or s.new_buffer2
        new_buffer2 := if s.next_buffer_.isSome then s.new_buffer2 else none
        pc := .dropping } := by
  simp only [step] at h
  split at h
  · rename_i buffer hpc hspare
    exact ⟨hpc, buffer, hspare, (Option.some.inj h).symm⟩
  · cases h

/-- The batch behind the drop. -/
def kept (s : AsyncLogging) : List (LogBuffer kLargeBuffer) :=
  if s.buffers_to_write.length > 16 then s.buffers_to_write.take 2 else s.buffers_to_write

theorem drop_ok (h : step s .drop = some s') : s.pc = .dropping ∧ s' =
    { s with buffers_to_write := s.kept, pc := .writing s.kept } :=
  Option.ite_none_right_eq_some.mp h |>.imp_right fun h => (Option.some.inj h).symm

theorem write_ok (h : step s .write = some s') :
    (∃ buffer rest, s.pc = .writing (buffer :: rest) ∧
      s' = { s with written := s.written ++ buffer.data, pc := .writing rest }) ∨
    s.pc = .writing [] ∧ s' = { s with pc := .recycling } := by
  simp only [step] at h
  split at h
  · rename_i buffer rest hpc
    exact Or.inl ⟨buffer, rest, hpc, (Option.some.inj h).symm⟩
  · rename_i hpc
    exact Or.inr ⟨hpc, (Option.some.inj h).symm⟩
  · cases h

theorem recycle_ok (h : step s .recycle = some s') : s.pc = .recycling ∧ ∃ r1 r2,
    refill s.new_buffer1 (s.buffers_to_write.take 2) = some r1 ∧
      refill s.new_buffer2 r1.2 = some r2 ∧ s' =
        { s with new_buffer1 := r1.1, new_buffer2 := r2.1, buffers_to_write := []
                 pc := .testing } := by
  obtain ⟨hpc, h⟩ := Option.ite_none_right_eq_some.mp h
  obtain ⟨r1, h1, h⟩ := Option.bind_eq_some_iff.mp h
  obtain ⟨r2, h2, h⟩ := Option.bind_eq_some_iff.mp h
  exact ⟨hpc, r1, r2, h1, h2, (Option.some.inj h).symm⟩

/-- The messages are changed by `append` alone, and `running_` is set by `start` alone. -/
theorem step_frame {a : LogAction} (happend : ∀ buf, a ≠ .append buf)
    (hs : step s a = some s') :
    s'.stored = s.stored ∧ s'.appended = s.appended ∧
      (a ≠ .start → s.running_ = false → s'.running_ = false) := by
  cases a with
  | append buf => exact absurd rfl (happend buf)
  | start =>
    obtain ⟨-, rfl⟩ := start_ok hs
    exact ⟨rfl, rfl, fun hno => absurd rfl hno⟩
  | stop => obtain ⟨-, rfl⟩ := stop_ok hs; exact ⟨rfl, rfl, fun _ _ => rfl⟩
  | test => obtain ⟨-, rfl⟩ := test_ok hs; exact ⟨rfl, rfl, fun _ h => h⟩
  | lock => obtain ⟨-, rfl⟩ := lock_ok hs; exact ⟨rfl, rfl, fun _ h => h⟩
  | wait => obtain ⟨-, rfl⟩ := wait_ok hs; exact ⟨rfl, rfl, fun _ h => h⟩
  | wake => obtain ⟨-, rfl⟩ := wake_ok hs; exact ⟨rfl, rfl, fun _ h => h⟩
  | swap => obtain ⟨-, buffer, -, rfl⟩ := swap_ok hs; exact ⟨rfl, rfl, fun _ h => h⟩
  | drop => obtain ⟨-, rfl⟩ := drop_ok hs; exact ⟨rfl, rfl, fun _ h => h⟩
  | write =>
    rcases write_ok hs with ⟨buffer, rest, -, rfl⟩ | ⟨-, rfl⟩
    · exact ⟨rfl, rfl, fun _ h => h⟩
    · exact ⟨rfl, rfl, fun _ h => h⟩
  | recycle => obtain ⟨-, r1, r2, -, -, rfl⟩ := recycle_ok hs; exact ⟨rfl, rfl, fun _ h => h⟩

/-- A message is stored behind those of before, or it is lost. -/
theorem append_logged (s : AsyncLogging) (buf : Bytes) :
    (s.append buf).appended = s.appended ++ [buf] ∧
      ((s.append buf).stored = s.stored ++ [buf] ∨ (s.append buf).stored = s.stored) := by
  -- both branches end in the store, of the state as it is or of the rotated one
  have hstore : ∀ m : AsyncLogging, m.stored = s.stored → m.appended = s.appended →
      (m.store buf).appended = s.appended ++ [buf] ∧
        ((m.store buf).stored = s.stored ++ [buf] ∨ (m.store buf).stored = s.stored) := by
    intro m hstored happended
    rw [store, ← hstored, ← happended]
    refine ⟨rfl, ?_⟩
    by_cases hfits : buf.length ≤ m.current_buffer_.avial
    · exact Or.inl (if_pos hfits)
    · exact Or.inr (if_neg hfits)
  unfold append
  split
  · exact hstore s rfl rfl
  · exact hstore s.rotate rfl rfl

theorem append_pc (s : AsyncLogging) (buf : Bytes) : (s.append buf).pc = s.pc := by
  unfold append
  split <;> rfl

theorem append_running (s : AsyncLogging) (buf : Bytes) :
    (s.append buf).running_ = s.running_ := by
  unfold append
  split <;> rfl

end Steps

/-! ## The buffers -/

structure Sound (s : AsyncLogging) : Prop where
  next : ∀ b ∈ s.next_buffer_, b.data = []
  spare1 : ∀ b ∈ s.new_buffer1, b.data = []
  spare2 : ∀ b ∈ s.new_buffer2, b.data = []
  full : ∀ b ∈ s.buffers_, b.avial = 0
  /-- The next buffer is missing only when an append has taken it. -/
  taken : s.next_buffer_ = none → s.buffers_ ≠ []
  idle : ¬ s.pc.Busy → s.buffers_to_write = []
  spares : ¬ s.pc.Busy → s.pc ≠ .ready → s.new_buffer1.isSome ∧ s.new_buffer2.isSome
  batch : s.pc.Busy → s.buffers_to_write ≠ [] ∧
    (s.new_buffer2 = none → 2 ≤ s.buffers_to_write.length)
  started : s.running_ = true → s.pc ≠ .ready

theorem new_sound : Sound new :=
  { next := fun b hb => by
      obtain rfl := Option.some.inj hb
      rfl
    spare1 := fun b hb => by cases hb
    spare2 := fun b hb => by cases hb
    full := fun b hb => by cases hb
    taken := fun h => by cases h
    idle := fun _ => rfl
    spares := fun _ hno => absurd rfl hno
    batch := fun hbusy => hbusy.elim
    started := fun hno => by cases hno }

/-- A step of the writer that moves no buffer. -/
theorem Sound.of_pc {pc : WriterPc} {written : Bytes} {running_ : Bool} (h : Sound s)
    (hbusy : pc.Busy ↔ s.pc.Busy) (hready : s.pc = .ready → pc = .ready)
    (hstart : running_ = true → pc ≠ .ready) :
    Sound { s with running_ := running_, pc := pc, written := written } :=
  { next := h.next
    spare1 := h.spare1
    spare2 := h.spare2
    full := h.full
    taken := h.taken
    idle := fun hno => h.idle (mt hbusy.mpr hno)
    spares := fun hno hne => h.spares (mt hbusy.mpr hno) (mt hready hne)
    batch := fun hb => h.batch (hbusy.mp hb)
    started := hstart }

theorem Sound.store (h : Sound s) : Sound (s.store buf) :=
  ⟨h.next, h.spare1, h.spare2, h.full, h.taken, h.idle, h.spares, h.batch, h.started⟩

theorem Sound.rotate (h : Sound s) (hfull : s.current_buffer_.avial = 0) : Sound s.rotate := by
  refine ⟨fun b hb => (by cases hb), h.spare1, h.spare2, ?_, ?_, h.idle, h.spares, h.batch,
    h.started⟩
  · intro b hb
    rcases List.mem_append.mp hb with hb | hb
    · exact h.full b hb
    · rw [List.mem_singleton.mp hb]
      exact hfull
  · intro _
    exact List.append_ne_nil_of_right_ne_nil s.buffers_ (List.cons_ne_nil _ _)

/-- The buffer that becomes the current one is empty. -/
theorem Sound.rotate_current (h : Sound s) : s.rotate.current_buffer_.data = [] := by
  show (s.next_buffer_.getD .new).data = []
  cases hnext : s.next_buffer_ with
  | none => rfl
  | some b => exact h.next b hnext

theorem Sound.append (h : Sound s) : Sound (s.append buf) := by
  unfold AsyncLogging.append
  split
  · exact h.store
  · rename_i hfull
    exact (h.rotate (not_not.mp hfull)).store

/-- The batch is what the front ends have filled, with their current buffer. -/
theorem Sound.swap (h : Sound s) (hs : step s .swap = some s') : Sound s' := by
  obtain ⟨hpc, buffer, -, rfl⟩ := swap_ok hs
  have hidle : ¬ s.pc.Busy := by
    rw [hpc]
    exact id
  -- outside the busy part of the loop both spare buffers are there
  obtain ⟨-, hspare2⟩ := h.spares hidle (by rw [hpc]; exact WriterPc.noConfusion)
  obtain ⟨spare, hspare⟩ := Option.isSome_iff_exists.mp hspare2
  refine ⟨?_, fun b hb => (by cases hb), ?_, ?_, ?_, fun hno => absurd trivial hno,
    fun hno => absurd trivial hno, fun _ => ⟨?_, ?_⟩, fun _ => WriterPc.noConfusion⟩
  · intro b hb
    cases hnext : s.next_buffer_ with
    | none =>
      simp only [hnext, Option.none_or] at hb
      exact h.spare2 b hb
    | some next =>
      simp only [hnext, Option.some_or] at hb
      exact h.next b (hnext ▸ hb)
  · intro b hb
    simp only at hb
    split at hb
    · exact h.spare2 b hb
    · cases hb
  · -- `buffers_` takes the writer's batch, which is empty by now
    intro b hb
    rw [show s.buffers_to_write = [] from h.idle hidle] at hb
    cases hb
  · intro hnone
    simp only [hspare, Option.or_eq_none_iff] at hnone
    cases hnone.2
  · exact List.append_ne_nil_of_right_ne_nil s.buffers_ (List.cons_ne_nil _ _)
  · -- the next buffer is missing only if an append took it, and then `buffers_` is not empty
    intro hnone
    simp only [hspare, ite_eq_right_iff, reduceCtorEq, imp_false, Bool.not_eq_true,
      Option.isSome_eq_false_iff, Option.isNone_iff_eq_none] at hnone
    have hpos := List.length_pos_iff.mpr (h.taken hnone)
    rw [List.length_append, List.length_singleton]
    omega

theorem kept_sublist (s : AsyncLogging) : s.kept.Sublist s.buffers_to_write := by
  unfold kept
  split
  · exact List.take_sublist 2 _
  · exact List.Sublist.refl _

theorem kept_length (s : AsyncLogging) :
    s.kept.length = if s.buffers_to_write.length > 16 then 2 else s.buffers_to_write.length := by
  unfold kept
  split
  · rw [List.length_take]
    omega
  · rfl

theorem Sound.drop (h : Sound s) (hs : step s .drop = some s') : Sound s' := by
  obtain ⟨hpc, rfl⟩ := drop_ok hs
  have hbusy : s.pc.Busy := by
    rw [hpc]
    trivial
  obtain ⟨hne, htwo⟩ := h.batch hbusy
  have hpos := List.length_pos_iff.mpr hne
  refine ⟨h.next, h.spare1, h.spare2, h.full, h.taken, fun hno => absurd trivial hno,
    fun hno => absurd trivial hno, fun _ => ⟨?_, ?_⟩, fun _ => WriterPc.noConfusion⟩
  · -- cut down or not, the batch keeps a buffer, and the two that are given back
    rw [← List.length_pos_iff]
    show 0 < s.kept.length
    rw [kept_length]
    split <;> omega
  · intro hnone
    show 2 ≤ s.kept.length
    rw [kept_length]
    have := htwo hnone
    split <;> omega

theorem refill_ok {spare : Option (LogBuffer kLargeBuffer)}
    {buffers : List (LogBuffer kLargeBuffer)}
    {r : Option (LogBuffer kLargeBuffer) × List (LogBuffer kLargeBuffer)}
    (hspare : ∀ b ∈ spare, b.data = []) (h : refill spare buffers = some r) :
    ∃ b, r.1 = some b ∧ b.data = [] := by
  unfold refill at h
  split at h
  · rename_i b
    obtain rfl := Option.some.inj h
    exact ⟨b, rfl, hspare b rfl⟩
  · split at h
    · rename_i b _
      obtain rfl := Option.some.inj h
      exact ⟨b.reset, rfl, rfl⟩
    · cases h

/-- A spare buffer is there, or one can be taken from the back. -/
theorem refill_some (spare : Option (LogBuffer kLargeBuffer))
    (buffers : List (LogBuffer kLargeBuffer)) (h : spare = none → buffers ≠ []) :
    ∃ r, refill spare buffers = some r ∧ buffers.length ≤ r.2.length + 1 := by
  unfold refill
  cases spare with
  | some b => exact ⟨_, rfl, Nat.le_succ _⟩
  | none =>
    have hlast := List.getLast?_eq_some_getLast (h rfl)
    refine ⟨(some ((buffers.getLast (h rfl)).reset), buffers.dropLast), ?_, ?_⟩
    · simp only [hlast]
    · show buffers.length ≤ buffers.dropLast.length + 1
      rw [List.length_dropLast]
      omega

theorem Sound.recycle (h : Sound s) (hs : step s .recycle = some s') : Sound s' := by
  obtain ⟨-, r1, r2, h1, h2, rfl⟩ := recycle_ok hs
  -- what `refill` leaves in a spare place is empty, whether it was there or was taken
  obtain ⟨b1, hb1, hempty1⟩ := refill_ok h.spare1 h1
  obtain ⟨b2, hb2, hempty2⟩ := refill_ok h.spare2 h2
  refine ⟨h.next, ?_, ?_, h.full, h.taken, fun _ => rfl, fun _ _ => ⟨?_, ?_⟩, fun hb => hb.elim,
    fun _ => WriterPc.noConfusion⟩
  · intro b hb
    obtain rfl := Option.some.inj (hb1.symm.trans hb)
    exact hempty1
  · intro b hb
    obtain rfl := Option.some.inj (hb2.symm.trans hb)
    exact hempty2
  · show r1.1.isSome = true
    rw [hb1]
    rfl
  · show r2.1.isSome = true
    rw [hb2]
    rfl

theorem step_sound {a : LogAction} (h : Sound s) (hs : step s a = some s') : Sound s' := by
  cases a with
  | append buf =>
    obtain ⟨-, rfl⟩ := append_ok hs
    exact h.append
  -- the two spare buffers are made here
  | start =>
    obtain ⟨hpc, rfl⟩ := start_ok hs
    have hbatch := h.idle (by rw [hpc]; exact id)
    refine ⟨h.next, ?_, ?_, h.full, h.taken, fun _ => hbatch, fun _ _ => ⟨rfl, rfl⟩,
      fun hb => hb.elim, fun _ => WriterPc.noConfusion⟩
    all_goals
      intro b hb
      obtain rfl := Option.some.inj hb
      rfl
  | stop =>
    obtain ⟨-, rfl⟩ := stop_ok hs
    exact h.of_pc Iff.rfl id fun hno => by cases hno
  | test =>
    obtain ⟨hpc, rfl⟩ := test_ok hs
    refine h.of_pc ?_ (by rw [hpc]; exact fun hno => by cases hno) fun _ => ?_
    · rw [hpc]
      split <;> exact Iff.rfl
    · split <;> exact WriterPc.noConfusion
  | lock =>
    obtain ⟨hpc, rfl⟩ := lock_ok hs
    exact h.of_pc (by rw [hpc]; exact Iff.rfl) (by rw [hpc]; exact fun hno => by cases hno)
      fun _ => WriterPc.noConfusion
  | wait =>
    obtain ⟨hpc, rfl⟩ := wait_ok hs
    refine h.of_pc ?_ (by rw [hpc]; exact fun hno => by cases hno) fun _ => ?_
    · rw [hpc]
      split <;> exact Iff.rfl
    · split <;> exact WriterPc.noConfusion
  | wake =>
    obtain ⟨hpc, rfl⟩ := wake_ok hs
    exact h.of_pc (by rw [hpc]; exact Iff.rfl) (by rw [hpc]; exact fun hno => by cases hno)
      fun _ => WriterPc.noConfusion
  | swap => exact h.swap hs
  | drop => exact h.drop hs
  | write =>
    rcases write_ok hs with ⟨buffer, rest, hpc, rfl⟩ | ⟨hpc, rfl⟩
    · exact h.of_pc (by rw [hpc]; exact Iff.rfl) (by rw [hpc]; exact fun hno => by cases hno)
        fun _ => WriterPc.noConfusion
    · exact h.of_pc (by rw [hpc]; exact Iff.rfl) (by rw [hpc]; exact fun hno => by cases hno)
        fun _ => WriterPc.noConfusion
  | recycle => exact h.recycle hs

theorem reachable_sound {ok : AsyncLogging → LogAction → Prop} (h : Reaches step ok new s) :
    Sound s :=
  h.invariant new_sound fun _ _ _ hx _ hs => step_sound hx hs

/-- A buffer is at the back of the batch whenever a spare one has to be taken from there. -/
theorem Sound.recycles (h : Sound s) (hpc : s.pc = .recycling) :
    ∃ s', s.recycle = some s' := by
  obtain ⟨hne, htwo⟩ := h.batch (by rw [hpc]; trivial)
  have hpos := List.length_pos_iff.mpr hne
  -- the batch is resized to two, and gives back as many as are missing
  have htake : (s.buffers_to_write.take 2).length = min 2 s.buffers_to_write.length :=
    List.length_take
  obtain ⟨r1, h1, hlen⟩ := refill_some s.new_buffer1 (s.buffers_to_write.take 2)
    fun _ => List.length_pos_iff.mp (by omega)
  obtain ⟨r2, h2, -⟩ := refill_some s.new_buffer2 r1.2 fun hnone => by
    have := htwo hnone
    exact List.length_pos_iff.mp (by omega)
  rw [AsyncLogging.recycle, h1, Option.bind_some, h2]
  exact ⟨_, rfl⟩

/-- So in every reachable state the writer can go on, until it has returned. -/
theorem writer_proceeds (h : Reachable step new s) (hready : s.pc ≠ .ready)
    (hreturned : s.pc ≠ .returned) :
    ∃ a ∈ [LogAction.test, .lock, .wait, .wake, .swap, .drop, .write, .recycle],
      (step s a).isSome = true := by
  have hsound := reachable_sound h
  cases hpc : s.pc with
  | ready => exact absurd hpc hready
  | testing => exact ⟨.test, by simp, by simp [step, hpc]⟩
  | locking => exact ⟨.lock, by simp, by simp [step, hpc]⟩
  | entered => exact ⟨.wait, by simp, by simp [step, hpc]⟩
  | waiting => exact ⟨.wake, by simp, by simp [step, hpc]⟩
  | woken =>
    obtain ⟨hspare, -⟩ := hsound.spares (by rw [hpc]; exact id) hready
    obtain ⟨b, hb⟩ := Option.isSome_iff_exists.mp hspare
    exact ⟨.swap, by simp, by simp [step, hpc, hb]⟩
  | dropping => exact ⟨.drop, by simp, by simp [step, hpc]⟩
  | writing rest =>
    refine ⟨.write, by simp, ?_⟩
    cases rest <;> simp [step, hpc]
  | recycling =>
    obtain ⟨s', hs⟩ := hsound.recycles hpc
    exact ⟨.recycle, by simp, by rw [step, if_pos hpc, hs]; rfl⟩
  | returned => exact absurd hpc hreturned

end AsyncLogging

end LearnMuduo
