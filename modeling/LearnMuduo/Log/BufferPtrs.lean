/-
  LearnMuduo.Log.BufferPtrs

  The pointers of `AsyncLogging` (Log/asynclogging.cc).

  Every buffer is behind a `std::unique_ptr`, which a move leaves empty.  Here the steps of
  Log/AsyncLogging are those of the source on such pointers: to use an empty one, or the
  back of an empty vector, is a fault.  What the steps of Log/AsyncLogging do to buffers
  these do to the pointers to them (`step_image`), so the invariant of the buffers says
  that no step ends in a fault.
-/
import LearnMuduo.Lib.Run
import LearnMuduo.Log.WriterSpec

namespace LearnMuduo

open Lib

/-- `std::unique_ptr<LogBuffer<kLargeBuffer>>`. -/
abbrev BufferPtr := Option (LogBuffer kLargeBuffer)

/-- `*p`. -/
def BufferPtr.deref (p : BufferPtr) : Except Fault (LogBuffer kLargeBuffer) :=
  match p with
  | some b => .ok b
  | none => .error .dangling

/-- Where the thread is in `writeThread`, as `WriterPc`. -/
inductive PtrPc where
  | ready
  | testing
  | locking
  | entered
  | waiting
  | woken
  | dropping
  | writing (rest : List BufferPtr)
  | recycling
  | returned
  deriving DecidableEq

structure BufferPtrs where
  running_ : Bool
  current_buffer_ : BufferPtr
  next_buffer_ : BufferPtr
  buffers_ : List BufferPtr
  pc : PtrPc
  new_buffer1 : BufferPtr
  new_buffer2 : BufferPtr
  buffers_to_write : List BufferPtr

namespace BufferPtrs

def new : BufferPtrs :=
  { running_ := false, current_buffer_ := some .new, next_buffer_ := some .new, buffers_ := []
    pc := .ready, new_buffer1 := none, new_buffer2 := none, buffers_to_write := [] }

/-- `current_buffer_->append(buf, len)`. -/
def store (s : BufferPtrs) (buf : Bytes) : Except Fault BufferPtrs :=
  s.current_buffer_.deref >>= fun b => .ok { s with current_buffer_ := some (b.append buf) }

/-- `buffers_.push_back(std::move(current_buffer_))`. -/
def pushCurrent (s : BufferPtrs) : BufferPtrs :=
  { s with buffers_ := s.buffers_ ++ [s.current_buffer_], current_buffer_ := none }

/-- The next buffer becomes the current one, or a new one does. -/
def refillCurrent (s : BufferPtrs) : BufferPtrs :=
  if s.next_buffer_.isSome then { s with current_buffer_ := s.next_buffer_, next_buffer_ := none }
  else { s with current_buffer_ := some .new }

def append (s : BufferPtrs) (buf : Bytes) : Except Fault BufferPtrs :=
  s.current_buffer_.deref >>= fun b =>
    if b.avial ≠ 0 then s.store buf else s.pushCurrent.refillCurrent.store buf

/-- Whether the writer holds `mutex_`. -/
def locked (s : BufferPtrs) : Bool := s.pc = .entered ∨ s.pc = .woken

/-- The first spare becomes the current buffer, and `buffers_to_write.swap(buffers_)`. -/
def takeBatch (s : BufferPtrs) : BufferPtrs :=
  { s with
    current_buffer_ := s.new_buffer1
    new_buffer1 := none
    buffers_ := s.buffers_to_write
    buffers_to_write := s.buffers_ }

/-- The critical section behind the wait. -/
def swap (s : BufferPtrs) : BufferPtrs :=
  let s := s.pushCurrent.takeBatch
  if s.next_buffer_.isSome then s
  else { s with next_buffer_ := s.new_buffer2, new_buffer2 := none }

/-- `erase(begin() + 2, end())` when there are too many. -/
def drop (buffers : List BufferPtr) : List BufferPtr :=
  if buffers.length > 16 then buffers.take 2 else buffers

def resize (buffers : List BufferPtr) : List BufferPtr :=
  if buffers.length > 2 then buffers.take 2 else buffers

/-- An empty spare takes the buffer at the back and resets it. -/
def refill (spare : BufferPtr) (buffers : List BufferPtr) :
    Except Fault (BufferPtr × List BufferPtr) :=
  if spare.isSome then .ok (spare, buffers)
  else
    match buffers.getLast? with
    | some p => p.deref >>= fun b => .ok (some b.reset, buffers.dropLast)
    | none => .error .outOfBounds

def recycle (s : BufferPtrs) : Except Fault BufferPtrs :=
  refill s.new_buffer1 (resize s.buffers_to_write) >>= fun r1 =>
    refill s.new_buffer2 r1.2 >>= fun r2 =>
      .ok { s with new_buffer1 := r1.1, new_buffer2 := r2.1, buffers_to_write := []
                   pc := .testing }

/-- `none` when the step is not enabled, as in `AsyncLogging.step`. -/
def step (s : BufferPtrs) : LogAction → Option (Except Fault BufferPtrs)
  | .append buf => if s.locked then none else some (s.append buf)
  | .start =>
    if s.pc = .ready then
      some (.ok { s with running_ := true, pc := .testing, new_buffer1 := some .new
                         new_buffer2 := some .new })
    else none
  | .stop => if s.running_ then some (.ok { s with running_ := false }) else none
  | .test =>
    if s.pc = .testing then
      some (.ok { s with pc := if s.running_ then .locking else .returned })
    else none
  | .lock => if s.pc = .locking then some (.ok { s with pc := .entered }) else none
  | .wait =>
    if s.pc = .entered then
      some (.ok { s with pc := if s.buffers_to_write = [] then .waiting else .woken })
    else none
  | .wake => if s.pc = .waiting then some (.ok { s with pc := .woken }) else none
  | .swap => if s.pc = .woken then some (.ok { s.swap with pc := .dropping }) else none
  | .drop =>
    if s.pc = .dropping then
      let kept := drop s.buffers_to_write
      some (.ok { s with buffers_to_write := kept, pc := .writing kept })
    else none
  | .write =>
    match s.pc with
    | .writing (p :: rest) => some (p.deref >>= fun _ => .ok { s with pc := .writing rest })
    | .writing [] => some (.ok { s with pc := .recycling })
    | _ => none
  | .recycle => if s.pc = .recycling then some s.recycle else none

/-- The step where it does not end in a fault. -/
def next (s : BufferPtrs) (a : LogAction) : Option BufferPtrs := (s.step a).bind Except.toOption

/-! ## The pointers to the buffers -/

end BufferPtrs

def WriterPc.image : WriterPc → PtrPc
  | .ready => .ready
  | .testing => .testing
  | .locking => .locking
  | .entered => .entered
  | .waiting => .waiting
  | .woken => .woken
  | .dropping => .dropping
  | .writing rest => .writing (rest.map some)
  | .recycling => .recycling
  | .returned => .returned

namespace BufferPtrs

/-- A pointer to every buffer. -/
def image (s : AsyncLogging) : BufferPtrs :=
  { running_ := s.running_
    current_buffer_ := some s.current_buffer_
    next_buffer_ := s.next_buffer_
    buffers_ := s.buffers_.map some
    pc := s.pc.image
    new_buffer1 := s.new_buffer1
    new_buffer2 := s.new_buffer2
    buffers_to_write := s.buffers_to_write.map some }

section Image

variable {s : AsyncLogging} {buf : Bytes}

theorem pc_image_iff (pc : WriterPc) (hpc : ∀ rest, pc ≠ .writing rest) :
    s.pc.image = pc.image ↔ s.pc = pc := by
  cases s.pc <;> cases pc <;> simp [WriterPc.image] at *

theorem swap_batch (s : BufferPtrs) :
    s.swap.buffers_to_write = s.buffers_ ++ [s.current_buffer_] := by
  simp only [swap]
  split <;> rfl

theorem store_image : (image s).store buf = .ok (image (s.store buf)) := rfl

theorem append_image : (image s).append buf = .ok (image (s.append buf)) := by
  show (if s.current_buffer_.avial ≠ 0 then _ else _) = _
  unfold AsyncLogging.append
  split
  · exact store_image
  · -- the full buffer joins the others, and another one takes its place
    have hrotate : (image s).pushCurrent.refillCurrent = image s.rotate := by
      unfold refillCurrent pushCurrent AsyncLogging.rotate image
      cases s.next_buffer_ <;> simp
    rw [hrotate]
    exact store_image

theorem swap_image {buffer : LogBuffer kLargeBuffer} (hspare : s.new_buffer1 = some buffer) :
    (image s).swap = image
      { s with
        current_buffer_ := buffer
        new_buffer1 := none
        buffers_ := s.buffers_to_write
        buffers_to_write := s.buffers_ ++ [s.current_buffer_]
        next_buffer_ := s.next_buffer_.or s.new_buffer2
        new_buffer2 := if s.next_buffer_.isSome then s.new_buffer2 else none } := by
  unfold swap takeBatch pushCurrent image
  cases hnext : s.next_buffer_ <;> simp [hspare]

theorem drop_image (buffers : List (LogBuffer kLargeBuffer)) :
    drop (buffers.map some)
      = (if buffers.length > 16 then buffers.take 2 else buffers).map some := by
  rw [drop, List.length_map]
  split
  · exact List.map_take.symm
  · rfl

theorem resize_image (buffers : List (LogBuffer kLargeBuffer)) :
    resize (buffers.map some) = (buffers.take 2).map some := by
  rw [resize, List.length_map]
  split
  · exact List.map_take.symm
  · rw [List.take_of_length_le (by omega)]

/-- A spare that is refilled from buffers is refilled from the pointers to them. -/
theorem refill_image {spare : BufferPtr} {buffers : List (LogBuffer kLargeBuffer)}
    {r : BufferPtr × List (LogBuffer kLargeBuffer)}
    (h : AsyncLogging.refill spare buffers = some r) :
    refill spare (buffers.map some) = .ok (r.1, r.2.map some) := by
  unfold AsyncLogging.refill at h
  cases spare with
  | some b =>
    obtain rfl := Option.some.inj h
    rfl
  | none =>
    simp only at h
    split at h
    · rename_i b hlast
      obtain rfl := Option.some.inj h
      rw [refill, if_neg (by decide), List.getLast?_map, hlast, List.map_dropLast]
      rfl
    · cases h

theorem recycle_image {s' : AsyncLogging} (h : s.recycle = some s') :
    (image s).recycle = .ok (image s') := by
  obtain ⟨r1, h1, h⟩ := Option.bind_eq_some_iff.mp h
  obtain ⟨r2, h2, h⟩ := Option.bind_eq_some_iff.mp h
  obtain rfl := Option.some.inj h
  have hfirst : refill (image s).new_buffer1 (resize (image s).buffers_to_write)
      = .ok (r1.1, r1.2.map some) := by
    rw [show resize (image s).buffers_to_write = _ from resize_image s.buffers_to_write]
    exact refill_image h1
  rw [recycle, hfirst, ok_then, show refill (image s).new_buffer2 _ = _ from refill_image h2]
  rfl

theorem locked_image : (image s).locked = s.locked := by
  have hentered : s.pc.image = .entered ↔ s.pc = .entered := pc_image_iff .entered nofun
  have hwoken : s.pc.image = .woken ↔ s.pc = .woken := pc_image_iff .woken nofun
  unfold locked AsyncLogging.locked image
  simp only [hentered, hwoken]

/-- A step taken at one place of the loop. -/
theorem ite_image (pc : WriterPc) {p : PtrPc} (hp : p = pc.image)
    (hpc : ∀ rest, pc ≠ .writing rest) {x : AsyncLogging} {y : BufferPtrs}
    (h : s.pc = pc → y = image x) :
    (if (image s).pc = p then some (Except.ok y : Except Fault BufferPtrs) else none)
      = (if s.pc = pc then some x else none).map fun s' => .ok (image s') := by
  have hiff : (image s).pc = p ↔ s.pc = pc := by
    rw [hp]
    exact pc_image_iff pc hpc
  by_cases hat : s.pc = pc
  · rw [if_pos hat, if_pos (hiff.mpr hat), h hat]
    rfl
  · rw [if_neg hat, if_neg (mt hiff.mp hat)]
    rfl

theorem swap_step_image (h : AsyncLogging.Sound s) :
    (image s).step .swap = (s.step .swap).map fun s' => .ok (image s') := by
  by_cases hpc : s.pc = .woken
  · -- outside the busy part of the loop there is a first spare
    obtain ⟨hspare, -⟩ := h.spares (by rw [hpc]; exact id) (by rw [hpc]; exact WriterPc.noConfusion)
    obtain ⟨buffer, hbuffer⟩ := Option.isSome_iff_exists.mp hspare
    have hat : (image s).pc = .woken := (pc_image_iff .woken nofun).mpr hpc
    simp only [step, hat, if_true, swap_image hbuffer, AsyncLogging.step, hpc, hbuffer,
      Option.map_some]
    rfl
  · have hat : ¬(image s).pc = .woken := mt (pc_image_iff .woken nofun).mp hpc
    rw [step, if_neg hat, AsyncLogging.step]
    split
    · contradiction
    · rfl

theorem write_step_image :
    (image s).step .write = (s.step .write).map fun s' => .ok (image s') := by
  have hpc : (image s).pc = s.pc.image := rfl
  cases hat : s.pc with
  | writing rest =>
    rw [hat] at hpc
    cases rest with
    | nil =>
      simp only [step, hpc, WriterPc.image, List.map_nil, AsyncLogging.step, hat, Option.map_some]
      rfl
    | cons buffer rest =>
      simp only [step, hpc, WriterPc.image, List.map_cons, AsyncLogging.step, hat,
        Option.map_some, BufferPtr.deref, ok_then]
      rfl
  | _ =>
    rw [hat] at hpc
    simp only [step, hpc, WriterPc.image, AsyncLogging.step, hat, Option.map_none]

/-- In a state where the buffers are in order, a step on the pointers is the step on the
    buffers. -/
theorem step_image (h : AsyncLogging.Sound s) (a : LogAction) :
    (image s).step a = (s.step a).map fun s' => .ok (image s') := by
  cases a with
  | append buf =>
    show (if (image s).locked then none else some ((image s).append buf))
      = (if s.locked then none else some (s.append buf)).map _
    rw [locked_image, append_image]
    cases s.locked <;> rfl
  | start => exact ite_image .ready rfl nofun fun _ => rfl
  | stop =>
    show (if s.running_ then _ else _) = (if s.running_ then _ else _ : Option _).map _
    cases s.running_ <;> rfl
  | test =>
    refine ite_image .testing rfl nofun fun _ => ?_
    cases hrunning : s.running_ <;> simp [image, hrunning, WriterPc.image]
  | lock => exact ite_image .locking rfl nofun fun _ => rfl
  | wait =>
    refine ite_image .entered rfl nofun fun _ => ?_
    cases hbatch : s.buffers_to_write <;> simp [image, hbatch, WriterPc.image]
  | wake => exact ite_image .waiting rfl nofun fun _ => rfl
  | swap => exact swap_step_image h
  | drop =>
    refine ite_image .dropping rfl nofun fun _ => ?_
    show { image s with
      buffers_to_write := drop (s.buffers_to_write.map some)
      pc := .writing (drop (s.buffers_to_write.map some)) } = _
    rw [drop_image]
    rfl
  | write => exact write_step_image
  | recycle =>
    by_cases hpc : s.pc = .recycling
    · obtain ⟨s', hs⟩ := h.recycles hpc
      have hat : (image s).pc = .recycling := (pc_image_iff .recycling nofun).mpr hpc
      rw [step, if_pos hat, recycle_image hs, AsyncLogging.step, if_pos hpc, hs]
      rfl
    · have hat : ¬(image s).pc = .recycling := mt (pc_image_iff .recycling nofun).mp hpc
      rw [step, if_neg hat, AsyncLogging.step, if_neg hpc]
      rfl

end Image

/-! ## Runs -/

section Runs

variable {s s' : BufferPtrs}

theorem next_ok {a : LogAction} (h : s.next a = some s') : s.step a = some (.ok s') := by
  obtain ⟨r, hr, h⟩ := Option.bind_eq_some_iff.mp h
  cases r with
  | error e => cases h
  | ok t =>
    obtain rfl : t = s' := Option.some.inj h
    exact hr

/-- What is reached on the pointers is what is reached on the buffers. -/
theorem reachable_image (h : Reachable next new s) :
    ∃ x, Reachable AsyncLogging.step .new x ∧ s = image x := by
  refine h.invariant (P := fun s => ∃ x, Reachable AsyncLogging.step .new x ∧ s = image x)
    ⟨.new, .refl, rfl⟩ ?_
  rintro _ a y ⟨x, hx, rfl⟩ - hs
  have hstep := next_ok hs
  rw [step_image (AsyncLogging.reachable_sound hx)] at hstep
  obtain ⟨x', hx', heq⟩ := Option.map_eq_some_iff.mp hstep
  exact ⟨x', hx.tail trivial hx', (Except.ok.inj heq).symm⟩

/-- **No empty pointer is used.**  However the appends and the writer interleave: no step
    ends in a fault, the current buffer is always there, both spares are there at the top
    of the loop, and a batch taken without a next buffer has two to give back. -/
theorem pointers_valid (h : Reachable next new s) :
    (∀ a, s.step a = none ∨ ∃ s', s.step a = some (.ok s')) ∧
    s.current_buffer_.isSome = true ∧
    (s.pc = .testing ∨ s.pc = .locking →
      s.new_buffer1.isSome = true ∧ s.new_buffer2.isSome = true) ∧
    (s.pc = .woken → s.next_buffer_ = none →
      2 ≤ (resize (drop s.swap.buffers_to_write)).length) := by
  obtain ⟨x, hx, rfl⟩ := reachable_image h
  have hsound := AsyncLogging.reachable_sound hx
  refine ⟨fun a => ?_, rfl, fun hpc => ?_, fun _ hnone => ?_⟩
  · rw [step_image hsound]
    cases x.step a with
    | none => exact Or.inl rfl
    | some x' => exact Or.inr ⟨_, rfl⟩
  · -- at the top of the loop the writer holds no batch
    have hat : x.pc = .testing ∨ x.pc = .locking :=
      hpc.imp (pc_image_iff .testing nofun).mp (pc_image_iff .locking nofun).mp
    apply hsound.spares
    · rcases hat with hat | hat <;> rw [hat] <;> exact id
    · rcases hat with hat | hat <;> rw [hat] <;> exact WriterPc.noConfusion
  · -- the next buffer was taken by an append, which left a full one in `buffers_`
    have hpos := List.length_pos_iff.mpr (hsound.taken hnone)
    have hbatch : (image x).swap.buffers_to_write.length = x.buffers_.length + 1 := by
      rw [swap_batch, List.length_append, List.length_singleton]
      exact congrArg (· + 1) (List.length_map some)
    have hdrop : 2 ≤ (drop (image x).swap.buffers_to_write).length := by
      rw [drop]
      split
      · rw [List.length_take]
        omega
      · omega
    rw [resize]
    split
    · rw [List.length_take]
      omega
    · exact hdrop

/-- The writer enters its loop. -/
theorem pointers_valid_example :
    ∃ s : BufferPtrs, s.pc = .locking ∧ s.new_buffer1.isSome = true := by
  have hreach : Reachable next new (image (after AsyncLogging.step .new [.start, .test])) :=
    Reachable.of_walk (show walk next new [.start, .test] = some _ from rfl)
  exact ⟨_, rfl, ((pointers_valid hreach).2.2.1 (Or.inr rfl)).1⟩

end Runs

end BufferPtrs

end LearnMuduo
