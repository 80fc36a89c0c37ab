/-
  LearnMuduo.Log.AsyncLogging

  `bing::LogBuffer` (Log/logstream.h) and `bing::AsyncLogging` (Log/asynclogging.h,
  Log/asynclogging.cc): the front ends append, a thread of its own writes.

  An append is one step, under `mutex_`; the writer's steps are the pieces of its loop
  between which another thread can run.  A step that is not enabled is one that cannot be
  taken there, because the mutex is held or the thread is elsewhere; where the source would
  use an empty pointer the writer has no step at all (`AsyncLogging.writer_proceeds` says
  that it always has one).  `appended`, `stored` and `written` record what was passed to
  `append`, what of it found room in a buffer, and what was passed to `LogFile::append`.
-/
import LearnMuduo.Base.CTypes
import LearnMuduo.Lib.Reach

namespace LearnMuduo

open Lib

def kSmallBuffer : Nat := 4000

def kLargeBuffer : Nat := 4000 * 1000

structure LogBuffer (SIZE : Nat) where
  data : Bytes
  fits : data.length ≤ SIZE
  deriving DecidableEq

namespace LogBuffer

variable {SIZE : Nat}

def new : LogBuffer SIZE := { data := [], fits := Nat.zero_le SIZE }

def len (b : LogBuffer SIZE) : Nat := b.data.length

def avial (b : LogBuffer SIZE) : Nat := SIZE - b.data.length

def append (b : LogBuffer SIZE) (buf : Bytes) : LogBuffer SIZE :=
  if h : buf.length ≤ b.avial then
    { data := b.data ++ buf
      fits := by
        have hfits := b.fits
        simp only [avial] at h
        rw [List.length_append]
        omega }
  else b

def reset (_b : LogBuffer SIZE) : LogBuffer SIZE := new

@[simp] theorem data_new : (new : LogBuffer SIZE).data = [] := rfl

@[simp] theorem data_reset (b : LogBuffer SIZE) : b.reset.data = [] := rfl

theorem append_data {b : LogBuffer SIZE} {buf : Bytes} (h : buf.length ≤ b.avial) :
    (b.append buf).data = b.data ++ buf := by
  rw [append, dif_pos h]

theorem append_full {b : LogBuffer SIZE} {buf : Bytes} (h : b.avial < buf.length) :
    b.append buf = b := by
  rw [append, dif_neg (by omega)]

theorem avial_of_empty {b : LogBuffer SIZE} (h : b.data = []) : b.avial = SIZE := by
  rw [avial, h]
  rfl

end LogBuffer

/-- Where the thread is in `writeThread`. -/
inductive WriterPc where
  /-- Before `start`. -/
  | ready
  /-- At the test of `running_`. -/
  | testing
  | locking
  /-- It holds `mutex_`, at the test before the wait. -/
  | entered
  /-- In `waitForSeconds`, which has released `mutex_`. -/
  | waiting
  /-- It holds `mutex_` again. -/
  | woken
  /-- Behind the critical section. -/
  | dropping
  /-- In the loop over `buffers_to_write`, with these buffers to come. -/
  | writing (rest : List (LogBuffer kLargeBuffer))
  | recycling
  | returned
  deriving DecidableEq

structure AsyncLogging where
  running_ : Bool
  current_buffer_ : LogBuffer kLargeBuffer
  next_buffer_ : Option (LogBuffer kLargeBuffer)
  buffers_ : List (LogBuffer kLargeBuffer)
  pc : WriterPc
  new_buffer1 : Option (LogBuffer kLargeBuffer)
  new_buffer2 : Option (LogBuffer kLargeBuffer)
  buffers_to_write : List (LogBuffer kLargeBuffer)
  appended : List Bytes
  stored : List Bytes
  written : Bytes

inductive LogAction where
  | append (buf : Bytes)
  | start
  | stop
  | test
  | lock
  | wait
  | wake
  | swap
  | drop
  | write
  | recycle
  deriving DecidableEq

namespace AsyncLogging

def new : AsyncLogging :=
  { running_ := false, current_buffer_ := .new, next_buffer_ := some .new, buffers_ := []
    pc := .ready, new_buffer1 := none, new_buffer2 := none, buffers_to_write := []
    appended := [], stored := [], written := [] }

/-- `current_buffer_->append(buf, len)`. -/
def store (s : AsyncLogging) (buf : Bytes) : AsyncLogging :=
  { s with
    current_buffer_ := s.current_buffer_.append buf
    appended := s.appended ++ [buf]
    stored := if buf.length ≤ s.current_buffer_.avial then s.stored ++ [buf] else s.stored }

/-- The full buffer joins `buffers_`; the next one, or one that is new, is the current. -/
def rotate (s : AsyncLogging) : AsyncLogging :=
  { s with
    buffers_ := s.buffers_ ++ [s.current_buffer_]
    current_buffer_ := s.next_buffer_.getD .new
    next_buffer_ := none }

def append (s : AsyncLogging) (buf : Bytes) : AsyncLogging :=
  if s.current_buffer_.avial ≠ 0 then s.store buf else s.rotate.store buf

/-- Whether the writer holds `mutex_`. -/
def locked (s : AsyncLogging) : Bool := s.pc = .entered ∨ s.pc = .woken

/-- An empty spare takes the buffer at the back. -/
def refill (spare : Option (LogBuffer kLargeBuffer)) (buffers : List (LogBuffer kLargeBuffer)) :
    Option (Option (LogBuffer kLargeBuffer) × List (LogBuffer kLargeBuffer)) :=
  match spare with
  | some b => some (some b, buffers)
  | none =>
    match buffers.getLast? with
    | some b => some (some b.reset, buffers.dropLast)
    | none => none

/-- From the loop of the writes to the end of the iteration. -/
def recycle (s : AsyncLogging) : Option AsyncLogging :=
  (refill s.new_buffer1 (s.buffers_to_write.take 2)).bind fun r1 =>
    (refill s.new_buffer2 r1.2).bind fun r2 =>
      some { s with new_buffer1 := r1.1, new_buffer2 := r2.1, buffers_to_write := []
                    pc := .testing }

def step (s : AsyncLogging) : LogAction → Option AsyncLogging
  | .append buf => if s.locked then none else some (s.append buf)
  | .start =>
    if s.pc = .ready then
      some { s with running_ := true, pc := .testing, new_buffer1 := some .new
                    new_buffer2 := some .new }
    else none
  | .stop => if s.running_ then some { s with running_ := false } else none
  | .test =>
    if s.pc = .testing then some { s with pc := if s.running_ then .locking else .returned }
    else none
  | .lock => if s.pc = .locking then some { s with pc := .entered } else none
  | .wait =>
    if s.pc = .entered then
      some { s with pc := if s.buffers_to_write = [] then .waiting else .woken }
    else none
  | .wake => if s.pc = .waiting then some { s with pc := .woken } else none
  | .swap =>
    match s.pc, s.new_buffer1 with
    | .woken, some buffer =>
      some { s with
        current_buffer_ := buffer
        new_buffer1 := none
        buffers_ := s.buffers_to_write
        buffers_to_write := s.buffers_ ++ [s.current_buffer_]
        next_buffer_ := s.next_buffer_.or s.new_buffer2
        new_buffer2 := if s.next_buffer_.isSome then s.new_buffer2 else none
        pc := .dropping }
    | _, _ => none
  | .drop =>
    if s.pc = .dropping then
      let kept := if s.buffers_to_write.length > 16 then s.buffers_to_write.take 2
        else s.buffers_to_write
      some { s with buffers_to_write := kept, pc := .writing kept }
    else none
  | .write =>
    match s.pc with
    | .writing (buffer :: rest) =>
      some { s with written := s.written ++ buffer.data, pc := .writing rest }
    | .writing [] => some { s with pc := .recycling }
    | _ => none
  | .recycle => if s.pc = .recycling then s.recycle else none

end AsyncLogging

end LearnMuduo
