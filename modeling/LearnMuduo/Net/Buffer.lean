/-
  LearnMuduo.Net.Buffer

  `bing::Buffer` (Net/Buffer.h, Net/Buffer.cc): a `std::vector<char>` with a
  read and a write index, 8 bytes kept free in front.

    prependable bytes | readable bytes | writable bytes
    0      <=     readIdx_    <=    writeIdx_    <=   size

  A pointer into the vector is its index.  `readFd` and `writeFd` take the
  outcome of the system call as an argument.
-/
import LearnMuduo.Base.CTypes
import LearnMuduo.Lib.Overwrite
import LearnMuduo.Lib.Run
import LearnMuduo.Lib.Search

namespace LearnMuduo

open Lib

def kcheapPrepend : Nat := 8
def kInitialSize : Nat := 1024

def CR : Byte := 13
def LF : Byte := 10
def kCRLF : Bytes := [CR, LF]

/-- `sizeof extrabuf` in `Buffer::readFd`. -/
def kExtraSize : Nat := 65535

/-- What `::readv` did: it stored bytes (none when the peer has closed), or it
    returned -1 with an `errno`. -/
inductive ReadvResult where
  | bytes (data : Bytes)
  | error (errno : Errno)
  deriving DecidableEq, Repr

/-- What `::write` did: it took some bytes, at most the requested ones, or it
    returned -1 with an `errno`. -/
inductive WriteResult where
  | accepted (n : Nat)
  | error (errno : Errno)
  deriving DecidableEq, Repr

def ReadvResult.value : ReadvResult → Int
  | .bytes data => data.length
  | .error _ => -1

def ReadvResult.data : ReadvResult → Bytes
  | .bytes data => data
  | .error _ => []

def WriteResult.value (requested : Nat) : WriteResult → Int
  | .accepted n => (min n requested : Nat)
  | .error _ => -1

/-- How many of the requested bytes the kernel took. -/
def WriteResult.taken (requested : Nat) : WriteResult → Nat
  | .accepted n => min n requested
  | .error _ => 0

structure Buffer where
  buffer_ : Bytes
  readIdx_ : Nat
  writeIdx_ : Nat
  deriving DecidableEq, Repr

namespace Buffer

def new (initialSize : Nat := kInitialSize) : Buffer :=
  { buffer_ := List.replicate (kcheapPrepend + initialSize) 0
    readIdx_ := kcheapPrepend
    writeIdx_ := kcheapPrepend }

def readableBytes (b : Buffer) : Nat := sizeSub b.writeIdx_ b.readIdx_

def writeableBytes (b : Buffer) : Nat := sizeSub b.buffer_.length b.writeIdx_

def prependanleBytes (b : Buffer) : Nat := b.readIdx_

/-- The bytes in `[peek(), beginwrite())`. -/
def readable (b : Buffer) : Bytes := slice b.buffer_ b.readIdx_ b.readableBytes

def retrieveAll (b : Buffer) : Buffer :=
  { b with readIdx_ := kcheapPrepend, writeIdx_ := kcheapPrepend }

def retrieve (b : Buffer) (len : Nat) : Buffer :=
  if len < b.readableBytes then
    { b with readIdx_ := sizeAdd b.readIdx_ len }
  else
    b.retrieveAll

def retieveAsString (b : Buffer) (len : Nat) : Bytes × Buffer :=
  (slice b.buffer_ b.readIdx_ len, b.retrieve len)

def retrieveAllAsString (b : Buffer) : Bytes × Buffer :=
  b.retieveAsString b.readableBytes

/-- Index of the first CRLF of the readable bytes, `nullptr` when there is none. -/
def findCRLF (b : Buffer) : Option Nat :=
  (search kCRLF b.readable).map (b.readIdx_ + ·)

def retrieveUntilIdx (b : Buffer) (index : Nat) : Except Fault Buffer :=
  if index ≤ b.writeIdx_ then
    -- the distance passes through an int before it is added to the size_t
    .ok { b with readIdx_ := toSize (b.readIdx_ + toInt ((index : Int) - b.readIdx_)) }
  else
    .error .assertion

/-- `std::vector<char>::resize`. -/
def resize (v : Bytes) (n : Nat) : Except Fault Bytes :=
  if n ≤ kMaxSize then .ok (v.take n ++ List.replicate (n - v.length) 0)
  else .error .lengthError

def makeSpace (b : Buffer) (len : Nat) : Except Fault Buffer :=
  if sizeAdd b.writeableBytes b.prependanleBytes < sizeAdd len kcheapPrepend then
    resize b.buffer_ (sizeAdd b.writeIdx_ len) >>= fun v => .ok { b with buffer_ := v }
  else
    .ok { buffer_ := overwrite b.buffer_ kcheapPrepend b.readable
          readIdx_ := kcheapPrepend
          writeIdx_ := sizeAdd kcheapPrepend b.readableBytes }

def ensureWriteableBytes (b : Buffer) (len : Nat) : Except Fault Buffer :=
  if b.writeableBytes < len then b.makeSpace len else .ok b

/-- `append(data, len)`, where `data` points to the first byte of an array. -/
def append (b : Buffer) (data : Bytes) (len : Nat) : Except Fault Buffer :=
  b.ensureWriteableBytes len >>= fun b =>
    if len ≤ data.length ∧ b.writeIdx_ + len ≤ b.buffer_.length then
      .ok { b with
        buffer_ := overwrite b.buffer_ b.writeIdx_ (data.take len)
        writeIdx_ := sizeAdd b.writeIdx_ len }
    else
      .error .outOfBounds

/-- `append(const std::string&)`. -/
def appendString (b : Buffer) (data : Bytes) : Except Fault Buffer :=
  b.append data data.length

/-- Number of `iovec`s handed to `::readv`. -/
def iocnt (b : Buffer) : Nat := if b.writeableBytes < kExtraSize then 2 else 1

/-- Room in these `iovec`s, the most `::readv` can store. -/
def readRoom (b : Buffer) : Nat :=
  if b.iocnt = 2 then b.writeableBytes + kExtraSize else b.writeableBytes

/-- `Buffer::readFd` has no return statement: a caller that reads its result finds
    whatever stands in its place, so no result is part of the value here. -/
def readFd (b : Buffer) (r : ReadvResult) (saveErrno : Errno) :
    Except Fault (Buffer × Errno) :=
  let writeable := b.writeableBytes
  let stored := overwrite b.buffer_ b.writeIdx_ (r.data.take writeable)
  let extrabuf := overwrite (List.replicate kExtraSize 0) 0 (r.data.drop writeable)
  let n : Nat := toSize r.value
  -- `n` is a size_t, so the first test never succeeds
  if n < 0 then
    match r with
    | .error errno => .ok ({ b with buffer_ := stored }, errno)
    | .bytes _ => .ok ({ b with buffer_ := stored }, saveErrno)
  else if n ≤ writeable then
    .ok ({ b with buffer_ := stored, writeIdx_ := sizeAdd b.writeIdx_ n }, saveErrno)
  else
    append { b with buffer_ := stored, writeIdx_ := stored.length } extrabuf
      (sizeSub n writeable) >>= fun b => .ok (b, saveErrno)

/-- `Buffer::writeFd`: the value returned and what `saveErrno` holds afterwards. -/
def writeFd (b : Buffer) (w : WriteResult) (saveErrno : Errno) : Int × Errno :=
  match w with
  | .accepted _ => (w.value b.readableBytes, saveErrno)
  | .error errno => (-1, errno)

/-! ## The representation invariant -/

structure WF (b : Buffer) : Prop where
  prepend : kcheapPrepend ≤ b.readIdx_
  read : b.readIdx_ ≤ b.writeIdx_
  write : b.writeIdx_ ≤ b.buffer_.length
  size : b.buffer_.length ≤ kMaxSize

instance (b : Buffer) : Decidable b.WF :=
  decidable_of_iff
    (kcheapPrepend ≤ b.readIdx_ ∧ b.readIdx_ ≤ b.writeIdx_ ∧ b.writeIdx_ ≤ b.buffer_.length ∧
      b.buffer_.length ≤ kMaxSize)
    ⟨fun h => ⟨h.1, h.2.1, h.2.2.1, h.2.2.2⟩, fun h => ⟨h.prepend, h.read, h.write, h.size⟩⟩

theorem new_wf {n : Nat} (hn : kcheapPrepend + n ≤ kMaxSize) : (new n).WF := by
  refine ⟨Nat.le_refl _, Nat.le_refl _, ?_, ?_⟩
  · simp [new]
  · simpa [new] using hn

theorem new_readable (n : Nat) : (new n).readable = [] := by
  have h : sizeSub kcheapPrepend kcheapPrepend = 0 := by decide +kernel
  simp only [readable, readableBytes, new, h, slice_zero_right]

section WFFacts

variable {b : Buffer}

theorem WF.size_lt (h : b.WF) : b.buffer_.length < 2 ^ 63 := by
  have := h.size
  unfold kMaxSize at this
  omega

theorem WF.readableBytes_eq (h : b.WF) : b.readableBytes = b.writeIdx_ - b.readIdx_ :=
  sizeSub_of_le h.read (by have := h.size_lt; have := h.write; omega)

theorem WF.writeableBytes_eq (h : b.WF) :
    b.writeableBytes = b.buffer_.length - b.writeIdx_ :=
  sizeSub_of_le h.write (by have := h.size_lt; omega)

theorem WF.readable_length (h : b.WF) : b.readable.length = b.readableBytes := by
  have := h.read
  have := h.write
  exact slice_length (by rw [h.readableBytes_eq]; omega)

theorem WF.writeIdx_eq (h : b.WF) : b.writeIdx_ = b.readIdx_ + b.readable.length := by
  have := h.read
  rw [h.readable_length, h.readableBytes_eq]
  omega

/-- Only the two indices and the bytes between them make up the readable bytes. -/
theorem WF.readable_eq (h : b.WF) :
    b.readable = slice b.buffer_ b.readIdx_ (b.writeIdx_ - b.readIdx_) := by
  rw [readable, h.readableBytes_eq]

end WFFacts

end Buffer

end LearnMuduo
