/-
  LearnMuduo.Log.Logger

  `bing::Logger` (Log/logger.cc): the constructors write the head of a record on the
  stream, `<<` the rest, and the destructor a line feed before it passes the buffer on.

  All of them share 4000 bytes, and an operand that does not find the room it asks for
  leaves nothing: the record is made of the operands that are taken first fit
  (`run_put`), the line feed being the last of them.
-/
import LearnMuduo.Lib.FirstFit
import LearnMuduo.Log.LogTime

namespace LearnMuduo

open Lib
open Lib.HttpReader (digits)

/-! ## First fit -/

namespace Operand

/-- The `int` its length is passed as. -/
def len (op : Operand) : Int := toInt op.text.length

/-- What is appended of it. -/
def piece (op : Operand) : Bytes := op.text.take op.len.toNat

/-- The room it asks for. -/
def need (op : Operand) : Nat :=
  match op with
  | .integer _ => kMaxNumericSize.toNat
  | _ => op.len.toNat

def size (op : Operand) : Nat := op.piece.length

variable {op : Operand}

theorem need_text (h : ∀ num, op ≠ .integer num) : op.need = op.len.toNat := by
  cases op with
  | integer num => exact absurd rfl (h num)
  | _ => rfl

theorem len_integer (num : Integer) : (integer num).len = (convert num.value).length :=
  LogStream.toInt_small (Nat.le_trans (convert_length num) (by decide))

theorem piece_integer (num : Integer) : (integer num).piece = convert num.value := by
  rw [piece, len_integer]
  exact List.take_length

/-- What is appended had the room it needed. -/
theorem size_le_need (op : Operand) : op.size ≤ op.need := by
  by_cases hnum : ∃ num, op = .integer num
  · obtain ⟨num, rfl⟩ := hnum
    have hlen := convert_length num
    rw [size, piece_integer, need, kMaxNumericSize]
    omega
  · rw [need_text fun num heq => hnum ⟨num, heq⟩, size, piece, List.length_take]
    exact Nat.min_le_left _ _

end Operand

namespace LogStream

open FirstFit

/-- The operands taken on a buffer with that much room. -/
abbrev takenOn (room : Nat) (ops : List Operand) : List Operand :=
  taken Operand.need Operand.size room ops

/-- What they leave of it. -/
abbrev leftOn (room : Nat) (ops : List Operand) : Nat :=
  left Operand.need Operand.size room ops

abbrev room (s : LogStream) : Nat := kSmallBuffer - s.buffer_.content.length

variable {s : LogStream} {op : Operand} {ops : List Operand}

theorem avial_room (h : s.buffer_.InRange) : s.buffer_.avial = s.room := by
  have hlow := h.low
  have hhigh := h.high
  rw [h.avial_eq (by decide), room, h.content_length]
  omega

theorem memcpy_take {b : LogBuffer.Raw kSmallBuffer} {text : Bytes} {n : Nat}
    (hn : n ≤ text.length) : b.memcpy (text.take n) n = b.memcpy text n := by
  have hlen : (text.take n).length = n := List.length_take_of_le hn
  simp only [LogBuffer.Raw.memcpy, hlen, hn, Nat.le_refl, true_and, List.take_take, Nat.min_self]

/-- So many characters of a text are a text. -/
theorem append_take {text : Bytes} {n : Nat} (hn : n ≤ text.length) (hsmall : n < 2 ^ 31) :
    s.append text n = s.put (.string (text.take n)) := by
  have hlen : (text.take n).length = n := List.length_take_of_le hn
  have hsize : toSize n = n := toSize_ofNat (by omega)
  rw [put, hlen, toInt_of_lt hsmall, append, append, LogBuffer.Raw.append, LogBuffer.Raw.append,
    hsize, memcpy_take hn]

theorem put_negative (h : s.buffer_.InRange) (hneg : op.len < 0) :
    s.put op = .error .outOfBounds := by
  have hput : s.put op = s.append op.text op.len := by
    apply put_text
    rintro num rfl
    rw [Operand.len_integer] at hneg
    omega
  have hbad := LogBuffer.Raw.append_negative op.text h (by decide) hneg (toInt_range _).1
  rw [hput, append, hbad, error_then]

theorem put_full (h : s.buffer_.InRange) (hroom : s.room < op.need) : s.put op = .ok s := by
  have havial := avial_room h
  by_cases hnum : ∃ num, op = .integer num
  · obtain ⟨num, rfl⟩ := hnum
    rw [Operand.need, kMaxNumericSize] at hroom
    refine if_neg ?_
    rw [kMaxNumericSize]
    omega
  · have htext : ∀ num, op ≠ .integer num := fun num heq => hnum ⟨num, heq⟩
    rw [Operand.need_text htext] at hroom
    have hlen : s.buffer_.avial < op.len := by omega
    rw [put_text htext]
    exact append_ok (LogBuffer.Raw.append_full op.text hlen)

theorem put_fits (h : s.buffer_.InRange) (hpos : 0 ≤ op.len) (hroom : op.need ≤ s.room) :
    ∃ s', s.put op = .ok s' ∧ s'.buffer_.InRange ∧
      s'.buffer_.content = s.buffer_.content ++ op.piece := by
  have havial := avial_room h
  by_cases hnum : ∃ num, op = .integer num
  · obtain ⟨num, rfl⟩ := hnum
    rw [Operand.need, kMaxNumericSize] at hroom
    rw [Operand.piece_integer]
    refine formatInterger_room num h ?_
    rw [kMaxNumericSize]
    omega
  · have htext : ∀ num, op ≠ .integer num := fun num heq => hnum ⟨num, heq⟩
    have hle := toInt_le_length op.text.length hpos
    rw [Operand.need_text htext] at hroom
    obtain ⟨n, hn⟩ := Int.eq_ofNat_of_zero_le hpos
    obtain ⟨b', hb, hrange, hcontent⟩ :=
      @LogBuffer.Raw.append_fits _ s.buffer_ op.text n h (by decide) (by omega)
        (by rw [Operand.len] at hn; omega)
    rw [← hn] at hb
    refine ⟨{ buffer_ := b' }, ?_, hrange, ?_⟩
    · rw [put_text htext]
      exact append_ok hb
    · show b'.content = _
      rw [hcontent, Operand.piece, hn]
      rfl

/-- The operands are taken first fit. -/
theorem run_put (h : s.buffer_.InRange) (hpos : ∀ op ∈ ops, 0 ≤ op.len) :
    ∃ s', run put s ops = .ok s' ∧ s'.buffer_.InRange ∧
      s'.buffer_.content = s.buffer_.content ++ (takenOn s.room ops).flatMap Operand.piece ∧
      s'.room = leftOn s.room ops := by
  induction ops generalizing s with
  | nil => exact ⟨s, rfl, h, (List.append_nil _).symm, rfl⟩
  | cons op ops ih =>
    have hops : ∀ op ∈ ops, 0 ≤ op.len := fun op hop => hpos op (List.mem_cons_of_mem _ hop)
    by_cases hroom : op.need ≤ s.room
    · obtain ⟨s₁, hs, hrange, hcontent⟩ := put_fits h (hpos op List.mem_cons_self) hroom
      obtain ⟨s', hrun, hrange', hcontent', hleft⟩ := ih hrange hops
      have hless : s₁.room = s.room - op.size := by
        rw [room, hcontent, List.length_append, ← Nat.sub_sub]
        rfl
      refine ⟨s', ?_, hrange', ?_, ?_⟩
      · rw [run_cons, hs, ok_then, hrun]
      · rw [hcontent', hcontent, hless, takenOn, takenOn, taken_fits hroom, List.flatMap_cons,
          List.append_assoc]
      · rw [hleft, hless, leftOn, leftOn, left_fits hroom]
    · have hfull := Nat.lt_of_not_le hroom
      obtain ⟨s', hrun, hrange', hcontent', hleft⟩ := ih h hops
      refine ⟨s', ?_, hrange', ?_, ?_⟩
      · rw [run_cons, put_full h hfull, ok_then, hrun]
      · rw [hcontent', takenOn, takenOn, taken_full hfull]
      · rw [hleft, leftOn, leftOn, left_full hfull]

/-- One length that is negative as an `int`, and `memcpy` leaves `data_`. -/
theorem run_negative (h : s.buffer_.InRange) (hneg : ∃ op ∈ ops, op.len < 0) :
    run put s ops = .error .outOfBounds := by
  induction ops generalizing s with
  | nil =>
    obtain ⟨op, hop, -⟩ := hneg
    cases hop
  | cons op ops ih =>
    rw [run_cons]
    by_cases hop : op.len < 0
    · rw [put_negative h hop, error_then]
    · have hrest : ∃ op ∈ ops, op.len < 0 := by
        obtain ⟨bad, hbad, hlen⟩ := hneg
        rcases List.mem_cons.mp hbad with rfl | hmem
        · exact absurd hlen hop
        · exact ⟨bad, hmem, hlen⟩
      obtain ⟨s₁, hs, hrange⟩ : ∃ s₁, s.put op = .ok s₁ ∧ s₁.buffer_.InRange := by
        by_cases hroom : op.need ≤ s.room
        · obtain ⟨s₁, hs, hrange, -⟩ := put_fits h (Int.not_lt.mp hop) hroom
          exact ⟨s₁, hs, hrange⟩
        · exact ⟨s, put_full h (Nat.lt_of_not_le hroom), h⟩
      rw [hs, ok_then, ih hrange hrest]

end LogStream

/-! ## The head of a record -/

namespace Logger

def SLASH : Byte := 47

def BLANK : Byte := 32

def LF : Byte := 10

inductive LogLevel where
  | DEBUG
  | INFO
  | WARN
  | ERROR
  | FATAL
  deriving DecidableEq, Repr

def LogLevelName : LogLevel → Bytes
  | .DEBUG => ascii "DEBUG "
  | .INFO => ascii "INFO  "
  | .WARN => ascii "WARN  "
  | .ERROR => ascii "ERROR "
  | .FATAL => ascii "FATAL "

/-- Where the last `c` of the string stands. -/
def strrchr : Bytes → Byte → Option Nat
  | [], _ => none
  | b :: bs, c => (strrchr bs c).elim (if b = c then some 0 else none) fun i => some (i + 1)

structure SourceFile where
  file_ : Bytes
  size_ : Int
  measured : size_ = toInt file_.length

def SourceFile.new (file : Bytes) : SourceFile :=
  let file_ := (strrchr file SLASH).elim file fun slash => file.drop (slash + 1)
  { file_ := file_, size_ := toInt file_.length, measured := rfl }

/-- `operator<<(LogStream&, Logger::SourceFile)`. -/
def putFile (s : LogStream) (v : SourceFile) : Except Fault LogStream := s.append v.file_ v.size_

/-- What a constructor finds: the memory of its buffer, the time, `t_time` as `localtime_r`
    and `snprintf` leave it, and the thread. -/
structure Host where
  data : Bytes
  data_size : data.length = kSmallBuffer
  now : TimeStamp
  t_time : Int → Bytes
  t_size : ∀ seconds, (t_time seconds).length = 64
  gettid : UInt64

/-- `"[%5lu]"`. -/
def threadText (tid : UInt64) : Bytes :=
  let number := digits tid.toNat
  ascii "[" ++ List.replicate (5 - number.length) BLANK ++ number ++ ascii "]"

def getThreadID (tid : UInt64) (logstream_ : LogStream) : Except Fault LogStream :=
  let len := (threadText tid).length
  let buf := overwrite (List.replicate 32 0) 0 (threadText tid)
  logstream_.putTmp { str_ := buf, len_ := len }

structure Impl where
  level_ : LogLevel
  logstream_ : LogStream
  time_ : TimeStamp
  file_ : SourceFile
  line_ : Int32

def Impl.new (host : Host) (level : LogLevel) (file : SourceFile) (line : Int32) :
    Except Fault Impl :=
  forattedTime host.t_time host.now (.new host.data host.data_size) >>= fun logstream_ =>
  getThreadID host.gettid logstream_ >>= fun logstream_ =>
  logstream_.putTmp { str_ := LogLevelName level, len_ := 6 } >>= fun logstream_ =>
  putFile logstream_ file >>= fun logstream_ =>
  logstream_.put (.char 58) >>= fun logstream_ =>
  logstream_.put (.integer (.int line)) >>= fun logstream_ =>
  logstream_.put (.cString (some (ascii "->"))) >>= fun logstream_ =>
  .ok { level_ := level, logstream_ := logstream_, time_ := host.now, file_ := file, line_ := line }

end Logger

structure Logger where
  impl_ : Logger.Impl

namespace Logger

def stream (l : Logger) : LogStream := l.impl_.logstream_

def setStream (l : Logger) (s : LogStream) : Logger :=
  { impl_ := { l.impl_ with logstream_ := s } }

/-- `stream() << op`. -/
def put (l : Logger) (op : Operand) : Except Fault Logger :=
  l.stream.put op >>= fun s => .ok (l.setStream s)

/-- The arguments of one of the three constructors. -/
inductive Arguments where
  | line (file : SourceFile) (line : Int32)
  | level (file : SourceFile) (line : Int32) (level : LogLevel)
  | function (file : SourceFile) (line : Int32) (level : LogLevel) (func_name : Option Bytes)

def new (host : Host) : Arguments → Except Fault Logger
  | .line file line => Impl.new host .INFO file line >>= fun impl_ => .ok { impl_ := impl_ }
  | .level file line level =>
    Impl.new host level file line >>= fun impl_ => .ok { impl_ := impl_ }
  | .function file line level func_name =>
    Impl.new host level file line >>= fun impl_ =>
    Logger.put { impl_ := impl_ } (.cString (some (ascii "("))) >>= fun l =>
    l.put (.cString func_name) >>= fun l =>
    l.put (.cString (some (ascii "):")))

/-- `"\n"`. -/
def newline : Operand := .cString (some [LF])

/-- `~Logger`: what `g_output_func` is passed. -/
def destroy (l : Logger) : Except Fault (LogBuffer.Raw kSmallBuffer) :=
  l.put newline >>= fun l => .ok l.stream.buffer_

/-- A logger with the operands streamed into it, up to the record of its destructor. -/
def record (host : Host) (args : Arguments) (ops : List Operand) : Except Fault Bytes :=
  new host args >>= fun l => run put l ops >>= fun l => l.destroy >>= fun buf => .ok buf.content

/-- What a constructor puts on the stream. -/
def head (host : Host) : Arguments → List Operand
  | .line file line => location .INFO file line
  | .level file line level => location level file line
  | .function file line level func_name => location level file line ++
    [.cString (some (ascii "(")), .cString func_name, .cString (some (ascii "):"))]
where
  location (level : LogLevel) (file : SourceFile) (line : Int32) : List Operand :=
    [.string ((host.t_time (host.now.tdiv kMicroSecond2Second)).take 19),
      .string (fraction host.now), .string (threadText host.gettid),
      .string (LogLevelName level), .string file.file_, .char 58, .integer (.int line),
      .cString (some (ascii "->"))]

section Head

variable {host : Host} {s : LogStream}

theorem putTmp_eq {v : Tmp} {n : Nat} (hlen : v.len_ = n) (hn : n ≤ v.str_.length)
    (hsmall : n < 2 ^ 31) : s.putTmp v = s.put (.string (v.str_.take n)) := by
  rw [LogStream.putTmp, hlen, LogStream.append_take hn hsmall]

theorem threadText_length (tid : UInt64) : (threadText tid).length ≤ 22 := by
  have hdigits : (digits tid.toNat).length ≤ 20 := by
    have hlt := tid.toNat_lt
    rw [Decimal.digits_length_le_iff (by decide)]
    omega
  have hopen : (ascii "[").length = 1 := by decide
  have hclose : (ascii "]").length = 1 := by decide
  simp only [threadText, List.length_append, List.length_replicate, hopen, hclose]
  omega

theorem getThreadID_eq (tid : UInt64) :
    getThreadID tid s = s.put (.string (threadText tid)) := by
  have hlen := threadText_length tid
  have hbuf : (overwrite (List.replicate 32 0) 0 (threadText tid)).take (threadText tid).length =
      threadText tid := by
    rw [overwrite, List.take_zero, List.nil_append, List.take_left]
  have hlong : (threadText tid).length ≤
      (overwrite (List.replicate 32 0) 0 (threadText tid)).length := by
    rw [overwrite, List.take_zero, List.nil_append, List.length_append]
    omega
  rw [getThreadID, putTmp_eq rfl hlong (by omega), hbuf]

/-- The constructor of `Impl` is a run of operands too. -/
theorem Impl_new_eq (level : LogLevel) (file : SourceFile) (line : Int32) :
    Impl.new host level file line =
      run LogStream.put (.new host.data host.data_size) (head.location host level file line) >>=
        fun s => .ok
          { level_ := level, logstream_ := s, time_ := host.now, file_ := file, line_ := line } := by
  have htime : (host.t_time (host.now.tdiv kMicroSecond2Second)).length = 64 := host.t_size _
  have hlevel : (LogLevelName level).length = 6 := by cases level <;> decide
  have hseconds := @putTmp_eq (.new host.data host.data_size)
    { str_ := host.t_time (host.now.tdiv kMicroSecond2Second), len_ := 19 } 19 rfl
    (by rw [htime]; decide) (by decide)
  have hfraction : ∀ s : LogStream, s.putTmp { str_ := fractionBuf host.now, len_ := 4 } =
      s.put (.string (fraction host.now)) := fun s =>
    putTmp_eq rfl (fractionBuf_length host.now) (by decide)
  have hname : ∀ s : LogStream, s.putTmp { str_ := LogLevelName level, len_ := 6 } =
      s.put (.string (LogLevelName level)) := fun s => by
    have htake : (LogLevelName level).take 6 = LogLevelName level :=
      List.take_of_length_le (Nat.le_of_eq hlevel)
    rw [putTmp_eq rfl (Nat.le_of_eq hlevel.symm) (by decide), htake]
  have hfile : ∀ s : LogStream, putFile s file = s.put (.string file.file_) := fun s => by
    rw [putFile, file.measured]
    rfl
  simp only [Impl.new, forattedTime, hseconds, hfraction, getThreadID_eq, hname, hfile,
    head.location, run_cons, run_nil, bind_assoc, ok_then]

end Head

/-! ## The record -/

section Record

variable {host : Host} {args : Arguments} {l : Logger} {ops : List Operand}

@[simp] theorem stream_setStream (l : Logger) (s : LogStream) : (l.setStream s).stream = s := rfl

theorem run_put (l : Logger) (ops : List Operand) :
    run put l ops = run LogStream.put l.stream ops >>= fun s => .ok (l.setStream s) := by
  induction ops generalizing l with
  | nil => rfl
  | cons op ops ih =>
    rw [run_cons, run_cons, put, bind_assoc, bind_assoc]
    congr 1
    funext s
    rw [ok_then, ih]
    rfl

/-- So is a whole constructor. -/
theorem new_eq (args : Arguments) :
    ∃ l : Logger, new host args =
      run LogStream.put (.new host.data host.data_size) (head host args) >>=
        fun s => .ok (l.setStream s) := by
  have hnew : ∀ (level : LogLevel) (file : SourceFile) (line : Int32), ∃ impl_ : Impl,
      (Impl.new host level file line >>= fun impl_ => .ok (Logger.mk impl_)) =
        run LogStream.put (.new host.data host.data_size) (head.location host level file line) >>=
          fun s => .ok (setStream { impl_ := impl_ } s) := by
    intro level file line
    refine ⟨⟨level, .new host.data host.data_size, host.now, file, line⟩, ?_⟩
    rw [Impl_new_eq, bind_assoc]
    rfl
  cases args with
  | line file line =>
    obtain ⟨impl_, himpl⟩ := hnew .INFO file line
    exact ⟨{ impl_ := impl_ }, himpl⟩
  | level file line level =>
    obtain ⟨impl_, himpl⟩ := hnew level file line
    exact ⟨{ impl_ := impl_ }, himpl⟩
  | function file line level func_name =>
    -- the constructor's own body streams three operands more
    obtain ⟨impl_, himpl⟩ := hnew level file line
    refine ⟨{ impl_ := impl_ }, ?_⟩
    have hbody : new host (.function file line level func_name) =
        (Impl.new host level file line >>= fun impl_ => .ok (Logger.mk impl_)) >>= fun l =>
          run put l [.cString (some (ascii "(")), .cString func_name,
            .cString (some (ascii "):"))] := by
      have hreturn : ∀ m : Except Fault Logger, (m >>= fun l => .ok l) = m := bind_pure
      simp only [new, run_cons, run_nil, bind_assoc, ok_then, hreturn]
    rw [hbody, himpl, head, run_append, bind_assoc, bind_assoc]
    congr 1
    funext s
    rw [ok_then, run_put]
    rfl

/-- And a record: a run of the head, the operands and the line feed. -/
theorem record_eq (args : Arguments) (ops : List Operand) :
    record host args ops = run LogStream.put (.new host.data host.data_size)
      (head host args ++ ops ++ [newline]) >>= fun s => .ok s.buffer_.content := by
  obtain ⟨l, hnew⟩ := @new_eq host args
  rw [record, hnew, run_append, run_append, bind_assoc, bind_assoc, bind_assoc]
  congr 1
  funext s
  rw [ok_then, run_put, bind_assoc, stream_setStream]
  congr 1
  funext s'
  simp only [ok_then, destroy, put, run_cons, run_nil, bind_assoc, stream_setStream]

/-- What the operands leave of the record. -/
def text (ops : List Operand) : Bytes :=
  (LogStream.takenOn kSmallBuffer ops).flatMap Operand.piece

theorem new_inRange (host : Host) :
    (LogStream.new host.data host.data_size).buffer_.InRange :=
  LogBuffer.Raw.new_inRange host.data_size

theorem newline_len : newline.len = 1 := LogStream.toInt_small (n := 1) (by decide)

theorem newline_need : newline.need = 1 := by
  rw [Operand.need_text (by nofun), newline_len]
  rfl

theorem newline_piece : newline.piece = [LF] := by
  rw [Operand.piece, newline_len]
  rfl

/-- The line feed is one byte, and the last to ask for room. -/
theorem text_newline (ops : List Operand) : text (ops ++ [newline]) =
    if LogStream.leftOn kSmallBuffer ops = 0 then text ops else text ops ++ [LF] := by
  rw [text, LogStream.takenOn, FirstFit.taken_append, List.flatMap_append]
  split
  · rename_i hzero
    have hfull : FirstFit.left Operand.need Operand.size kSmallBuffer ops < newline.need := by
      rw [newline_need]
      exact Nat.lt_of_le_of_lt (Nat.le_of_eq hzero) Nat.one_pos
    rw [FirstFit.taken_full hfull]
    exact List.append_nil _
  · rename_i hfree
    have hfits : newline.need ≤ FirstFit.left Operand.need Operand.size kSmallBuffer ops := by
      rw [newline_need]
      exact Nat.one_le_iff_ne_zero.mpr hfree
    rw [FirstFit.taken_fits hfits, List.flatMap_cons, newline_piece]
    rfl

theorem record_of_lengths (hpos : ∀ op ∈ head host args ++ ops, 0 ≤ op.len) :
    record host args ops = .ok (if LogStream.leftOn kSmallBuffer (head host args ++ ops) = 0
      then text (head host args ++ ops) else text (head host args ++ ops) ++ [LF]) := by
  have hall : ∀ op ∈ head host args ++ ops ++ [newline], 0 ≤ op.len := by
    intro op hop
    rcases List.mem_append.mp hop with hmem | hmem
    · exact hpos op hmem
    · obtain rfl := List.mem_singleton.mp hmem
      rw [newline_len]
      decide
  obtain ⟨s, hrun, -, hcontent, -⟩ :=
    @LogStream.run_put (.new host.data host.data_size) _ (new_inRange host) hall
  rw [record_eq, hrun, ok_then, hcontent, ← text_newline]
  rfl

theorem exists_negative {ops : List Operand} (h : ¬∀ op ∈ ops, 0 ≤ op.len) :
    ∃ op ∈ ops, op.len < 0 := by
  by_contra hnone
  exact h fun op hop => Int.not_lt.mp fun hneg => hnone ⟨op, hop, hneg⟩

theorem record_of_negative (hneg : ∃ op ∈ head host args ++ ops, op.len < 0) :
    record host args ops = .error .outOfBounds := by
  obtain ⟨op, hop, hlen⟩ := hneg
  have hbad := LogStream.run_negative (new_inRange host)
    ⟨op, List.mem_append_left [newline] hop, hlen⟩
  rw [record_eq, hbad, error_then]

/-- The text and what it leaves free are the buffer. -/
theorem text_length (ops : List Operand) :
    (text ops).length + LogStream.leftOn kSmallBuffer ops = kSmallBuffer := by
  have hsum := @FirstFit.taken_size _ _ _ kSmallBuffer ops Operand.size_le_need
  rw [text, List.length_flatMap]
  exact hsum

/-- A record is no longer than the buffer. -/
theorem record_length_le {line : Bytes} (h : record host args ops = .ok line) :
    line.length ≤ kSmallBuffer := by
  by_cases hpos : ∀ op ∈ head host args ++ ops, 0 ≤ op.len
  · have hlen := text_length (head host args ++ ops)
    rw [record_of_lengths hpos] at h
    obtain rfl := Except.ok.inj h
    split
    · omega
    · rename_i hfree
      rw [List.length_append, List.length_singleton]
      have hone := Nat.one_le_iff_ne_zero.mpr hfree
      omega
  · obtain ⟨op, hop, hneg⟩ := exists_negative hpos
    rw [record_of_negative ⟨op, hop, hneg⟩] at h
    cases h

/-- A record ends with a line feed exactly if no length is negative and the operands leave
    a byte of the buffer free, or fill it and have a line feed at their end themselves. -/
theorem record_newline_iff (host : Host) (args : Arguments) (ops : List Operand) :
    (∃ line, record host args ops = .ok line ∧ line.getLast? = some LF) ↔
      (∀ op ∈ head host args ++ ops, 0 ≤ op.len) ∧
        (LogStream.leftOn kSmallBuffer (head host args ++ ops) ≠ 0 ∨
          (text (head host args ++ ops)).getLast? = some LF) := by
  by_cases hpos : ∀ op ∈ head host args ++ ops, 0 ≤ op.len
  · rw [record_of_lengths hpos]
    constructor
    · rintro ⟨line, hline, hlast⟩
      obtain rfl := Except.ok.inj hline
      refine ⟨hpos, ?_⟩
      by_cases hfull : LogStream.leftOn kSmallBuffer (head host args ++ ops) = 0
      · rw [if_pos hfull] at hlast
        exact Or.inr hlast
      · exact Or.inl hfull
    · rintro ⟨-, hends⟩
      refine ⟨_, rfl, ?_⟩
      by_cases hfull : LogStream.leftOn kSmallBuffer (head host args ++ ops) = 0
      · rw [if_pos hfull]
        exact hends.resolve_left (fun hfree => hfree hfull)
      · rw [if_neg hfull, List.getLast?_concat]
  · obtain ⟨op, hop, hlen⟩ := exists_negative hpos
    rw [record_of_negative ⟨op, hop, hlen⟩]
    constructor
    · rintro ⟨line, hline, -⟩
      cases hline
    · rintro ⟨hall, -⟩
      exact absurd (hall op hop) (Int.not_le.mpr hlen)

def zeroed : Bytes := List.replicate kSmallBuffer 0

theorem zeroed_length : zeroed.length = kSmallBuffer := List.length_replicate

def zeroTime (_ : Int) : Bytes := List.replicate 64 48

theorem zeroTime_length : ∀ seconds, (zeroTime seconds).length = 64 := fun _ =>
  List.length_replicate

def sampleHost : Host where
  data := zeroed
  data_size := zeroed_length
  now := 0
  t_time := zeroTime
  t_size := zeroTime_length
  gettid := 7

def sampleArguments : Arguments := .level (.new (ascii "src/a.cc")) 1 .INFO

/-- Behind a head of 44 bytes a string of 3956 fills the buffer, and the line feed is lost. -/
theorem newline_lost :
    (∃ line, record sampleHost sampleArguments [.string (List.replicate 3956 97)] = .ok line ∧
      line.getLast? = some 97) ∧
    ¬ ∀ (host : Host) (args : Arguments) (ops : List Operand),
      ∃ line, record host args ops = .ok line ∧ line.getLast? = some LF := by
  have hpos : ∀ op ∈ head sampleHost sampleArguments ++ [.string (List.replicate 3956 97)],
      0 ≤ op.len := by decide +kernel
  have hfull : LogStream.leftOn kSmallBuffer
      (head sampleHost sampleArguments ++ [.string (List.replicate 3956 97)]) = 0 := by
    decide +kernel
  have hlast : (text (head sampleHost sampleArguments ++
      [.string (List.replicate 3956 97)])).getLast? = some 97 := by decide +kernel
  have hrecord := record_of_lengths hpos
  rw [if_pos hfull] at hrecord
  refine ⟨⟨_, hrecord, hlast⟩, fun h => ?_⟩
  obtain ⟨line, hline, hend⟩ := h sampleHost sampleArguments [.string (List.replicate 3956 97)]
  obtain rfl := Except.ok.inj (hrecord.symm.trans hline)
  rw [hlast] at hend
  exact absurd hend (by decide)

end Record

/-- The head of a record of the second constructor. -/
example : text (head sampleHost sampleArguments) =
    ascii "0000000000000000000.000[    7]INFO  a.cc:1->" := by decide +kernel

end Logger

end LearnMuduo
