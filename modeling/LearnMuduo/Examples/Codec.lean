/-
  LearnMuduo.Examples.Codec

  `LengthHeaderCode` of the chat example (Examples/chat/codec.h): a message goes over the
  wire behind four bytes with its length, in network order.

  `onMessage` takes as many messages as there are from the front of the input Buffer; at a
  length out of range it calls `shutdown` and leaves the Buffer as it is.  `muduo::net::Buffer`
  is a byte queue, network order is big-endian, and a `StringPiece` is shorter than 2^31
  bytes.  The message callback leaves the Buffer alone.
-/
import LearnMuduo.Base.CTypes
import LearnMuduo.Lib.Decoder
import LearnMuduo.Lib.Loop
import LearnMuduo.Lib.Run
import Mathlib.Data.List.TakeWhile

namespace LearnMuduo

open Lib

namespace LengthHeaderCode

def kHeaderLen : Nat := 4

def bigEndian (n : Nat) : Bytes :=
  [UInt8.ofNat (n / 2 ^ 24), UInt8.ofNat (n / 2 ^ 16), UInt8.ofNat (n / 2 ^ 8), UInt8.ofNat n]

/-- The four bytes of `hostToNetwork32(len)` as they stand in memory. -/
def hostToNetwork32 (len : Int) : Bytes := bigEndian (len % 2 ^ 32).toNat

/-- `networkToHost32` of the four bytes at the front. -/
def networkToHost32 : Bytes → Nat
  | a :: b :: c :: d :: _ => ((a.toNat * 2 ^ 8 + b.toNat) * 2 ^ 8 + c.toNat) * 2 ^ 8 + d.toNat
  | _ => 0

/-- The bytes that `send` hands to the connection; `len` is an `int32_t`. -/
def send (message : Bytes) : Bytes := hostToNetwork32 (toInt message.length) ++ message

/-- A connection whose messages go to `onMessage`. -/
structure Receiver where
  inputBuffer : Bytes
  /-- The arguments of `messageCallback_`. -/
  messages : List Bytes
  /-- The calls of `conn->shutdown()`. -/
  shutdowns : Nat
  deriving DecidableEq

def Receiver.new : Receiver := { inputBuffer := [], messages := [], shutdowns := 0 }

/-- The `len` bytes at `buf->peek()`. -/
def peek (buf : Bytes) (len : Nat) : Except Fault Bytes :=
  if len ≤ buf.length then .ok (buf.take len) else .error .outOfBounds

def retrieve (buf : Bytes) (len : Nat) : Except Fault Bytes :=
  if len ≤ buf.length then .ok (buf.drop len) else .error .assertion

/-- The receiver, and whether the loop of `onMessage` has been left by a `break`. -/
structure Turn where
  conn : Receiver
  broken : Bool

def goesOn (s : Turn) : Bool := !s.broken && decide (kHeaderLen ≤ s.conn.inputBuffer.length)

/-- The body of the loop. -/
def turn (s : Turn) : Except Fault Turn :=
  let buf := s.conn.inputBuffer
  peek buf kHeaderLen >>= fun data =>
    let len := toInt (networkToHost32 data)
    if 65536 < len ∨ len < 0 then
      .ok { conn := { s.conn with shutdowns := s.conn.shutdowns + 1 }, broken := true }
    else if sizeAdd (toSize len) kHeaderLen ≤ buf.length then
      retrieve buf kHeaderLen >>= fun buf =>
        peek buf (toSize len) >>= fun message =>
          retrieve buf (toSize len) >>= fun buf =>
            .ok { conn := { s.conn with
                    inputBuffer := buf, messages := s.conn.messages ++ [message] }
                  broken := false }
    else .ok { s with broken := true }

def onMessage (conn : Receiver) : Except Fault Receiver :=
  loop goesOn turn .spin (conn.inputBuffer.length + 3) { conn := conn, broken := false } >>=
    fun s => .ok s.conn

/-- Bytes arrive, and `onMessage` is called. -/
def onBytes (conn : Receiver) (bytes : Bytes) : Except Fault Receiver :=
  onMessage { conn with inputBuffer := conn.inputBuffer ++ bytes }

/-! ## The header -/

theorem networkToHost32_bigEndian {n : Nat} (h : n < 2 ^ 32) (t : Bytes) :
    networkToHost32 (bigEndian n ++ t) = n := by
  show ((_ * 2 ^ 8 + _) * 2 ^ 8 + _) * 2 ^ 8 + _ = n
  simp only [UInt8.toNat_ofNat']
  omega

theorem bigEndian_networkToHost32 {s : Bytes} (h : s.length = kHeaderLen) :
    bigEndian (networkToHost32 s) = s := by
  obtain ⟨a, b, c, d, rfl⟩ : ∃ a b c d, s = [a, b, c, d] := List.length_eq_four.mp h
  have ha := a.toNat_lt
  have hb := b.toNat_lt
  have hc := c.toNat_lt
  have hd := d.toNat_lt
  have hbyte : ∀ (x : UInt8) (n : Nat), n % 2 ^ 8 = x.toNat → UInt8.ofNat n = x := by
    intro x n hn
    apply UInt8.toNat_inj.mp
    rw [UInt8.toNat_ofNat', hn]
  rw [bigEndian, networkToHost32, hbyte a, hbyte b, hbyte c, hbyte d] <;> omega

theorem networkToHost32_take (s : Bytes) :
    networkToHost32 (s.take kHeaderLen) = networkToHost32 s := by
  match s with
  | [] | [_] | [_, _] | [_, _, _] => rfl
  | _ :: _ :: _ :: _ :: _ => rfl

theorem networkToHost32_lt (s : Bytes) : networkToHost32 s < 2 ^ 32 := by
  unfold networkToHost32
  split
  · rename_i a b c d _
    have ha := a.toNat_lt
    have hb := b.toNat_lt
    have hc := c.toNat_lt
    have hd := d.toNat_lt
    omega
  · decide

theorem networkToHost32_append {s : Bytes} (h : kHeaderLen ≤ s.length) (t : Bytes) :
    networkToHost32 (s ++ t) = networkToHost32 s := by
  rw [← networkToHost32_take, List.take_append_of_le_length h, networkToHost32_take]

theorem hostToNetwork32_length (len : Int) : (hostToNetwork32 len).length = kHeaderLen := rfl

/-! ## One message -/

/-- The length that `onMessage` reads off the front. -/
def headerLen (s : Bytes) : Int := toInt (networkToHost32 s)

/-- What `onMessage` makes of the bytes in the Buffer. -/
def frame (s : Bytes) : Verdict Byte Bytes :=
  if s.length < kHeaderLen then .more
  else if 65536 < headerLen s ∨ headerLen s < 0 then .refused
  else if kHeaderLen + (headerLen s).toNat ≤ s.length then
    .item ((s.drop kHeaderLen).take (headerLen s).toNat) (s.drop (kHeaderLen + (headerLen s).toNat))
  else .more

variable {s t a r : Bytes} {len : Nat}

theorem headerLen_append (h : kHeaderLen ≤ s.length) (t : Bytes) :
    headerLen (s ++ t) = headerLen s := by
  rw [headerLen, networkToHost32_append h, headerLen]

theorem frame_of_header (hhead : headerLen s = len) (hmax : len ≤ 65536)
    (hall : kHeaderLen + len ≤ s.length) :
    frame s = .item ((s.drop kHeaderLen).take len) (s.drop (kHeaderLen + len)) := by
  rw [frame, if_neg (by omega), hhead, if_neg (by omega), Int.toNat_natCast, if_pos hall]

theorem frame_item (h : frame s = .item a r) :
    ∃ len : Nat, headerLen s = len ∧ len ≤ 65536 ∧ kHeaderLen + len ≤ s.length ∧
      a = (s.drop kHeaderLen).take len ∧ r = s.drop (kHeaderLen + len) := by
  unfold frame at h
  split at h
  · cases h
  · split at h
    · cases h
    · rename_i hrange
      split at h
      · rename_i hall
        cases h
        exact ⟨(headerLen s).toNat, by omega, by omega, hall, rfl, rfl⟩
      · cases h

theorem frame_refused_iff :
    frame s = .refused ↔ kHeaderLen ≤ s.length ∧ (65536 < headerLen s ∨ headerLen s < 0) := by
  unfold frame
  split
  · exact iff_of_false nofun (by omega)
  · split
    · rename_i hrange
      exact iff_of_true rfl ⟨by omega, hrange⟩
    · rename_i hrange
      refine iff_of_false ?_ fun h => hrange h.2
      split
      · nofun
      · nofun

theorem frame_shorter : ∀ {s r a : Bytes}, frame s = .item a r → r.length < s.length := by
  intro s r a h
  obtain ⟨len, -, -, hall, -, rfl⟩ := frame_item h
  have hfour : kHeaderLen = 4 := rfl
  rw [List.length_drop]
  omega

theorem frame_item_append : ∀ {s r a : Bytes} (t : Bytes),
    frame s = .item a r → frame (s ++ t) = .item a (r ++ t) := by
  intro s r a t h
  obtain ⟨len, hhead, hmax, hall, rfl, rfl⟩ := frame_item h
  have hmore : kHeaderLen + len ≤ (s ++ t).length := by
    rw [List.length_append]
    omega
  rw [frame_of_header ((headerLen_append (by omega) t).trans hhead) hmax hmore,
    List.drop_append_of_le_length (by omega), List.drop_append_of_le_length hall,
    List.take_append_of_le_length (by rw [List.length_drop]; omega)]

theorem frame_refused_append : ∀ {s : Bytes} (t : Bytes),
    frame s = .refused → frame (s ++ t) = .refused := by
  intro s t h
  obtain ⟨hlen, hrange⟩ := frame_refused_iff.mp h
  rw [frame_refused_iff, headerLen_append hlen, List.length_append]
  exact ⟨by omega, hrange⟩

/-- The wire format, as a decoder. -/
def frames : Decoder Byte Bytes where
  next := frame
  shorter := @frame_shorter
  item_append := @frame_item_append
  refused_append := @frame_refused_append

theorem headerLen_send {message : Bytes} (h : message.length < 2 ^ 31) (t : Bytes) :
    headerLen (send message ++ t) = message.length := by
  have hnarrow : toInt message.length = message.length := toInt_of_lt h
  have hnat : ((message.length : Int) % 2 ^ 32).toNat = message.length := by omega
  rw [headerLen, send, List.append_assoc, hostToNetwork32, hnarrow, hnat,
    networkToHost32_bigEndian (by omega), hnarrow]

theorem send_length (message : Bytes) : (send message).length = kHeaderLen + message.length := by
  rw [send, List.length_append, hostToNetwork32_length]

/-- What `send` writes is what `onMessage` takes for a message. -/
theorem frames_inverts : frames.Inverts (fun message => message.length ≤ 65536) send where
  reads := by
    intro a t ha
    have hall : kHeaderLen + a.length ≤ (send a ++ t).length := by
      rw [List.length_append, send_length]
      omega
    refine (frame_of_header (headerLen_send (by omega) t) ha hall).trans ?_
    have hdrop : (send a ++ t).drop kHeaderLen = a ++ t := by
      rw [send, List.append_assoc]
      exact List.drop_left' (hostToNetwork32_length _)
    rw [← List.drop_drop, hdrop, List.take_left, List.drop_left]
  writes := by
    intro s r a h
    obtain ⟨len, hhead, hmax, hall, rfl, rfl⟩ := frame_item h
    have hfour : kHeaderLen = 4 := rfl
    have hlen : ((s.drop kHeaderLen).take len).length = len := by
      rw [List.length_take, List.length_drop]
      omega
    have hnat : networkToHost32 s = len := by
      have hexact := toInt_of_nonneg (networkToHost32_lt s) (by
        rw [← headerLen, hhead]
        omega)
      rw [← headerLen, hhead] at hexact
      omega
    have hheader : hostToNetwork32 (toInt len) = s.take kHeaderLen := by
      have htake : (s.take kHeaderLen).length = kHeaderLen := by
        rw [List.length_take]
        omega
      have hmod : ((len : Int) % 2 ^ 32).toNat = networkToHost32 (s.take kHeaderLen) := by
        rw [networkToHost32_take, hnat]
        omega
      rw [hostToNetwork32, toInt_of_lt (by omega), hmod, bigEndian_networkToHost32 htake]
    refine ⟨hlen.symm ▸ hmax, ?_⟩
    rw [send, hlen, hheader, List.append_assoc, ← List.drop_drop, List.take_append_drop,
      List.take_append_drop]

/-! ## The loop of onMessage -/

/-- The turn that the front of the Buffer asks for. -/
def Turn.after (s : Turn) : Verdict Byte Bytes → Turn
  | .item message rest =>
    { conn := { s.conn with inputBuffer := rest, messages := s.conn.messages ++ [message] }
      broken := false }
  | .refused => { conn := { s.conn with shutdowns := s.conn.shutdowns + 1 }, broken := true }
  | .more => { s with broken := true }

theorem turn_refused {s : Turn} (h : kHeaderLen ≤ s.conn.inputBuffer.length)
    (hbad : 65536 < headerLen s.conn.inputBuffer ∨ headerLen s.conn.inputBuffer < 0) :
    turn s = .ok (s.after .refused) := by
  rw [turn, peek, if_pos h, ok_then, networkToHost32_take]
  exact if_pos hbad

theorem turn_of_header {s : Turn} {len : Nat} (h : kHeaderLen ≤ s.conn.inputBuffer.length)
    (hhead : headerLen s.conn.inputBuffer = len) (hmax : len ≤ 65536) :
    turn s = if kHeaderLen + len ≤ s.conn.inputBuffer.length then
        .ok (s.after (.item ((s.conn.inputBuffer.drop kHeaderLen).take len)
          (s.conn.inputBuffer.drop (kHeaderLen + len))))
      else .ok (s.after .more) := by
  have hfour : kHeaderLen = 4 := rfl
  have hgood : ¬(65536 < (len : Int) ∨ (len : Int) < 0) := by omega
  have hsum : sizeAdd len kHeaderLen = kHeaderLen + len := by
    rw [sizeAdd_of_lt (by omega), Nat.add_comm]
  rw [headerLen] at hhead
  rw [turn, peek, if_pos h, ok_then, networkToHost32_take]
  simp only [hhead]
  rw [if_neg hgood, toSize_ofNat (by omega), hsum]
  by_cases hall : kHeaderLen + len ≤ s.conn.inputBuffer.length
  · have hrest : len ≤ (s.conn.inputBuffer.drop kHeaderLen).length := by
      rw [List.length_drop]
      omega
    rw [if_pos hall, if_pos hall, retrieve, if_pos h, ok_then, peek, if_pos hrest, ok_then,
      retrieve, if_pos hrest, ok_then, List.drop_drop]
    rfl
  · rw [if_neg hall, if_neg hall]
    rfl

/-- A turn takes the message on the front, or leaves the loop. -/
theorem turn_eq {s : Turn} (h : kHeaderLen ≤ s.conn.inputBuffer.length) :
    turn s = .ok (s.after (frame s.conn.inputBuffer)) := by
  rw [frame, if_neg (Nat.not_lt.mpr h)]
  by_cases hbad : 65536 < headerLen s.conn.inputBuffer ∨ headerLen s.conn.inputBuffer < 0
  · rw [turn_refused h hbad, if_pos hbad]
  · obtain ⟨len, hhead⟩ := Int.eq_ofNat_of_zero_le (Int.not_lt.mp fun hneg => hbad (Or.inr hneg))
    rw [turn_of_header h hhead (by omega), if_neg hbad, hhead, Int.toNat_natCast]
    split
    · rfl
    · rfl

/-- The calls of `shutdown` that the front of the Buffer asks for. -/
def refusals : Verdict Byte Bytes → Nat
  | .refused => 1
  | _ => 0

/-- In the loop of `onMessage` on `conn`: the messages taken and those still on the front are
    those that were on the front. -/
structure Taking (conn : Receiver) (k : Nat) (s : Turn) : Prop where
  left : s.conn.inputBuffer.length = k
  messages : s.conn.messages ++ (frames.drain s.conn.inputBuffer).1 =
    conn.messages ++ (frames.drain conn.inputBuffer).1
  rest : (frames.drain s.conn.inputBuffer).2 = (frames.drain conn.inputBuffer).2
  open_ : s.broken = false → s.conn.shutdowns = conn.shutdowns
  stops : s.broken = true → frames.Stops s.conn.inputBuffer ∧
    s.conn.shutdowns = conn.shutdowns + refusals (frame s.conn.inputBuffer)

theorem goesOn_iff {s : Turn} :
    goesOn s = true ↔ s.broken = false ∧ kHeaderLen ≤ s.conn.inputBuffer.length := by
  rw [goesOn, Bool.and_eq_true, Bool.not_eq_true', decide_eq_true_iff]

theorem Taking.turn {conn : Receiver} {k : Nat} {s : Turn} (h : Taking conn k s)
    (hgoes : goesOn s = true) :
    ∃ s' k', turn s = .ok s' ∧ Taking conn k' s' ∧ (goesOn s' = true → k' < k) := by
  obtain ⟨hopen, hlen⟩ := goesOn_iff.mp hgoes
  have hturn := turn_eq hlen
  have hleft := h.left
  cases hframe : frame s.conn.inputBuffer with
  | item message rest =>
    rw [hframe] at hturn
    have hshorter := frame_shorter hframe
    have hdrain := @Decoder.drain_item _ _ frames _ _ _ hframe
    refine ⟨_, rest.length, hturn, ⟨rfl, ?_, ?_, fun _ => h.open_ hopen, nofun⟩,
      fun _ => hleft ▸ hshorter⟩
    · show s.conn.messages ++ [message] ++ (frames.drain rest).1 = _
      rw [← h.messages, hdrain, List.append_assoc]
      rfl
    · show (frames.drain rest).2 = _
      rw [← h.rest, hdrain]
  | refused =>
    rw [hframe] at hturn
    have hstops := @Decoder.stops_of_refused _ _ frames _ hframe
    refine ⟨_, k, hturn, ⟨hleft, h.messages, h.rest, nofun, fun _ => ⟨hstops, ?_⟩⟩, nofun⟩
    show s.conn.shutdowns + 1 = conn.shutdowns + refusals (frame s.conn.inputBuffer)
    rw [hframe, h.open_ hopen]
    rfl
  | more =>
    rw [hframe] at hturn
    have hstops : frames.Stops s.conn.inputBuffer := fun a r hitem => by
      rw [show frames.next s.conn.inputBuffer = .more from hframe] at hitem
      cases hitem
    refine ⟨_, k, hturn, ⟨hleft, h.messages, h.rest, nofun, fun _ => ⟨hstops, ?_⟩⟩, nofun⟩
    show s.conn.shutdowns = conn.shutdowns + refusals (frame s.conn.inputBuffer)
    rw [hframe, h.open_ hopen]
    rfl

/-- A call of `onMessage` takes what is on the front, and asks for a shutdown when a refused
    length comes behind. -/
theorem onMessage_spec (conn : Receiver) :
    ∃ conn', onMessage conn = .ok conn' ∧
      conn'.messages = conn.messages ++ (frames.drain conn.inputBuffer).1 ∧
      conn'.inputBuffer = (frames.drain conn.inputBuffer).2 ∧
      conn'.shutdowns =
        conn.shutdowns + refusals (frame conn'.inputBuffer) := by
  have hstart : Taking conn conn.inputBuffer.length { conn := conn, broken := false } :=
    ⟨rfl, rfl, rfl, fun _ => rfl, nofun⟩
  obtain ⟨s, k, hloop, hs, hend⟩ := @loop_total _ _ _ _ _ _ Fault.spin _
    (conn.inputBuffer.length + 3) hstart (fun k x hx hgoes => hx.turn hgoes) (by omega)
  -- the loop is left where no message stands on the front
  have hstops : frames.Stops s.conn.inputBuffer ∧ s.conn.shutdowns =
      conn.shutdowns + refusals (frame s.conn.inputBuffer) := by
    cases hbroken : s.broken with
    | true => exact hs.stops hbroken
    | false =>
      have hshort : s.conn.inputBuffer.length < kHeaderLen := by
        by_contra hlong
        rw [goesOn_iff.mpr ⟨hbroken, Nat.le_of_not_lt hlong⟩] at hend
        cases hend
      have hmore : frame s.conn.inputBuffer = .more := if_pos hshort
      refine ⟨fun a r hitem => ?_, ?_⟩
      · rw [show frames.next s.conn.inputBuffer = .more from hmore] at hitem
        cases hitem
      · rw [hmore, hs.open_ hbroken]
        rfl
  have hnone := Decoder.drain_stops hstops.1
  have hmessages := hs.messages
  have hrest := hs.rest
  rw [hnone, List.append_nil] at hmessages
  rw [hnone] at hrest
  refine ⟨s.conn, ?_, hmessages, hrest, hstops.2⟩
  rw [onMessage, hloop, ok_then]

/-! ## A stream -/

/-- The bytes `s` have come, in whatever chunks. -/
structure Received (s : Bytes) (conn : Receiver) : Prop where
  messages : conn.messages = (frames.drain s).1
  rest : conn.inputBuffer = (frames.drain s).2
  shutdown : 0 < conn.shutdowns ↔ frame conn.inputBuffer = .refused

theorem Received.onBytes {conn : Receiver} (h : Received s conn) (bytes : Bytes) :
    ∃ conn', onBytes conn bytes = .ok conn' ∧ Received (s ++ bytes) conn' := by
  obtain ⟨conn', hcall, hmessages, hrest, hshutdowns⟩ :=
    onMessage_spec { conn with inputBuffer := conn.inputBuffer ++ bytes }
  have hfeed : frames.drain (s ++ bytes) = frames.feed (conn.messages, conn.inputBuffer) bytes := by
    rw [h.messages, h.rest]
    exact (Decoder.feed_drain s bytes).symm
  refine ⟨conn', hcall, ?_, ?_, ?_⟩
  · rw [hfeed]
    exact hmessages
  · rw [hfeed]
    exact hrest
  · rw [hshutdowns]
    show 0 < conn.shutdowns + refusals (frame conn'.inputBuffer) ↔ _
    cases hframe : frame conn'.inputBuffer with
    | refused => exact iff_of_true (Nat.succ_pos _) rfl
    | item a r =>
      -- nothing is left on the front
      have hstops := @Decoder.drain_rest_stops _ _ frames (conn.inputBuffer ++ bytes)
      rw [← hrest] at hstops
      exact absurd hframe (hstops a r)
    | more =>
      refine iff_of_false (fun hpos => ?_) nofun
      -- a length that was refused before still is
      have hbefore : frame conn.inputBuffer = .refused := h.shutdown.mp hpos
      have hstill := frame_refused_append bytes hbefore
      rw [hrest, Decoder.drain_stops (@Decoder.stops_of_refused _ _ frames _ hstill)] at hframe
      rw [show frame (conn.inputBuffer ++ bytes) = .refused from hstill] at hframe
      cases hframe

theorem run_received (chunks : List Bytes) :
    ∃ conn, run onBytes Receiver.new chunks = .ok conn ∧ Received chunks.flatten conn := by
  suffices hall : ∀ (chunks : List Bytes) (s : Bytes) (conn : Receiver), Received s conn →
      ∃ conn', run onBytes conn chunks = .ok conn' ∧ Received (s ++ chunks.flatten) conn' by
    have hnone : frames.drain [] = ([], []) := Decoder.drain_stops Decoder.stops_nil
    have hmore : frame [] = .more := rfl
    refine hall chunks [] Receiver.new ⟨?_, ?_, ?_⟩
    · rw [hnone]; rfl
    · rw [hnone]; rfl
    · refine iff_of_false (Nat.lt_irrefl 0) ?_
      show frame [] ≠ .refused
      rw [hmore]
      exact fun hrefused => by cases hrefused
  intro chunks
  induction chunks with
  | nil =>
    intro s conn h
    exact ⟨conn, rfl, by rw [List.flatten_nil, List.append_nil]; exact h⟩
  | cons c cs ih =>
    intro s conn h
    obtain ⟨m, hm, hreceived⟩ := h.onBytes c
    obtain ⟨conn', hrun, hend⟩ := ih _ m hreceived
    refine ⟨conn', ?_, ?_⟩
    · rw [run_cons, hm, ok_then, hrun]
    · rw [List.flatten_cons, ← List.append_assoc]
      exact hend

/-- However the bytes are cut: the messages are those whose frames stand on the front of the
    stream, and what stays in the Buffer does not begin with a frame. -/
theorem messages_iff (chunks : List Bytes) :
    ∃ conn, run onBytes Receiver.new chunks = .ok conn ∧ ∀ ms buf,
      (conn.messages = ms ∧ conn.inputBuffer = buf) ↔
        (∀ m ∈ ms, m.length ≤ 65536) ∧ chunks.flatten = ms.flatMap send ++ buf ∧
          ∀ m t, m.length ≤ 65536 → buf ≠ send m ++ t := by
  obtain ⟨conn, hrun, h⟩ := run_received chunks
  refine ⟨conn, hrun, fun ms buf => ?_⟩
  have hstops : frames.Stops buf ↔ ∀ m t, m.length ≤ 65536 → buf ≠ send m ++ t := by
    constructor
    · rintro hs m t hm rfl
      exact hs m t (frames_inverts.reads t hm)
    · intro hfree m t hitem
      obtain ⟨hm, hbuf⟩ := frames_inverts.writes hitem
      exact hfree m t hm hbuf
  rw [← hstops, ← frames_inverts.drain_eq_iff, h.messages, h.rest]
  exact ⟨fun h => Prod.ext h.1 h.2, fun h => by rw [h]; exact ⟨rfl, rfl⟩⟩

/-- Messages that were sent are received up to the first that is too long; that one shuts the
    connection down. -/
theorem sent_received {ms chunks : List Bytes} (hms : ∀ m ∈ ms, m.length < 2 ^ 31)
    (hsent : chunks.flatten = ms.flatMap send) :
    ∃ conn, run onBytes Receiver.new chunks = .ok conn ∧
      conn.messages = ms.takeWhile (·.length ≤ 65536) ∧
      conn.inputBuffer = (ms.dropWhile (·.length ≤ 65536)).flatMap send ∧
      (0 < conn.shutdowns ↔ ∃ m ∈ ms, 65536 < m.length) := by
  obtain ⟨conn, hrun, h⟩ := run_received chunks
  have hsplit : ms.takeWhile (·.length ≤ 65536) ++ ms.dropWhile (·.length ≤ 65536) = ms :=
    List.takeWhile_append_dropWhile
  have hgood : ∀ m ∈ ms.takeWhile (·.length ≤ 65536), m.length ≤ 65536 := by
    intro m hm
    have hshort := List.mem_takeWhile_imp hm
    exact of_decide_eq_true hshort
  have hdrain := frames_inverts.drain_flatMap hgood
    ((ms.dropWhile (·.length ≤ 65536)).flatMap send)
  rw [← List.flatMap_append, hsplit, ← hsent] at hdrain
  cases hlong : ms.dropWhile (·.length ≤ 65536) with
  | nil =>
    have hnone : frames.drain [] = ([], []) := Decoder.drain_stops Decoder.stops_nil
    rw [hlong, List.flatMap_nil, hnone, List.append_nil] at hdrain
    have hmessages := h.messages
    have hrest := h.rest
    rw [hdrain] at hmessages hrest
    refine ⟨conn, hrun, hmessages, hrest, iff_of_false (fun hpos => ?_) ?_⟩
    · have hframe := h.shutdown.mp hpos
      rw [hrest] at hframe
      cases hframe
    · rintro ⟨m, hm, hlen⟩
      rw [hlong, List.append_nil] at hsplit
      exact absurd (hgood m (hsplit.symm ▸ hm)) (Nat.not_le.mpr hlen)
  | cons m rest =>
    have hmem : m ∈ ms := by
      rw [← hsplit, hlong]
      exact List.mem_append_right _ List.mem_cons_self
    have hlen : 65536 < m.length := by
      have hne : ms.dropWhile (·.length ≤ 65536) ≠ [] := by
        rw [hlong]
        exact List.cons_ne_nil m rest
      have hhead := List.head_dropWhile_not (fun m : Bytes => decide (m.length ≤ 65536)) hne
      simpa [hlong] using hhead
    -- the front of the rest is a header out of range
    have hframe : frames.next ((m :: rest).flatMap send) = .refused := by
      show frame ((m :: rest).flatMap send) = .refused
      rw [List.flatMap_cons]
      refine frame_refused_iff.mpr ⟨?_, Or.inl ?_⟩
      · rw [List.length_append, send_length]
        omega
      · rw [headerLen_send (hms m hmem)]
        omega
    rw [hlong, Decoder.drain_stops (Decoder.stops_of_refused hframe), List.append_nil] at hdrain
    have hmessages := h.messages
    have hrest := h.rest
    rw [hdrain] at hmessages hrest
    refine ⟨conn, hrun, hmessages, hrest, iff_of_true (h.shutdown.mpr ?_) ⟨m, hmem, hlen⟩⟩
    rw [hrest]
    exact hframe

theorem sent_received_two :
    [[0, 0], [0, 2, 104], [105, 0, 0, 0, 0]].flatten = [[104, 105], []].flatMap send ∧
      ∃ conn, run onBytes Receiver.new [[0, 0], [0, 2, 104], [105, 0, 0, 0, 0]] = .ok conn ∧
        conn.messages = [[104, 105], []].takeWhile (·.length ≤ 65536) ∧
        conn.inputBuffer = ([[104, 105], []].dropWhile (·.length ≤ 65536)).flatMap send ∧
        (0 < conn.shutdowns ↔ ∃ m ∈ [[104, 105], []], 65536 < List.length (α := Byte) m) :=
  ⟨by decide +kernel, sent_received (by decide) (by decide +kernel)⟩

/-- Behind a refused length no message is received any more, and all that comes stays in the
    Buffer. -/
theorem refused_silent {chunks more : List Bytes} {conn : Receiver}
    (hrun : run onBytes Receiver.new chunks = .ok conn) (hshut : 0 < conn.shutdowns) :
    ∃ conn', run onBytes Receiver.new (chunks ++ more) = .ok conn' ∧
      conn'.messages = conn.messages ∧
      conn'.inputBuffer = conn.inputBuffer ++ more.flatten ∧ 0 < conn'.shutdowns := by
  obtain ⟨conn₁, hrun₁, h⟩ := run_received chunks
  obtain rfl := Except.ok.inj (hrun.symm.trans hrun₁)
  obtain ⟨conn', hrun', h'⟩ := run_received (chunks ++ more)
  have hframe : frames.next (frames.drain chunks.flatten).2 = .refused := by
    rw [← h.rest]
    exact h.shutdown.mp hshut
  have hdrain := @Decoder.drain_append_refused _ _ frames _ more.flatten hframe
  rw [← List.flatten_append] at hdrain
  have hmessages := h'.messages
  have hrest := h'.rest
  rw [hdrain] at hmessages hrest
  refine ⟨conn', hrun', hmessages.trans h.messages.symm, ?_, h'.shutdown.mpr ?_⟩
  · rw [hrest, h.rest]
  · rw [hrest]
    exact frame_refused_append _ hframe

theorem refused_silent_header :
    ∃ conn, run onBytes Receiver.new [[0, 1], [0, 1]] = .ok conn ∧ 0 < conn.shutdowns ∧
      ∃ conn', run onBytes Receiver.new ([[0, 1], [0, 1]] ++ [[104]]) = .ok conn' ∧
        conn'.messages = conn.messages ∧
        conn'.inputBuffer = conn.inputBuffer ++ [[104]].flatten ∧ 0 < conn'.shutdowns :=
  ⟨{ inputBuffer := [0, 1, 0, 1], messages := [], shutdowns := 1 }, by decide +kernel, by decide,
    refused_silent (by decide +kernel) (by decide)⟩

end LengthHeaderCode

end LearnMuduo
