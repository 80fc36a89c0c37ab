/-
  LearnMuduo.Net.BufferSpec

  One specification per `Buffer` operation: a well-formed Buffer stays
  well-formed, and its readable bytes change as a byte queue does.  Callers use
  these and never unfold an operation.

  The room needed never exceeds twice the appended bytes plus what is pending
  (`append_returns`), so an append only throws when that much cannot be held.
-/
import LearnMuduo.Net.Buffer

namespace LearnMuduo

open Lib

namespace Buffer

variable {b b' : Buffer}

/-! ## Consuming -/

theorem retrieveAll_spec (h : b.WF) : b.retrieveAll.WF ∧ b.retrieveAll.readable = [] := by
  have hp := h.prepend
  have hr := h.read
  have hw := h.write
  have hwf : b.retrieveAll.WF :=
    ⟨Nat.le_refl _, Nat.le_refl _, by simp only [retrieveAll]; omega, h.size⟩
  refine ⟨hwf, ?_⟩
  rw [hwf.readable_eq]
  simp [retrieveAll, slice_zero_right]

theorem retrieve_spec (h : b.WF) (len : Nat) :
    (b.retrieve len).WF ∧ (b.retrieve len).readable = b.readable.drop len := by
  have hr := h.read
  have hw := h.write
  have hs := h.size_lt
  unfold retrieve
  split
  · rename_i hlt
    rw [h.readableBytes_eq] at hlt
    have hadd : sizeAdd b.readIdx_ len = b.readIdx_ + len := sizeAdd_of_lt (by omega)
    have hwf : ({ b with readIdx_ := sizeAdd b.readIdx_ len } : Buffer).WF := by
      rw [hadd]
      exact ⟨by have := h.prepend; simp only; omega, by simp only; omega, hw, h.size⟩
    refine ⟨hwf, ?_⟩
    rw [hwf.readable_eq, h.readable_eq, slice_drop]
    simp only [hadd]
    congr 1
    omega
  · rename_i hge
    obtain ⟨hwf, hnil⟩ := retrieveAll_spec h
    refine ⟨hwf, ?_⟩
    rw [hnil, List.drop_of_length_le]
    rw [h.readable_length]
    omega

theorem retieveAsString_spec (h : b.WF) {len : Nat} (hlen : len ≤ b.readable.length) :
    (b.retieveAsString len).1 = b.readable.take len ∧
      (b.retieveAsString len).2.WF ∧
      (b.retieveAsString len).2.readable = b.readable.drop len := by
  refine ⟨?_, retrieve_spec h len⟩
  rw [h.readable_length] at hlen
  rw [retieveAsString, readable, slice_take _ _ hlen]

theorem retrieveUntilIdx_spec (h : b.WF) {k : Nat} (hk : k ≤ b.readable.length)
    (hint : k < 2 ^ 31) :
    ∃ b', b.retrieveUntilIdx (b.readIdx_ + k) = .ok b' ∧ b'.WF ∧
      b'.readable = b.readable.drop k := by
  have hr := h.read
  have hw := h.write
  have hs := h.size_lt
  have hidx := h.writeIdx_eq
  have hdist : ((b.readIdx_ + k : Nat) : Int) - b.readIdx_ = (k : Nat) := by omega
  have hnew : toSize ((b.readIdx_ : Int) + toInt (((b.readIdx_ + k : Nat) : Int) - b.readIdx_))
      = b.readIdx_ + k := by
    rw [hdist, toInt_of_lt hint, ← Int.natCast_add, toSize_ofNat (by omega)]
  have hwf : ({ b with readIdx_ := b.readIdx_ + k } : Buffer).WF :=
    ⟨by have := h.prepend; simp only; omega, by simp only; omega, hw, h.size⟩
  refine ⟨{ b with readIdx_ := b.readIdx_ + k }, ?_, hwf, ?_⟩
  · rw [retrieveUntilIdx, if_pos (by omega), hnew]
  · rw [hwf.readable_eq, h.readable_eq, slice_drop]
    simp only
    congr 1
    omega

/-! ## Making room -/

theorem resize_grow {v v' : Bytes} {n : Nat} (hn : v.length ≤ n) (hok : resize v n = .ok v') :
    ∃ zeros, v' = v ++ zeros ∧ (v ++ zeros).length = n ∧ n ≤ kMaxSize := by
  unfold resize at hok
  split at hok
  · rename_i hmax
    rw [List.take_of_length_le hn] at hok
    refine ⟨_, (Except.ok.inj hok).symm, ?_, hmax⟩
    rw [List.length_append, List.length_replicate]
    omega
  · simp at hok

/-- `makeSpace(len)` keeps the content and leaves `len` bytes writable, as long as
    `writeIdx_ + len` does not wrap. -/
theorem makeSpace_spec (h : b.WF) {len : Nat} (hlen : b.writeIdx_ + len < 2 ^ 64)
    (hfull : b.writeableBytes < len) (hok : b.makeSpace len = .ok b') :
    b'.WF ∧ b'.readable = b.readable ∧ len ≤ b'.writeableBytes := by
  have hp := h.prepend
  have hr := h.read
  have hw := h.write
  have hs := h.size_lt
  have hwb := h.writeableBytes_eq
  have hfree : sizeAdd b.writeableBytes b.prependanleBytes
      = b.buffer_.length - b.writeIdx_ + b.readIdx_ := by
    rw [hwb, prependanleBytes, sizeAdd_of_lt (by omega)]
  have hneed : sizeAdd len kcheapPrepend = len + kcheapPrepend := by
    unfold kcheapPrepend at *
    exact sizeAdd_of_lt (by omega)
  rw [hwb] at hfull
  unfold makeSpace at hok
  rw [hfree, hneed, sizeAdd_of_lt hlen] at hok
  split at hok
  · -- the vector grows to end exactly `len` bytes behind the write index
    obtain ⟨v, hv, hok⟩ := then_ok_iff.mp hok
    obtain rfl : { b with buffer_ := v } = b' := by simpa using hok
    obtain ⟨zeros, rfl, hvlen, hmax⟩ := resize_grow (by omega) hv
    have hwf : ({ b with buffer_ := b.buffer_ ++ zeros } : Buffer).WF :=
      ⟨hp, hr, by simp only; omega, by simpa only [hvlen] using hmax⟩
    refine ⟨hwf, ?_, ?_⟩
    · rw [hwf.readable_eq, h.readable_eq]
      exact slice_append_left _ (by dsimp only; omega)
    · rw [hwf.writeableBytes_eq]
      simp only [hvlen]
      omega
  · -- the readable bytes move to the front
    rename_i hroom
    obtain rfl := Except.ok.inj hok
    have hrl := h.readable_length
    have hrb := h.readableBytes_eq
    have hkc : sizeAdd kcheapPrepend b.readableBytes = kcheapPrepend + b.readable.length := by
      rw [hrl]
      exact sizeAdd_of_lt (by rw [hrb]; unfold kcheapPrepend; omega)
    have hin : kcheapPrepend + b.readable.length ≤ b.buffer_.length := by
      rw [hrl, hrb]
      omega
    have hwf : (({ buffer_ := overwrite b.buffer_ kcheapPrepend b.readable
                   readIdx_ := kcheapPrepend
                   writeIdx_ := sizeAdd kcheapPrepend b.readableBytes } : Buffer)).WF := by
      rw [hkc]
      exact ⟨Nat.le_refl _, by simp only; omega,
        by simpa only [overwrite_length hin] using hin,
        by simpa only [overwrite_length hin] using h.size⟩
    refine ⟨hwf, ?_, ?_⟩
    · rw [hwf.readable_eq]
      simp only [hkc, Nat.add_sub_cancel_left]
      exact slice_overwrite_self hin
    · rw [hwf.writeableBytes_eq]
      simp only [hkc, overwrite_length hin]
      rw [hrl, hrb]
      omega

theorem ensureWriteableBytes_spec (h : b.WF) {len : Nat} (hlen : b.writeIdx_ + len < 2 ^ 64)
    (hok : b.ensureWriteableBytes len = .ok b') :
    b'.WF ∧ b'.readable = b.readable ∧ len ≤ b'.writeableBytes := by
  unfold ensureWriteableBytes at hok
  split at hok
  · rename_i hfull
    exact makeSpace_spec h hlen hfull hok
  · rename_i hroom
    obtain rfl := Except.ok.inj hok
    exact ⟨h, rfl, Nat.le_of_not_lt hroom⟩

/-- Growing stops below what is pending plus twice the request. -/
theorem ensureWriteableBytes_returns (h : b.WF) {len : Nat}
    (hlen : b.readable.length + 2 * len + kcheapPrepend ≤ kMaxSize) :
    ∃ b', b.ensureWriteableBytes len = .ok b' := by
  have hp := h.prepend
  have hr := h.read
  have hw := h.write
  have hs := h.size_lt
  have hwb := h.writeableBytes_eq
  have hrl := h.readable_length
  have hrb := h.readableBytes_eq
  unfold ensureWriteableBytes
  split
  · have hmax : kMaxSize < 2 ^ 63 := by decide
    unfold makeSpace
    rw [hwb, prependanleBytes, sizeAdd_of_lt (by omega), sizeAdd_of_lt (by omega),
      sizeAdd_of_lt (by omega)]
    split
    · rw [resize, if_pos (by omega)]
      exact ⟨_, rfl⟩
    · exact ⟨_, rfl⟩
  · exact ⟨b, rfl⟩

/-! ## Appending -/

theorem append_spec (h : b.WF) {data : Bytes} {len : Nat} (hlen : len ≤ kMaxSize)
    (hok : b.append data len = .ok b') :
    b'.WF ∧ b'.readable = b.readable ++ data.take len ∧ len ≤ data.length := by
  have hsz := h.size_lt
  have hw := h.write
  unfold kMaxSize at hlen
  obtain ⟨c, hc, hok⟩ := then_ok_iff.mp hok
  obtain ⟨hcwf, hcr, hroom⟩ := ensureWriteableBytes_spec h (by omega) hc
  have hcs := hcwf.size_lt
  have hcw := hcwf.write
  have hcrd := hcwf.read
  split at hok
  · rename_i hin
    obtain ⟨hdata, hin⟩ := hin
    obtain rfl := Except.ok.inj hok
    have htk : (data.take len).length = len := by rw [List.length_take]; omega
    have hin' : c.writeIdx_ + (data.take len).length ≤ c.buffer_.length := by omega
    have hadd : sizeAdd c.writeIdx_ len = c.writeIdx_ + len := sizeAdd_of_lt (by omega)
    have hwf : ({ c with
        buffer_ := overwrite c.buffer_ c.writeIdx_ (data.take len)
        writeIdx_ := sizeAdd c.writeIdx_ len } : Buffer).WF := by
      rw [hadd]
      exact ⟨hcwf.prepend, by simp only; omega,
        by simpa only [overwrite_length hin'] using hin,
        by simpa only [overwrite_length hin'] using hcwf.size⟩
    -- the old bytes lie before the write index, the new ones right behind it
    refine ⟨hwf, ?_, hdata⟩
    rw [hwf.readable_eq, ← hcr, hcwf.readable_eq, ← slice_overwrite hcrd hin']
    simp only [hadd, htk]
    congr 1
    omega
  · simp at hok

/-- Behind `ensureWriteableBytes` nothing can go wrong any more. -/
theorem append_of_ensure (h : b.WF) {data : Bytes} {len : Nat} {c : Buffer}
    (hdata : len ≤ data.length) (hlen : len ≤ kMaxSize)
    (hc : b.ensureWriteableBytes len = .ok c) : ∃ b', b.append data len = .ok b' := by
  have hsz := h.size_lt
  have hw := h.write
  have hmax : kMaxSize < 2 ^ 63 := by decide
  obtain ⟨hcwf, -, hroom⟩ := ensureWriteableBytes_spec h (by omega) hc
  rw [hcwf.writeableBytes_eq] at hroom
  have := hcwf.write
  rw [append, hc, ok_then, if_pos ⟨hdata, by omega⟩]
  exact ⟨_, rfl⟩

theorem append_returns (h : b.WF) {data : Bytes} {len : Nat} (hdata : len ≤ data.length)
    (hlen : b.readable.length + 2 * len + kcheapPrepend ≤ kMaxSize) :
    ∃ b', b.append data len = .ok b' := by
  obtain ⟨c, hc⟩ := ensureWriteableBytes_returns h hlen
  exact append_of_ensure h hdata (by omega) hc

/-- No call copies more than the array holds. -/
theorem append_beyond {data : Bytes} {len : Nat} (hdata : data.length < len) (b' : Buffer) :
    b.append data len ≠ .ok b' := by
  intro hok
  obtain ⟨c, -, hok⟩ := then_ok_iff.mp hok
  rw [if_neg (by omega)] at hok
  simp at hok

/-- Appending to a Buffer whose vector is full returns iff the bytes go into the room
    in front or the vector may grow by them. -/
theorem append_full_iff (h : b.WF) {data : Bytes} {len : Nat}
    (hfull : b.writeIdx_ = b.buffer_.length) (hpos : 0 < len) (hdata : len ≤ data.length)
    (hlen : len ≤ kMaxSize) :
    (∃ b', b.append data len = .ok b') ↔
      len + kcheapPrepend ≤ b.readIdx_ ∨ b.buffer_.length + len ≤ kMaxSize := by
  have hp := h.prepend
  have hr := h.read
  have hs := h.size_lt
  have hmax : kMaxSize < 2 ^ 63 := by decide
  have hwb : b.writeableBytes = 0 := by rw [h.writeableBytes_eq]; omega
  -- a full vector has no room behind the write index, so `makeSpace` decides
  have hens : b.ensureWriteableBytes len = b.makeSpace len := by
    rw [ensureWriteableBytes, if_pos (by omega)]
  have hspace : b.makeSpace len = if b.readIdx_ < len + kcheapPrepend then
      resize b.buffer_ (b.buffer_.length + len) >>= fun v => .ok { b with buffer_ := v }
      else .ok { buffer_ := overwrite b.buffer_ kcheapPrepend b.readable
                 readIdx_ := kcheapPrepend
                 writeIdx_ := sizeAdd kcheapPrepend b.readableBytes } := by
    rw [makeSpace, hwb, prependanleBytes, sizeAdd_of_lt (by omega), sizeAdd_of_lt (by omega),
      sizeAdd_of_lt (by omega), hfull, Nat.zero_add]
  constructor
  · rintro ⟨b', hok⟩
    obtain ⟨c, hc, -⟩ := then_ok_iff.mp hok
    rw [hens, hspace] at hc
    split at hc
    · obtain ⟨v, hv, -⟩ := then_ok_iff.mp hc
      unfold resize at hv
      split at hv
      · rename_i hfit
        -- `resize` went through
        exact Or.inr hfit
      · simp at hv
    · rename_i hroom
      -- the readable bytes were moved to the front
      exact Or.inl (Nat.le_of_not_lt hroom)
  · intro hor
    have hc : ∃ c, b.ensureWriteableBytes len = .ok c := by
      rw [hens, hspace]
      split
      · rename_i hfew
        have hfit : b.buffer_.length + len ≤ kMaxSize := by omega
        rw [resize, if_pos hfit]
        exact ⟨_, rfl⟩
      · exact ⟨_, rfl⟩
    obtain ⟨c, hc⟩ := hc
    exact append_of_ensure h hdata hlen hc

theorem appendString_spec (h : b.WF) {data : Bytes} (hlen : data.length ≤ kMaxSize)
    (hok : b.appendString data = .ok b') :
    b'.WF ∧ b'.readable = b.readable ++ data := by
  obtain ⟨hwf, hr, -⟩ := append_spec h hlen hok
  rw [List.take_length] at hr
  exact ⟨hwf, hr⟩

theorem appendString_returns (h : b.WF) {data : Bytes}
    (hlen : b.readable.length + 2 * data.length + kcheapPrepend ≤ kMaxSize) :
    ∃ b', b.appendString data = .ok b' ∧ b'.WF ∧ b'.readable = b.readable ++ data := by
  obtain ⟨b', hb⟩ := append_returns h (Nat.le_refl _) hlen
  exact ⟨b', hb, appendString_spec h (by omega) hb⟩

/-! ## Reading from the descriptor -/

/-- What `::readv` may store, given the `iovec`s it is handed. -/
def Offered (b : Buffer) (r : ReadvResult) : Prop := r.data.length ≤ b.readRoom

instance (b : Buffer) (r : ReadvResult) : Decidable (b.Offered r) :=
  inferInstanceAs (Decidable (_ ≤ _))

theorem readRoom_le (b : Buffer) : b.readRoom ≤ b.writeableBytes + kExtraSize := by
  unfold readRoom
  split <;> omega

/-- The side buffer holds what did not fit behind the write index. -/
theorem extrabuf_take {extra : Bytes} (hlen : extra.length ≤ kExtraSize) :
    (overwrite (List.replicate kExtraSize (0 : Byte)) 0 extra).length = kExtraSize ∧
      (overwrite (List.replicate kExtraSize (0 : Byte)) 0 extra).take extra.length = extra := by
  have hin : 0 + extra.length ≤ (List.replicate kExtraSize (0 : Byte)).length := by
    rw [List.length_replicate]
    omega
  refine ⟨by rw [overwrite_length hin, List.length_replicate], ?_⟩
  have := slice_overwrite_self hin
  simpa [slice] using this

/-- The side buffer behind `::readv`. -/
def extrabuf (b : Buffer) (data : Bytes) : Bytes :=
  overwrite (List.replicate kExtraSize 0) 0 (data.drop b.writeableBytes)

/-- The Buffer when `::readv` has filled its vector to the end. -/
def fill (b : Buffer) (data : Bytes) : Buffer :=
  { b with
    buffer_ := overwrite b.buffer_ b.writeIdx_ (data.take b.writeableBytes)
    writeIdx_ := (overwrite b.buffer_ b.writeIdx_ (data.take b.writeableBytes)).length }

section ReadFd

variable {data : Bytes} {e e' : Errno}

theorem offered_length (h : b.WF) (hoff : b.Offered (.bytes data)) :
    data.length ≤ b.writeableBytes + kExtraSize ∧ data.length < 2 ^ 64 ∧
      toSize (ReadvResult.bytes data).value = data.length := by
  have hs := h.size_lt
  have hwb := h.writeableBytes_eq
  have hroom := b.readRoom_le
  have hlen : data.length ≤ b.readRoom := hoff
  have hlt : data.length < 2 ^ 64 := by
    unfold kExtraSize at hroom
    omega
  exact ⟨by omega, hlt, toSize_ofNat hlt⟩

/-- Everything goes behind the write index. -/
theorem readFd_fits (h : b.WF) (hoff : b.Offered (.bytes data))
    (hfit : data.length ≤ b.writeableBytes) :
    ∃ b', b.readFd (.bytes data) e = .ok (b', e) ∧ b'.WF ∧ b'.readable = b.readable ++ data := by
  have hs := h.size_lt
  have hw := h.write
  have hr := h.read
  have hwb := h.writeableBytes_eq
  obtain ⟨-, -, hn⟩ := offered_length h hoff
  have hdata : data.take b.writeableBytes = data := List.take_of_length_le hfit
  have hin : b.writeIdx_ + data.length ≤ b.buffer_.length := by omega
  have hadd : sizeAdd b.writeIdx_ data.length = b.writeIdx_ + data.length :=
    sizeAdd_of_lt (by omega)
  have hwf : ({ b with
      buffer_ := overwrite b.buffer_ b.writeIdx_ data
      writeIdx_ := b.writeIdx_ + data.length } : Buffer).WF :=
    ⟨h.prepend, by simp only; omega, by simpa only [overwrite_length hin] using hin,
      by simpa only [overwrite_length hin] using h.size⟩
  refine ⟨_, ?_, hwf, ?_⟩
  · simp only [readFd, hn, ReadvResult.data, Nat.not_lt_zero, if_false, if_pos hfit, hdata, hadd]
  · rw [hwf.readable_eq, h.readable_eq, ← slice_overwrite hr hin]
    congr 1
    simp only
    omega

theorem fill_spec (h : b.WF) (hspill : b.writeableBytes < data.length) :
    (b.fill data).WF ∧ (b.fill data).writeIdx_ = (b.fill data).buffer_.length ∧
      (b.fill data).buffer_.length = b.buffer_.length ∧
      (b.fill data).readable = b.readable ++ data.take b.writeableBytes := by
  have hw := h.write
  have hr := h.read
  have hwb := h.writeableBytes_eq
  have htl : (data.take b.writeableBytes).length = b.writeableBytes := by
    rw [List.length_take]; omega
  have hin : b.writeIdx_ + (data.take b.writeableBytes).length ≤ b.buffer_.length := by omega
  have hol := overwrite_length hin
  have hwf : (b.fill data).WF :=
    ⟨h.prepend, by simp only [fill, hol]; omega, Nat.le_refl _,
      by simpa only [fill, hol] using h.size⟩
  refine ⟨hwf, rfl, hol, ?_⟩
  rw [hwf.readable_eq, h.readable_eq, ← slice_overwrite hr hin]
  simp only [fill, hol]
  congr 1
  omega

/-- The rest, read into the side buffer, is appended to the full vector. -/
theorem readFd_spills (h : b.WF) (hoff : b.Offered (.bytes data))
    (hspill : b.writeableBytes < data.length) :
    b.readFd (.bytes data) e = (b.fill data).append (b.extrabuf data)
      (data.length - b.writeableBytes) >>= fun b => .ok (b, e) := by
  obtain ⟨-, hlt, hn⟩ := offered_length h hoff
  simp only [readFd, hn, ReadvResult.data, Nat.not_lt_zero, if_false,
    if_neg (Nat.not_le_of_lt hspill), sizeSub_of_le (Nat.le_of_lt hspill) hlt]
  rfl

theorem extrabuf_spec (h : b.WF) (hoff : b.Offered (.bytes data)) :
    (b.extrabuf data).length = kExtraSize ∧
      (b.extrabuf data).take (data.length - b.writeableBytes) = data.drop b.writeableBytes := by
  obtain ⟨hle, -, -⟩ := offered_length h hoff
  have hdl : (data.drop b.writeableBytes).length ≤ kExtraSize := by
    rw [List.length_drop]
    omega
  have := extrabuf_take hdl
  rwa [List.length_drop] at this

/-- A read that stored bytes, when it returns, appended exactly these bytes. -/
theorem readFd_bytes_spec (h : b.WF) (hoff : b.Offered (.bytes data))
    (hok : b.readFd (.bytes data) e = .ok (b', e')) :
    b'.WF ∧ b'.readable = b.readable ++ data ∧ e' = e := by
  by_cases hfit : data.length ≤ b.writeableBytes
  · obtain ⟨c, hc, hwf, hread⟩ := readFd_fits (e := e) h hoff hfit
    obtain ⟨rfl, rfl⟩ := Prod.mk.inj (Except.ok.inj (hc.symm.trans hok))
    exact ⟨hwf, hread, rfl⟩
  · have hspill := Nat.lt_of_not_le hfit
    rw [readFd_spills h hoff hspill] at hok
    obtain ⟨c, hc, hok⟩ := then_ok_iff.mp hok
    obtain ⟨rfl, rfl⟩ := Prod.mk.inj (Except.ok.inj hok)
    -- the vector takes the head of the data, `append` what was read into the side buffer
    obtain ⟨hfwf, -, -, hfread⟩ := fill_spec h hspill
    obtain ⟨-, htake⟩ := extrabuf_spec h hoff
    obtain ⟨hle, -, -⟩ := offered_length h hoff
    obtain ⟨hwf, hread, -⟩ :=
      append_spec hfwf (by unfold kExtraSize at hle; unfold kMaxSize; omega) hc
    refine ⟨hwf, ?_, rfl⟩
    rw [hread, htake, hfread, List.append_assoc, List.take_append_drop]

end ReadFd

end Buffer

end LearnMuduo
