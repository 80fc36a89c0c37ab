/-
  LearnMuduo.Log.LogFile

  `FileWritter::append` (Log/Logfile.cc): a block is written with as many calls of `fwrite`
  as it takes.

  A call accepts a front of what it is passed, of any length; a call that accepts nothing
  ends the loop.  `writtenbytes_` is raised by the length of the block on every path.  The
  length that remains is an `int`.
-/
import LearnMuduo.Base.CTypes
import LearnMuduo.Lib.Loop
import LearnMuduo.Lib.Overwrite
import LearnMuduo.Lib.Run

namespace LearnMuduo

open Lib

/-- The bytes a file has accepted, and how many calls there have been. -/
structure FILE where
  bytes : Bytes
  calls : Nat
  deriving DecidableEq

/-- `fwrite(data, 1, data.length, file)`; the call number `k` accepts `answers k` bytes, or
    all there are. -/
def FILE.fwrite (answers : Nat → Nat) (f : FILE) (data : Bytes) : FILE × Nat :=
  let num := min (answers f.calls) data.length
  ({ bytes := f.bytes ++ data.take num, calls := f.calls + 1 }, num)

structure FileWritter where
  file_ : FILE
  writtenbytes_ : Int64
  deriving DecidableEq

namespace FileWritter

/-- The `count` bytes at `line + n`. -/
def read (line : Bytes) (n count : Nat) : Except Fault Bytes :=
  if n + count ≤ line.length then .ok (slice line n count) else .error .outOfBounds

/-- The locals of `append`, and whether its loop has been left by the `break`. -/
structure Writing where
  n : Nat
  remain : Int
  file_ : FILE
  broken : Bool

def goesOn (s : Writing) : Bool := !s.broken && decide (0 < s.remain)

/-- The body of the loop. -/
def retry (answers : Nat → Nat) (line : Bytes) (s : Writing) : Except Fault Writing :=
  read line s.n (toSize s.remain) >>= fun data =>
    let wrote := s.file_.fwrite answers data
    let num := wrote.2
    if num = 0 then .ok { s with file_ := wrote.1, broken := true }
    else .ok
      { n := sizeAdd s.n num, remain := toInt (sizeSub (toSize s.remain) num), file_ := wrote.1
        broken := false }

/-- The call in front of the loop. -/
def firstTry (answers : Nat → Nat) (f : FILE) (data : Bytes) (len : Nat) : Writing :=
  let wrote := f.fwrite answers data
  let n := wrote.2
  { n := n, remain := toInt (sizeSub len n), file_ := wrote.1, broken := false }

def append (answers : Nat → Nat) (w : FileWritter) (line : Bytes) (len : Nat) :
    Except Fault FileWritter :=
  read line 0 len >>= fun data =>
  loop goesOn (retry answers line) .spin (len + 2) (firstTry answers w.file_ data len) >>= fun s =>
  .ok { file_ := s.file_, writtenbytes_ := w.writtenbytes_ + Int64.ofNat len }

/-- What `m` calls accept together, the block permitting. -/
def offered (answers : Nat → Nat) (c : Nat) : Nat → Nat
  | 0 => 0
  | m + 1 => offered answers c m + answers (c + m)

/-! ## The loop -/

section Loop

variable {answers : Nat → Nat} {line : Bytes} {f : FILE} {total m : Nat} {s : Writing}

/-- After `m` calls, `total` being what the loop sets out to write. -/
structure Wrote (answers : Nat → Nat) (line : Bytes) (f : FILE) (total m : Nat) (s : Writing) :
    Prop where
  first : 1 ≤ m
  calls : s.file_.calls = f.calls + m
  count : s.n = min (offered answers f.calls m) total
  rest : s.remain = total - s.n
  int : s.remain < 2 ^ 31
  bytes : s.file_.bytes = f.bytes ++ line.take s.n
  answered : s.broken = false → ∀ j, 1 ≤ j → j < m → answers (f.calls + j) ≠ 0
  refused : s.broken = true →
    ∃ j, 1 ≤ j ∧ m = j + 1 ∧ answers (f.calls + j) = 0 ∧ offered answers f.calls j < total

theorem Wrote.le (h : Wrote answers line f total m s) : s.n ≤ total := by
  rw [h.count]
  exact Nat.min_le_right _ _

theorem slice_append_take (line : Bytes) (n k : Nat) :
    line.take n ++ slice line n k = line.take (n + k) := List.take_add.symm

theorem goesOn_iff : goesOn s = true ↔ s.broken = false ∧ 0 < s.remain := by
  rw [goesOn, Bool.and_eq_true, Bool.not_eq_true', decide_eq_true_iff]

/-- A call that accepts nothing of the `r` bytes that remain. -/
theorem retry_refused {r : Nat} (hrest : s.remain = r) (hfront : s.n + r ≤ line.length)
    (hsmall : r < 2 ^ 63) (hnone : min (answers s.file_.calls) r = 0) :
    retry answers line s = .ok
      { s with file_ := { s.file_ with calls := s.file_.calls + 1 }, broken := true } := by
  have hlen : (slice line s.n r).length = r := slice_length hfront
  rw [retry, hrest, toSize_ofNat (by omega), read, if_pos hfront, ok_then]
  simp only [FILE.fwrite, hlen]
  rw [if_pos hnone, hnone, List.take_zero, List.append_nil]

/-- A call that accepts `k` of them. -/
theorem retry_accepted {r k : Nat} (hrest : s.remain = r) (hfront : s.n + r ≤ line.length)
    (hsmall : s.n + r < 2 ^ 63) (hint : r < 2 ^ 31) (hk : min (answers s.file_.calls) r = k)
    (hsome : k ≠ 0) :
    retry answers line s = .ok
      { n := s.n + k, remain := (r - k : Nat)
        file_ := { bytes := s.file_.bytes ++ slice line s.n k, calls := s.file_.calls + 1 }
        broken := false } := by
  have hlen : (slice line s.n r).length = r := slice_length hfront
  have hle : k ≤ r := by omega
  rw [retry, hrest, toSize_ofNat (by omega), read, if_pos hfront, ok_then]
  simp only [FILE.fwrite, hlen, hk]
  rw [if_neg hsome, sizeAdd_of_lt (by omega), sizeSub_of_le hle (by omega),
    toInt_of_lt (by omega), slice_take _ _ hle]

theorem Wrote.refuse (h : Wrote answers line f total m s) (hpos : 0 < s.remain)
    (hzero : answers (f.calls + m) = 0) :
    Wrote answers line f total (m + 1)
      { s with file_ := { s.file_ with calls := s.file_.calls + 1 }, broken := true } := by
  have hrest := h.rest
  have hcount := h.count
  have hoffered : offered answers f.calls (m + 1) =
      offered answers f.calls m + answers (f.calls + m) := rfl
  exact
    { first := Nat.le_succ_of_le h.first
      calls := congrArg (· + 1) h.calls
      count := by rw [hoffered, hzero]; exact hcount
      rest := hrest
      int := h.int
      bytes := h.bytes
      answered := nofun
      refused := fun _ => ⟨m, h.first, rfl, hzero, by omega⟩ }

theorem Wrote.accept (h : Wrote answers line f total m s) (hopen : s.broken = false) {r k : Nat}
    (hr : s.remain = r) (hk : min (answers (f.calls + m)) r = k) (hsome : k ≠ 0) :
    Wrote answers line f total (m + 1)
      { n := s.n + k, remain := (r - k : Nat)
        file_ := { bytes := s.file_.bytes ++ slice line s.n k, calls := s.file_.calls + 1 }
        broken := false } := by
  have hrest := h.rest
  have hint := h.int
  have hcount := h.count
  have hoffered : offered answers f.calls (m + 1) =
      offered answers f.calls m + answers (f.calls + m) := rfl
  exact
    { first := Nat.le_succ_of_le h.first
      calls := congrArg (· + 1) h.calls
      count := by
        rw [hoffered]
        show s.n + k = _
        omega
      rest := by
        show ((r - k : Nat) : Int) = total - (s.n + k : Nat)
        omega
      int := by
        show ((r - k : Nat) : Int) < 2 ^ 31
        omega
      bytes := by
        show s.file_.bytes ++ slice line s.n k = _
        rw [h.bytes, List.append_assoc, slice_append_take]
      answered := by
        intro _ j hj hlast
        rcases Nat.lt_succ_iff_lt_or_eq.mp hlast with hearlier | rfl
        · exact h.answered hopen j hj hearlier
        · omega
      refused := nofun }

/-- One more call. -/
theorem retry_wrote (h : Wrote answers line f total m s) (hgoes : goesOn s = true)
    (htotal : total ≤ line.length) (hsmall : total < 2 ^ 63) :
    ∃ s', retry answers line s = .ok s' ∧ Wrote answers line f total (m + 1) s' ∧
      (goesOn s' = true → s'.remain.toNat < s.remain.toNat) := by
  obtain ⟨hopen, hpos⟩ := goesOn_iff.mp hgoes
  have hrest := h.rest
  have hint := h.int
  obtain ⟨r, hr⟩ := Int.eq_ofNat_of_zero_le (Int.le_of_lt hpos)
  by_cases hnone : min (answers (f.calls + m)) r = 0
  · -- nothing is accepted, and the loop is left
    have hretry := @retry_refused answers line s r hr (by omega) (by omega) (h.calls ▸ hnone)
    exact ⟨_, hretry, h.refuse hpos (by omega), fun hmore => by cases (goesOn_iff.mp hmore).1⟩
  · have hretry := @retry_accepted answers line s r _ hr (by omega) (by omega) (by omega)
      (h.calls ▸ rfl) hnone
    refine ⟨_, hretry, h.accept hopen hr rfl hnone, fun _ => ?_⟩
    show ((r - min (answers (f.calls + m)) r : Nat) : Int).toNat < s.remain.toNat
    omega

end Loop

/-! ## A block -/

section Block

variable {answers : Nat → Nat} {c len : Nat}

/-- What is left behind the first call is an `int`, and no later call accepts nothing while
    there are bytes left. -/
structure Accepted (answers : Nat → Nat) (c len : Nat) : Prop where
  int : len < answers c + 2 ^ 31
  again : ∀ j, 1 ≤ j → offered answers c j < len → answers (c + j) ≠ 0

theorem offered_one : offered answers c 1 = answers c := Nat.zero_add _

theorem offered_mono {i j : Nat} (h : i ≤ j) : offered answers c i ≤ offered answers c j := by
  induction h with
  | refl => exact Nat.le_refl _
  | step _ ih => exact Nat.le_trans ih (Nat.le_add_right _ _)

/-- The loop wrote the whole block exactly if all of it was accepted. -/
theorem Wrote.whole_iff {line : Bytes} {f : FILE} {total m : Nat} {s : Writing}
    (h : Wrote answers line f total m s) (hend : goesOn s = false) (hle : total ≤ len)
    (htotal : total = len ↔ len < answers f.calls + 2 ^ 31) :
    s.n = len ↔ Accepted answers f.calls len := by
  have hn := h.le
  have hcount := h.count
  have hrest := h.rest
  constructor
  · intro hwhole
    have hall : total = len := by omega
    have hopen : s.broken = false := by
      cases hbroken : s.broken with
      | false => rfl
      | true =>
        -- then the last call added nothing to what was too little
        obtain ⟨j, -, rfl, hzero, hless⟩ := h.refused hbroken
        have hsame : offered answers f.calls (j + 1) = offered answers f.calls j := by
          rw [offered, hzero, Nat.add_zero]
        omega
    refine ⟨htotal.mp hall, fun j hj hless => h.answered hopen j hj ?_⟩
    by_contra hlast
    have hmono := @offered_mono answers f.calls _ _ (Nat.le_of_not_lt hlast)
    omega
  · intro haccepted
    have hall := htotal.mpr haccepted.int
    cases hbroken : s.broken with
    | true =>
      obtain ⟨j, hj, -, hzero, hless⟩ := h.refused hbroken
      exact absurd hzero (haccepted.again j hj (hall ▸ hless))
    | false =>
      have hdone : ¬0 < s.remain := fun hpos => by
        rw [goesOn_iff.mpr ⟨hbroken, hpos⟩] at hend
        cases hend
      omega

section First

variable {line : Bytes} {f : FILE}

theorem firstTry_n (hlen : len ≤ line.length) :
    (firstTry answers f (line.take len) len).n = min (answers f.calls) len := by
  show min (answers f.calls) (line.take len).length = _
  rw [List.length_take_of_le hlen]

theorem firstTry_bytes (hlen : len ≤ line.length) :
    (firstTry answers f (line.take len) len).file_.bytes =
      f.bytes ++ line.take (firstTry answers f (line.take len) len).n := by
  have hn := @firstTry_n answers len line f hlen
  show f.bytes ++ (line.take len).take (firstTry answers f (line.take len) len).n = _
  rw [List.take_take, hn, Nat.min_eq_left (Nat.min_le_right _ _)]

theorem firstTry_remain (hlen : len ≤ line.length) (hmax : len ≤ kMaxSize) :
    (firstTry answers f (line.take len) len).remain =
      toInt (len - min (answers f.calls) len : Nat) := by
  have hmaxSize : kMaxSize = 2 ^ 63 - 1 := rfl
  show toInt (sizeSub len (firstTry answers f (line.take len) len).n) = _
  rw [firstTry_n hlen, sizeSub_of_le (Nat.min_le_right _ _) (by omega)]

theorem firstTry_negative (hlen : len ≤ line.length) (hmax : len ≤ kMaxSize)
    (hneg : (firstTry answers f (line.take len) len).remain < 0) :
    goesOn (firstTry answers f (line.take len) len) = false ∧
      (firstTry answers f (line.take len) len).file_.bytes =
        f.bytes ++ line.take (firstTry answers f (line.take len) len).n ∧
      (firstTry answers f (line.take len) len).n < len ∧ ¬len < answers f.calls + 2 ^ 31 := by
  have hstop : goesOn (firstTry answers f (line.take len) len) = false := by
    rw [goesOn, decide_eq_false (by omega), Bool.and_false]
  rw [firstTry_remain hlen hmax] at hneg
  have hlong : 2 ^ 31 ≤ len - min (answers f.calls) len := by
    by_contra hsmall
    rw [toInt_of_lt (by omega)] at hneg
    omega
  refine ⟨hstop, firstTry_bytes hlen, ?_, ?_⟩
  · rw [firstTry_n hlen]
    omega
  · omega

theorem firstTry_wrote (hlen : len ≤ line.length) (hmax : len ≤ kMaxSize)
    (hneg : ¬(firstTry answers f (line.take len) len).remain < 0) :
    ∃ total, Wrote answers line f total 1 (firstTry answers f (line.take len) len) ∧
      total ≤ len ∧ (total = len ↔ len < answers f.calls + 2 ^ 31) := by
  have hn := @firstTry_n answers len line f hlen
  have hremain := @firstTry_remain answers len line f hlen hmax
  have hrange := toInt_range (len - min (answers f.calls) len : Nat)
  have hle := toInt_le_length (len - min (answers f.calls) len) (by omega)
  obtain ⟨r, hr⟩ := Int.eq_ofNat_of_zero_le (Int.not_lt.mp hneg)
  refine ⟨min (answers f.calls) len + r, ?_, by omega, ?_⟩
  · exact
      { first := Nat.le_refl 1
        calls := rfl
        count := by rw [hn, offered_one]; omega
        rest := by omega
        int := by omega
        bytes := firstTry_bytes hlen
        answered := fun _ j hj hlast => absurd hlast (Nat.not_lt.mpr hj)
        refused := nofun }
  · constructor
    · omega
    · intro hint
      have hall := toInt_of_lt (n := len - min (answers f.calls) len) (by omega)
      omega

end First

/-- A call of `append` returns.  It hands the file a front of the block, and the count
    grows by the length of the block whether that is all of it or not. -/
theorem append_returns (answers : Nat → Nat) (w : FileWritter) {line : Bytes}
    (hlen : len ≤ line.length) (hmax : len ≤ kMaxSize) :
    ∃ w' n, w.append answers line len = .ok w' ∧ n ≤ len ∧
      w'.file_.bytes = w.file_.bytes ++ line.take n ∧
      w'.writtenbytes_ = w.writtenbytes_ + Int64.ofNat len ∧
      (n = len ↔ Accepted answers w.file_.calls len) := by
  have hmaxSize : kMaxSize = 2 ^ 63 - 1 := rfl
  have hfirst : read line 0 len = .ok (line.take len) := if_pos (by omega)
  rw [append, hfirst, ok_then]
  by_cases hneg : (firstTry answers w.file_ (line.take len) len).remain < 0
  · -- the length left is negative as an `int`, and there is no second call
    obtain ⟨hstop, hbytes, hshort, hlong⟩ := firstTry_negative hlen hmax hneg
    rw [loop, hstop, if_neg Bool.false_ne_true, ok_then]
    refine ⟨_, _, rfl, Nat.le_of_lt hshort, hbytes, rfl, ?_⟩
    exact iff_of_false (Nat.ne_of_lt hshort) fun haccepted => absurd haccepted.int hlong
  · obtain ⟨total, hstart, hle, htotal⟩ := firstTry_wrote hlen hmax hneg
    have hbody : ∀ k x, ((∃ m, Wrote answers line w.file_ total m x) ∧ x.remain.toNat = k) →
        goesOn x = true → ∃ y k', retry answers line x = .ok y ∧
          ((∃ m, Wrote answers line w.file_ total m y) ∧ y.remain.toNat = k') ∧
          (goesOn y = true → k' < k) := by
      rintro k x ⟨⟨m, hx⟩, rfl⟩ hgoes
      obtain ⟨y, hy, hwrote, hless⟩ := retry_wrote hx hgoes (by omega) (by omega)
      exact ⟨y, _, hy, ⟨⟨m + 1, hwrote⟩, rfl⟩, hless⟩
    have hrest := hstart.rest
    obtain ⟨t, -, hloop, ⟨⟨m, ht⟩, -⟩, hend⟩ :=
      @loop_total _ _ _ _ _ _ Fault.spin _ (len + 2) ⟨⟨1, hstart⟩, rfl⟩ hbody (by omega)
    have htle := ht.le
    rw [hloop, ok_then]
    exact ⟨_, t.n, rfl, by omega, ht.bytes, rfl, ht.whole_iff hend hle htotal⟩

/-- The file has got a front of the block, all of it unless the last call accepted nothing,
    and the count has grown by the bytes accepted. -/
def Counts (answers : Nat → Nat) (w : FileWritter) (line : Bytes) (len : Nat) : Prop :=
  ∃ w' k, w.append answers line len = .ok w' ∧ k ≤ len ∧
    w'.file_.bytes = w.file_.bytes ++ line.take k ∧
    (k = len ∨ ∃ c, w'.file_.calls = c + 1 ∧ answers c = 0) ∧
    w'.writtenbytes_ = w.writtenbytes_ + Int64.ofNat k

theorem ofNat_inj {n k : Nat} (hn : n < 2 ^ 64) (hk : k < 2 ^ 64)
    (h : Int64.ofNat n = Int64.ofNat k) : n = k := by
  have hbits : n % 2 ^ 64 = k % 2 ^ 64 := by
    simpa using congrArg (fun i : Int64 => i.toBitVec.toNat) h
  omega

/-- A call does all that exactly if the block is accepted. -/
theorem counts_iff_accepted (answers : Nat → Nat) (w : FileWritter) {line : Bytes} {len : Nat}
    (hlen : len ≤ line.length) (hmax : len ≤ kMaxSize) :
    Counts answers w line len ↔ Accepted answers w.file_.calls len := by
  have hmaxSize : kMaxSize = 2 ^ 63 - 1 := rfl
  obtain ⟨w', n, happend, hn, hbytes, hcount, hiff⟩ := append_returns answers w hlen hmax
  rw [← hiff]
  constructor
  · rintro ⟨_, k, happend', hk, hbytes', -, hcount'⟩
    obtain rfl := Except.ok.inj (happend.symm.trans happend')
    -- the bytes tell how many were accepted, and the count that it was the block
    have hfront := congrArg List.length (List.append_cancel_left (hbytes.symm.trans hbytes'))
    rw [List.length_take, List.length_take] at hfront
    have hsame : Int64.ofNat len = Int64.ofNat k := by
      rw [hcount] at hcount'
      simpa using hcount'
    have hall := ofNat_inj (by omega) (by omega) hsame
    omega
  · intro hall
    rw [hall] at hbytes
    exact ⟨w', len, happend, Nat.le_refl _, hbytes, Or.inl rfl, hcount⟩

/-- Two bytes in two calls, a zero in the answers after the block. -/
theorem counts_iff_accepted_example :
    Counts (fun k => if k < 2 then 1 else 0) ⟨⟨[], 0⟩, 0⟩ [97, 98] 2 := by
  refine (counts_iff_accepted _ _ (by decide) (by decide)).mpr ⟨by decide, fun j hj hless => ?_⟩
  have htwo : j < 2 := by
    by_contra hlate
    exact absurd (Nat.lt_of_le_of_lt (offered_mono (Nat.le_of_not_lt hlate)) hless) (by decide)
  obtain rfl : j = 1 := by omega
  decide

/-- A disk that is full behind one byte of two: the count has both. -/
theorem failed_write_counted :
    append (fun k => if k = 0 then 1 else 0) { file_ := ⟨[], 0⟩, writtenbytes_ := 0 } [97, 98] 2 =
      .ok { file_ := { bytes := [97], calls := 2 }, writtenbytes_ := 2 } ∧
    ¬ ∀ (answers : Nat → Nat) (w : FileWritter) (line : Bytes), line.length ≤ kMaxSize →
      Counts answers w line line.length := by
  have happend : append (fun k => if k = 0 then 1 else 0) { file_ := ⟨[], 0⟩, writtenbytes_ := 0 }
      [97, 98] 2 = .ok { file_ := { bytes := [97], calls := 2 }, writtenbytes_ := 2 } := by
    decide +kernel
  refine ⟨happend, fun h => ?_⟩
  obtain ⟨w', k, hok, hk, hbytes, -, hcount⟩ := h _ _ [97, 98] (by decide)
  obtain rfl := Except.ok.inj (happend.symm.trans hok)
  have hle : k ≤ 2 := hk
  have hsame : Int64.ofNat 2 = Int64.ofNat k := by simpa using hcount
  have htwo : k = 2 := (ofNat_inj (by decide) (by omega) hsame).symm
  subst htwo
  cases hbytes

end Block

end FileWritter

end LearnMuduo
