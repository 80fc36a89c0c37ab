/-
  LearnMuduo.Lib.HttpReader

  A reader of HTTP/1.1 responses on a connection.

  A message is a header block, which ends at the first CRLF CRLF, and a body.  The block
  is a status line and field lines `name: value`; names are compared case-insensitively.
  The body's length is the value of a field, whose name is a parameter, as is what the
  reader does with a message that has no such field.

    * `readMessage_block` — a block of given lines is read as these lines;
    * `readAll_cons`      — the first message, and then the rest of the stream.
-/
import LearnMuduo.Lib.Search

namespace LearnMuduo.Lib.HttpReader

abbrev Octets := List UInt8

def cr : UInt8 := 13
def lf : UInt8 := 10
def sp : UInt8 := 32
def colon : UInt8 := 58

def crlf : Octets := [cr, lf]

/-- An ASCII letter in lower case. -/
def lower (b : UInt8) : UInt8 := if 65 ≤ b ∧ b ≤ 90 then b + 32 else b

/-- Equal up to the case of ASCII letters. -/
def sameName (a b : Octets) : Bool := a.map lower = b.map lower

def isBlank (b : UInt8) : Bool := b = sp ∨ b = 9

/-- Without the blanks at its two ends. -/
def trim (s : Octets) : Octets := ((s.dropWhile isBlank).reverse.dropWhile isBlank).reverse

def isDigit (b : UInt8) : Bool := 48 ≤ b ∧ b ≤ 57

/-- A number in decimal. -/
def readNat (s : Octets) : Option Nat :=
  if s ≠ [] ∧ s.all isDigit = true then
    some (Nat.ofDigitChars 10 (s.map fun b => Char.ofNat b.toNat) 0)
  else none

structure Field where
  name : Octets
  value : Octets
  deriving DecidableEq, Repr

def readField (line : Octets) : Option Field :=
  (cut [colon] line).map fun parts => { name := parts.1, value := trim parts.2 }

/-- The value of the first field of that name. -/
def fieldValue (name : Octets) (fields : List Field) : Option Octets :=
  (fields.find? fun f => sameName name f.name).map Field.value

/-- The status code and the reason phrase. -/
def readStatusLine (version line : Octets) : Option (Int × Octets) :=
  (cut [sp] line).bind fun parts =>
    if parts.1 = version then
      (cut [sp] parts.2).bind fun parts => (readNat parts.1).map fun code => (↑code, parts.2)
    else none

/-- The lines of a block, each with its CRLF. -/
def lines (s : Octets) : List Octets :=
  match _h : cut crlf s with
  | none => []
  | some (line, rest) => line :: lines rest
  termination_by s.length
  decreasing_by
    have hlen := cut_length _h
    simp only [crlf, List.length_cons] at hlen
    omega

theorem lines_none {s : Octets} (h : cut crlf s = none) : lines s = [] := by
  rw [lines]
  split
  · rfl
  · rename_i hsome
    cases h.symm.trans hsome

theorem lines_some {s line rest : Octets} (h : cut crlf s = some (line, rest)) :
    lines s = line :: lines rest := by
  rw [lines]
  split
  · rename_i hnone
    cases h.symm.trans hnone
  · rename_i hsome
    obtain ⟨rfl, rfl⟩ := Prod.mk.inj (Option.some.inj (h.symm.trans hsome))
    rfl

structure Message where
  code : Int
  reason : Octets
  body : Octets
  deriving DecidableEq, Repr

/-- What to do with a message whose length is not given. -/
inductive NoLength where
  | reject
  /-- The body ends where the stream ends. -/
  | untilClose
  deriving DecidableEq, Repr

variable (version lengthName : Octets) (policy : NoLength)

/-- The body, and what stands behind it. -/
def readBody (fields : List Field) (rest : Octets) : Option (Octets × Octets) :=
  match fieldValue lengthName fields with
  | some value =>
    (readNat value).bind fun n =>
      if n ≤ rest.length then some (rest.take n, rest.drop n) else none
  | none =>
    match policy with
    | .reject => none
    | .untilClose => some (rest, [])

/-- A message read from the lines of its block. -/
def readLines (block : List Octets) (rest : Octets) : Option (Message × Octets) :=
  match block with
  | [] => none
  | line :: fieldLines =>
    (readStatusLine version line).bind fun status =>
      (fieldLines.mapM readField).bind fun fields =>
        (readBody lengthName policy fields rest).map fun body =>
          ({ code := status.1, reason := status.2, body := body.1 }, body.2)

def readMessage (s : Octets) : Option (Message × Octets) :=
  (cut (crlf ++ crlf) s).bind fun parts =>
    readLines version lengthName policy (lines (parts.1 ++ crlf)) parts.2

variable {version lengthName policy}

theorem readBody_le {fields : List Field} {rest body more : Octets}
    (h : readBody lengthName policy fields rest = some (body, more)) :
    more.length ≤ rest.length := by
  unfold readBody at h
  split at h
  · obtain ⟨n, -, h⟩ := Option.bind_eq_some_iff.mp h
    obtain ⟨-, h⟩ := Option.ite_none_right_eq_some.mp h
    obtain ⟨-, rfl⟩ := Prod.mk.inj (Option.some.inj h)
    rw [List.length_drop]
    omega
  · split at h
    · cases h
    · obtain ⟨-, rfl⟩ := Prod.mk.inj (Option.some.inj h)
      exact Nat.zero_le _

theorem readLines_le {block : List Octets} {rest more : Octets} {m : Message}
    (h : readLines version lengthName policy block rest = some (m, more)) :
    more.length ≤ rest.length := by
  unfold readLines at h
  split at h
  · cases h
  · obtain ⟨status, -, h⟩ := Option.bind_eq_some_iff.mp h
    obtain ⟨fields, -, h⟩ := Option.bind_eq_some_iff.mp h
    obtain ⟨⟨body, more'⟩, hbody, h⟩ := Option.map_eq_some_iff.mp h
    obtain ⟨-, rfl⟩ := Prod.mk.inj h
    exact readBody_le hbody

/-- A message takes at least the CRLF CRLF of its block. -/
theorem readMessage_lt {s more : Octets} {m : Message}
    (h : readMessage version lengthName policy s = some (m, more)) : more.length < s.length := by
  obtain ⟨⟨block, rest⟩, hcut, h⟩ := Option.bind_eq_some_iff.mp h
  have hlen := cut_length hcut
  have hle : more.length ≤ rest.length := readLines_le h
  simp only [crlf, List.length_append, List.length_cons] at hlen
  omega

variable (version lengthName policy)

/-- The messages of a stream, which ends behind the last one. -/
def readAll (s : Octets) : Option (List Message) :=
  if s = [] then some []
  else
    match _h : readMessage version lengthName policy s with
    | none => none
    | some (m, rest) => (readAll rest).map (m :: ·)
  termination_by s.length
  decreasing_by exact readMessage_lt _h

variable {version lengthName policy}

theorem readAll_nil : readAll version lengthName policy [] = some [] := by
  rw [readAll, if_pos rfl]

theorem readAll_none {s : Octets} (hne : s ≠ [])
    (h : readMessage version lengthName policy s = none) :
    readAll version lengthName policy s = none := by
  rw [readAll, if_neg hne]
  split
  · rfl
  · rename_i m rest hsome
    rw [h] at hsome
    cases hsome

theorem readAll_cons {s rest : Octets} {m : Message} (hne : s ≠ [])
    (h : readMessage version lengthName policy s = some (m, rest)) :
    readAll version lengthName policy s
      = (readAll version lengthName policy rest).map (m :: ·) := by
  rw [readAll, if_neg hne]
  split
  · rename_i hnone
    rw [h] at hnone
    cases hnone
  · rename_i m' rest' hsome
    rw [h] at hsome
    obtain ⟨rfl, rfl⟩ := Prod.mk.inj (Option.some.inj hsome)
    rfl

/-! ## Blocks -/

/-- The lines, each with its CRLF. -/
def unlines (block : List Octets) : Octets := block.flatMap fun line => line ++ crlf

/-- Lines that can stand in a block. -/
def AreLines (block : List Octets) : Prop := ∀ line ∈ block, line ≠ [] ∧ cr ∉ line

section Blocks

variable {block : List Octets}

theorem lines_unlines (h : AreLines block) : lines (unlines block) = block := by
  induction block with
  | nil => exact lines_none rfl
  | cons line block ih =>
    obtain ⟨-, hcr⟩ := h line List.mem_cons_self
    have hcut : cut crlf (unlines (line :: block)) = some (line, unlines block) := by
      have hline : unlines (line :: block) = line ++ (crlf ++ unlines block) := by simp [unlines]
      rw [hline, crlf, cut_skip hcr, ← crlf, cut_self]
      simp
    rw [lines_some hcut, ih fun l hl => h l (List.mem_cons_of_mem _ hl)]

theorem unlines_cons (line : Octets) (block : List Octets) :
    unlines (line :: block) = line ++ crlf ++ unlines block := List.flatMap_cons

/-- In front of a line that is not empty the block goes on. -/
theorem cut_line {line next tail head rest : Octets} (hcr : cr ∉ line)
    (hnext : next ≠ [] ∧ cr ∉ next) (h : cut (crlf ++ crlf) (next ++ tail) = some (head, rest)) :
    cut (crlf ++ crlf) (line ++ crlf ++ (next ++ tail)) = some (line ++ crlf ++ head, rest) := by
  obtain ⟨hne, hfree⟩ := hnext
  obtain ⟨x, next, rfl⟩ := List.exists_cons_of_ne_nil hne
  have hx : cr ≠ x := fun heq => hfree (heq ▸ List.mem_cons_self)
  -- CR LF x is no beginning of the pattern, and LF x is none
  have hlf : ¬crlf ++ crlf <+: lf :: (x :: next ++ tail) := by
    rintro ⟨t, ht⟩
    exact absurd (List.cons.inj ht).1 (by decide)
  have hcrlf : ¬crlf ++ crlf <+: cr :: lf :: (x :: next ++ tail) := by
    rintro ⟨t, ht⟩
    exact hx (List.cons.inj (List.cons.inj (List.cons.inj ht).2).2).1
  have hskip := cut_skip (p := [lf, cr, lf]) hcr (cr :: lf :: (x :: next ++ tail))
  have hcut : cut (crlf ++ crlf) (cr :: lf :: (x :: next ++ tail))
      = some (cr :: lf :: head, rest) := by
    rw [cut_cons hcrlf, cut_cons hlf, h]
    rfl
  rw [List.append_assoc]
  refine hskip.trans ?_
  have hpat : cr :: [lf, cr, lf] = crlf ++ crlf := rfl
  rw [hpat, hcut, Option.map_some, List.append_assoc]
  rfl

/-- The block ends at the first empty line. -/
theorem cut_unlines (hne : block ≠ []) (h : AreLines block) (rest : Octets) :
    ∃ head, cut (crlf ++ crlf) (unlines block ++ crlf ++ rest) = some (head, rest) ∧
      head ++ crlf = unlines block := by
  induction block with
  | nil => exact absurd rfl hne
  | cons line block ih =>
    obtain ⟨-, hcr⟩ := h line List.mem_cons_self
    have htail : AreLines block := fun l hl => h l (List.mem_cons_of_mem line hl)
    cases block with
    | nil =>
      refine ⟨line, ?_, by simp [unlines]⟩
      have hline : unlines [line] ++ crlf ++ rest = line ++ ((crlf ++ crlf) ++ rest) := by
        simp [unlines]
      have hskip := cut_skip (p := [lf, cr, lf]) hcr ((crlf ++ crlf) ++ rest)
      have hpat : cr :: [lf, cr, lf] = crlf ++ crlf := rfl
      rw [hpat, cut_self] at hskip
      rw [hline, hskip]
      simp
    | cons next block =>
      obtain ⟨head, hcut, hhead⟩ := ih (List.cons_ne_nil next block) htail
      refine ⟨line ++ crlf ++ head, ?_, ?_⟩
      · have hline : ∀ tail, unlines (line :: next :: block) ++ tail
            = line ++ crlf ++ (next ++ (crlf ++ unlines block ++ tail)) := by
          simp [unlines]
        have hnext : unlines (next :: block) ++ crlf ++ rest
            = next ++ (crlf ++ unlines block ++ (crlf ++ rest)) := by simp [unlines]
        rw [hnext] at hcut
        rw [List.append_assoc, hline]
        exact cut_line hcr (htail next List.mem_cons_self) hcut
      · rw [unlines_cons, ← hhead, List.append_assoc]

/-- A block of lines is read as these lines. -/
theorem readMessage_block (hne : block ≠ []) (h : AreLines block) (rest : Octets) :
    readMessage version lengthName policy (unlines block ++ crlf ++ rest)
      = readLines version lengthName policy block rest := by
  obtain ⟨head, hcut, hhead⟩ := cut_unlines hne h rest
  rw [readMessage, hcut, Option.bind_some, hhead, lines_unlines h]

end Blocks

/-! ## Fields and numbers -/

section Fields

theorem readField_append {name value : Octets} (h : colon ∉ name) :
    readField (name ++ colon :: value) = some { name := name, value := trim value } := by
  rw [readField, cut_delimiter h]
  rfl

/-- The first colon of a line ends the name. -/
theorem exists_readField {line : Octets} (h : colon ∈ line) :
    ∃ name value, line = name ++ colon :: value ∧ colon ∉ name ∧
      readField line = some { name := name, value := trim value } := by
  obtain ⟨name, value, rfl, hname⟩ := List.eq_append_cons_of_mem h
  exact ⟨name, value, rfl, hname, readField_append hname⟩

theorem dropWhile_of_free {s : Octets} (h : ∀ b ∈ s, isBlank b = false) :
    s.dropWhile isBlank = s := by
  cases s with
  | nil => rfl
  | cons b s => simp [h b List.mem_cons_self]

theorem trim_of_free {s : Octets} (h : ∀ b ∈ s, isBlank b = false) : trim s = s := by
  have hrev : ∀ b ∈ s.reverse, isBlank b = false := fun b hb => h b (List.mem_reverse.mp hb)
  rw [trim, dropWhile_of_free h, dropWhile_of_free hrev, List.reverse_reverse]

/-- Blanks in front do not count. -/
theorem trim_cons {b : UInt8} (h : isBlank b = true) (s : Octets) : trim (b :: s) = trim s := by
  rw [trim, trim, List.dropWhile_cons_of_pos h]

theorem trim_dropWhile (s : Octets) : trim (s.dropWhile (· = sp)) = trim s := by
  have hsp : isBlank sp = true := by decide
  induction s with
  | nil => rfl
  | cons b s ih =>
    by_cases hb : b = sp
    · subst hb
      rw [List.dropWhile_cons_of_pos (by simp), ih, trim_cons hsp]
    · rw [List.dropWhile_cons_of_neg (by simpa using hb)]

/-- A value without blanks behind a blank. -/
theorem trim_sp {s : Octets} (h : ∀ b ∈ s, isBlank b = false) : trim (sp :: s) = s := by
  have hsp : isBlank sp = true := by decide
  rw [trim_cons hsp, trim_of_free h]

/-- The octets of a number written in decimal. -/
def digits (n : Nat) : Octets := (Nat.toDigits 10 n).map fun c => UInt8.ofNat c.toNat

theorem readStatusLine_parts {version code reason : Octets} (hversion : sp ∉ version)
    (hcode : sp ∉ code) :
    readStatusLine version (version ++ sp :: (code ++ sp :: reason))
      = (readNat code).map fun n => ((n : Int), reason) := by
  rw [readStatusLine, cut_delimiter hversion, Option.bind_some, if_pos rfl, cut_delimiter hcode,
    Option.bind_some]

theorem digit_octet {c : Char} (h : c.isDigit = true) :
    isDigit (UInt8.ofNat c.toNat) = true ∧ Char.ofNat (UInt8.ofNat c.toNat).toNat = c := by
  have hrange : 48 ≤ c.toNat ∧ c.toNat ≤ 57 := Char.isDigit_iff_toNat.mp h
  have hnat : (UInt8.ofNat c.toNat).toNat = c.toNat := 
    UInt8.toNat_ofNat_of_lt (by unfold UInt8.size; omega)
  refine ⟨?_, by rw [hnat, Char.ofNat_toNat]⟩
  simp only [isDigit, UInt8.le_iff_toNat_le, hnat, decide_eq_true_eq]
  exact hrange

theorem digits_isDigit {n : Nat} {b : UInt8} (h : b ∈ digits n) : isDigit b = true := by
  obtain ⟨c, hc, rfl⟩ := List.mem_map.mp h
  exact (digit_octet (Nat.isDigit_of_mem_toDigits (by decide) (by decide) hc)).1

theorem isBlank_of_isDigit {b : UInt8} (h : isDigit b = true) : isBlank b = false := by
  have hrange : 48 ≤ b ∧ b ≤ 57 := of_decide_eq_true h
  refine decide_eq_false fun hor => ?_
  rcases hor with rfl | rfl
  · exact absurd hrange (by decide)
  · exact absurd hrange (by decide)

theorem readNat_digits (n : Nat) : readNat (digits n) = some n := by
  have hne : digits n ≠ [] := by simp [digits, Nat.toDigits_ne_nil]
  have hall : (digits n).all isDigit = true := List.all_eq_true.mpr fun b hb => digits_isDigit hb
  have hback : (digits n).map (fun b => Char.ofNat b.toNat) = Nat.toDigits 10 n := by
    rw [digits, List.map_map]
    conv_rhs => rw [← List.map_id (Nat.toDigits 10 n)]
    refine List.map_congr_left fun c hc => ?_
    exact (digit_octet (Nat.isDigit_of_mem_toDigits (by decide) (by decide) hc)).2
  rw [readNat, if_pos ⟨hne, hall⟩, hback, Nat.ofDigitChars_ten_toDigits]

end Fields

end LearnMuduo.Lib.HttpReader
