/-
  LearnMuduo.Http.Framing

  Responses on a connection that stays open.

  `AppendToBuffer` frames a response that does not close by a field `Content_Length`,
  where the comment above it says `Content-Length`.  The bytes of a sequence of responses
  are those of their messages (`run_AppendToBuffer`).  A reader that looked for the name
  written would split any sequence of responses (`readAll_written`); one that looks for
  the name of HTTP finds no length at all (`responses_split_iff`).
-/
import LearnMuduo.Http.HttpResponse
import LearnMuduo.Lib.HttpReader
import LearnMuduo.Net.BufferSpec

namespace LearnMuduo

open Lib HttpReader

namespace HttpResponse

/-- A response that does not close, with nothing in it that ends a line. -/
structure Sendable (r : HttpResponse) : Prop where
  open_ : r.close_connection_ = false
  message_cr : CR ∉ r.status_message_
  message_lf : LF ∉ r.status_message_
  type_cr : CR ∉ r.type_
  type_lf : LF ∉ r.type_

/-- What a reader should find in it. -/
def content (r : HttpResponse) : Message :=
  { code := r.status_code_, reason := r.status_message_, body := r.body_ }

def statusLine (r : HttpResponse) : Bytes :=
  server_http_version_ ++ ascii " " ++ decimalInt r.status_code_ ++ ascii " " ++ r.status_message_

def fieldLines (r : HttpResponse) : List Bytes :=
  [ascii "Content_Length: " ++ decimal r.body_.length, ascii "Connection: Keep-Alive",
    ascii "Content_Type: " ++ r.type_, ascii "Server: " ++ server_name_]

variable {r : HttpResponse}

theorem message_block (h : r.Sendable) :
    r.message = unlines (r.statusLine :: r.fieldLines) ++ crlf ++ r.body_ := by
  have hcrlf : CRLF = crlf := by decide
  simp [message, h.open_, statusLine, fieldLines, unlines, hcrlf]

/-- The bytes that `AppendToBuffer` writes. -/
theorem AppendToBuffer_readable {b b' : Buffer} (hb : b.WF) (hlen : r.message.length ≤ kMaxSize)
    (h : r.AppendToBuffer b = .ok b') : b'.WF ∧ b'.readable = b.readable ++ r.message :=
  Buffer.appendString_spec hb hlen h

/-- The bytes of responses that are written one behind the other. -/
theorem run_AppendToBuffer {b b' : Buffer} {rs : List HttpResponse} (hb : b.WF)
    (hlen : ∀ r ∈ rs, r.message.length ≤ kMaxSize)
    (h : run (fun b r => r.AppendToBuffer b) b rs = .ok b') :
    b'.WF ∧ b'.readable = b.readable ++ rs.flatMap message := by
  induction rs generalizing b with
  | nil =>
    obtain rfl := Except.ok.inj h
    exact ⟨hb, by simp⟩
  | cons r rs ih =>
    obtain ⟨m, hm, hrest⟩ := then_ok_iff.mp h
    obtain ⟨hwf, hread⟩ := AppendToBuffer_readable hb (hlen r List.mem_cons_self) hm
    obtain ⟨hwf', hread'⟩ := ih hwf (fun r hr => hlen r (List.mem_cons_of_mem _ hr)) hrest
    exact ⟨hwf', by rw [hread', hread, List.append_assoc, List.flatMap_cons]⟩

/-! ## What is written -/

theorem decimal_free {n : Nat} {b : Byte} (hb : isDigit b = false) : b ∉ decimal n := by
  intro hmem
  have hdigit : isDigit b = true := digits_isDigit hmem
  rw [hb] at hdigit
  cases hdigit

/-- A number is written in digits, with a sign in front of a negative one. -/
theorem decimalInt_free {i : Int} {b : Byte} (hb : isDigit b = false) (hminus : b ≠ 45) :
    b ∉ decimalInt i := by
  have hsign : ascii "-" = [45] := by decide
  unfold decimalInt
  split
  · simp [hsign, hminus, decimal_free hb]
  · exact decimal_free hb

theorem areLines_block (h : r.Sendable) : AreLines (r.statusLine :: r.fieldLines) := by
  have hcode : cr ∉ decimalInt r.status_code_ := decimalInt_free (by decide) (by decide)
  have hlength : cr ∉ decimal r.body_.length := decimal_free (by decide)
  have hmessage : cr ∉ r.status_message_ := h.message_cr
  have htype : cr ∉ r.type_ := h.type_cr
  have hfixed : cr ∉ server_http_version_ ++ ascii " " ∧ cr ∉ ascii " " ∧
      cr ∉ ascii "Content_Length: " ∧ cr ∉ ascii "Connection: Keep-Alive" ∧
      cr ∉ ascii "Content_Type: " ∧ cr ∉ ascii "Server: " ++ server_name_ := by decide
  obtain ⟨hversion, hsp, hcl, hconn, hct, hserver⟩ := hfixed
  intro line hline
  simp only [fieldLines, List.mem_cons, List.not_mem_nil, or_false] at hline
  rcases hline with rfl | rfl | rfl | rfl | rfl
  · refine ⟨by simp [statusLine, server_http_version_, ascii], ?_⟩
    simp only [statusLine, List.mem_append, not_or] at hversion ⊢
    exact ⟨⟨⟨hversion, hcode⟩, hsp⟩, hmessage⟩
  · exact ⟨by simp [ascii], by simp [hcl, hlength]⟩
  · exact ⟨by decide, hconn⟩
  · exact ⟨by simp [ascii], by simp [hct, htype]⟩
  · exact ⟨by decide, hserver⟩

theorem statusLine_eq : r.statusLine
    = server_http_version_ ++ sp :: (decimalInt r.status_code_ ++ sp :: r.status_message_) := by
  have hblank : ascii " " = [sp] := by decide
  simp [statusLine, hblank]

theorem readNat_decimalInt {i : Int} (h : 0 ≤ i) : readNat (decimalInt i) = some i.natAbs := by
  rw [decimalInt, if_neg (by omega)]
  exact readNat_digits i.natAbs

theorem readNat_negative {i : Int} (h : i < 0) : readNat (decimalInt i) = none := by
  have hsign : ascii "-" = [45] := by decide
  have hminus : isDigit 45 = false := by decide
  rw [decimalInt, if_pos h, hsign, readNat, if_neg]
  simp [hminus]

theorem readStatusLine_statusLine :
    readStatusLine server_http_version_ r.statusLine
      = (readNat (decimalInt r.status_code_)).map fun n => ((n : Int), r.status_message_) := by
  rw [statusLine_eq]
  exact readStatusLine_parts (by decide) (decimalInt_free (by decide) (by decide))

/-- The fields as a reader sees them. -/
def fields (r : HttpResponse) : List Field :=
  [{ name := ascii "Content_Length", value := decimal r.body_.length },
    { name := ascii "Connection", value := trim (ascii " Keep-Alive") },
    { name := ascii "Content_Type", value := trim (sp :: r.type_) },
    { name := ascii "Server", value := trim (sp :: server_name_) }]

theorem readFields (r : HttpResponse) : r.fieldLines.mapM readField = some r.fields := by
  have hblank : ∀ b ∈ decimal r.body_.length, isBlank b = false := fun b hb =>
    isBlank_of_isDigit (digits_isDigit hb)
  have hlength : readField (ascii "Content_Length: " ++ decimal r.body_.length)
      = some { name := ascii "Content_Length", value := decimal r.body_.length } := by
    have hline : ascii "Content_Length: " ++ decimal r.body_.length
        = ascii "Content_Length" ++ colon :: sp :: decimal r.body_.length := by
      have hname : ascii "Content_Length: " = ascii "Content_Length" ++ [colon, sp] := by decide
      simp [hname]
    rw [hline, readField_append (by decide), trim_sp hblank]
  have htype : readField (ascii "Content_Type: " ++ r.type_)
      = some { name := ascii "Content_Type", value := trim (sp :: r.type_) } := by
    have hline : ascii "Content_Type: " ++ r.type_
        = ascii "Content_Type" ++ colon :: sp :: r.type_ := by
      have hname : ascii "Content_Type: " = ascii "Content_Type" ++ [colon, sp] := by decide
      simp [hname]
    rw [hline, readField_append (by decide)]
  have hconnection : readField (ascii "Connection: Keep-Alive")
      = some { name := ascii "Connection", value := trim (ascii " Keep-Alive") } := by decide
  have hserver : readField (ascii "Server: " ++ server_name_)
      = some { name := ascii "Server", value := trim (sp :: server_name_) } := by decide
  simp only [fieldLines, List.mapM_cons, List.mapM_nil, hlength, hconnection, htype, hserver]
  rfl

/-! ## What is read -/

section Read

variable {lengthName : Bytes} {policy : NoLength}

/-- A response in front of anything else. -/
theorem readMessage_message (h : r.Sendable) (rest : Bytes) :
    readMessage server_http_version_ lengthName policy (r.message ++ rest)
      = (readNat (decimalInt r.status_code_)).bind fun n =>
          (readBody lengthName policy r.fields (r.body_ ++ rest)).map fun body =>
            ({ code := n, reason := r.status_message_, body := body.1 }, body.2) := by
  have hblock : r.message ++ rest
      = unlines (r.statusLine :: r.fieldLines) ++ crlf ++ (r.body_ ++ rest) := by
    rw [message_block h, List.append_assoc]
  rw [hblock, readMessage_block (List.cons_ne_nil _ _) (areLines_block h), readLines,
    readStatusLine_statusLine, readFields]
  cases readNat (decimalInt r.status_code_) with
  | none => rfl
  | some n => rfl

theorem message_ne_nil (h : r.Sendable) : r.message ≠ [] := by
  rw [message_block h]
  simp [unlines, crlf]

/-- The number written is the length of the body, whatever the body is. -/
theorem readBody_underscore (r : HttpResponse) (rest : Bytes) :
    readBody (ascii "Content_Length") policy r.fields (r.body_ ++ rest) = some (r.body_, rest) := by
  have hvalue : fieldValue (ascii "Content_Length") r.fields = some (decimal r.body_.length) := by
    have hname : sameName (ascii "Content_Length") (ascii "Content_Length") = true := by decide
    simp [fieldValue, fields, hname]
  have hlength : readNat (decimal r.body_.length) = some r.body_.length := readNat_digits _
  simp [readBody, hvalue, hlength]

/-- A reader that takes the length from the field that is written splits any sequence. -/
theorem readAll_written {rs : List HttpResponse} (h : ∀ r ∈ rs, r.Sendable)
    (hcode : ∀ r ∈ rs, 0 ≤ r.status_code_) :
    readAll server_http_version_ (ascii "Content_Length") policy (rs.flatMap message)
      = some (rs.map content) := by
  induction rs with
  | nil => exact readAll_nil
  | cons r rs ih =>
    have hr : r.Sendable := h r List.mem_cons_self
    have hpos : 0 ≤ r.status_code_ := hcode r List.mem_cons_self
    have hne : r.message ++ rs.flatMap message ≠ [] := by simp [message_ne_nil hr]
    have hread : readMessage server_http_version_ (ascii "Content_Length") policy
        (r.message ++ rs.flatMap message) = some (r.content, rs.flatMap message) := by
      rw [readMessage_message hr, readBody_underscore, readNat_decimalInt hpos]
      simp [content, Int.natAbs_of_nonneg hpos]
    rw [List.flatMap_cons, readAll_cons hne hread,
      ih (fun r hr => h r (List.mem_cons_of_mem _ hr)) fun r hr =>
        hcode r (List.mem_cons_of_mem _ hr)]
    rfl

/-- No field has the name of HTTP. -/
theorem fieldValue_none (r : HttpResponse) :
    fieldValue (ascii "Content-Length") r.fields = none := by
  have hnames : sameName (ascii "Content-Length") (ascii "Content_Length") = false ∧
      sameName (ascii "Content-Length") (ascii "Connection") = false ∧
      sameName (ascii "Content-Length") (ascii "Content_Type") = false ∧
      sameName (ascii "Content-Length") (ascii "Server") = false := by decide
  simp [fieldValue, fields, hnames]

theorem readBody_reject (r : HttpResponse) (rest : Bytes) :
    readBody (ascii "Content-Length") .reject r.fields rest = none := by
  simp only [readBody, fieldValue_none]

theorem readBody_untilClose (r : HttpResponse) (rest : Bytes) :
    readBody (ascii "Content-Length") .untilClose r.fields rest = some (rest, []) := by
  simp only [readBody, fieldValue_none]

theorem readAll_reject (h : r.Sendable) (rest : Bytes) :
    readAll server_http_version_ (ascii "Content-Length") .reject (r.message ++ rest) = none := by
  refine readAll_none (by simp [message_ne_nil h]) ?_
  rw [readMessage_message h, readBody_reject]
  cases readNat (decimalInt r.status_code_) <;> rfl

theorem readAll_negative (h : r.Sendable) (hcode : r.status_code_ < 0) (rest : Bytes) :
    readAll server_http_version_ lengthName policy (r.message ++ rest) = none := by
  refine readAll_none (by simp [message_ne_nil h]) ?_
  rw [readMessage_message h, readNat_negative hcode]
  rfl

/-- The first response takes everything behind it for its body. -/
theorem readAll_untilClose (h : r.Sendable) (hcode : 0 ≤ r.status_code_) (rest : Bytes) :
    readAll server_http_version_ (ascii "Content-Length") .untilClose (r.message ++ rest)
      = some [{ r.content with body := r.body_ ++ rest }] := by
  have hread : readMessage server_http_version_ (ascii "Content-Length") .untilClose
      (r.message ++ rest) = some ({ r.content with body := r.body_ ++ rest }, []) := by
    rw [readMessage_message h, readBody_untilClose, readNat_decimalInt hcode]
    simp [content, Int.natAbs_of_nonneg hcode]
  rw [readAll_cons (by simp [message_ne_nil h]) hread, readAll_nil]
  rfl

end Read

/-- A reader of HTTP/1.1 splits the responses back into what was sent exactly when there
    is none, or one, with a status code, whose body it takes to end with the stream. -/
theorem responses_split_iff (policy : NoLength) {rs : List HttpResponse}
    (h : ∀ r ∈ rs, r.Sendable) :
    readAll server_http_version_ (ascii "Content-Length") policy (rs.flatMap message)
        = some (rs.map content) ↔
      rs = [] ∨ policy = .untilClose ∧ ∃ r, rs = [r] ∧ 0 ≤ r.status_code_ := by
  cases rs with
  | nil => exact iff_of_true readAll_nil (Or.inl rfl)
  | cons r rs =>
    have hr : r.Sendable := h r List.mem_cons_self
    rw [List.flatMap_cons]
    by_cases hcode : 0 ≤ r.status_code_
    · cases policy with
      | reject =>
        rw [readAll_reject hr]
        simp
      | untilClose =>
        rw [readAll_untilClose hr hcode]
        constructor
        · intro hall
          -- as many messages are read as were sent
          have hlen := congrArg List.length (Option.some.inj hall)
          have hrs : rs = [] := by simpa [eq_comm] using hlen
          exact Or.inr ⟨rfl, r, by rw [hrs], hcode⟩
        · rintro (hnil | ⟨-, r', hsingle, -⟩)
          · cases hnil
          · obtain ⟨-, rfl⟩ := List.cons.inj hsingle
            simp [content]
    · rw [readAll_negative hr (by omega)]
      refine iff_of_false (by simp) ?_
      rintro (hnil | ⟨-, r', hsingle, hcode'⟩)
      · cases hnil
      · obtain ⟨rfl, -⟩ := List.cons.inj hsingle
        exact hcode hcode'

/-- `200 OK` with a body. -/
def ok (body : Bytes) : HttpResponse :=
  { status_code_ := 200, status_message_ := ascii "OK", body_ := body, type_ := ascii "text/html"
    close_connection_ := false }

theorem ok_sendable (body : Bytes) : (ok body).Sendable := by
  have hmessage : CR ∉ ascii "OK" ∧ LF ∉ ascii "OK" := by decide
  have htype : CR ∉ ascii "text/html" ∧ LF ∉ ascii "text/html" := by decide
  exact ⟨rfl, hmessage.1, hmessage.2, htype.1, htype.2⟩

theorem responses_split_iff_example :
    readAll server_http_version_ (ascii "Content-Length") .untilClose
      ([ok (ascii "a")].flatMap message) = some ([ok (ascii "a")].map content) :=
  (responses_split_iff .untilClose (by simp [ok_sendable])).mpr
    (Or.inr ⟨rfl, ok (ascii "a"), rfl, by decide⟩)

/-- Of two responses no reader finds the second. -/
theorem two_responses_joined :
    readAll server_http_version_ (ascii "Content-Length") .reject
        ([ok (ascii "a"), ok (ascii "b")].flatMap message)
      ≠ some ([ok (ascii "a"), ok (ascii "b")].map content) ∧
    readAll server_http_version_ (ascii "Content-Length") .untilClose
        ([ok (ascii "a"), ok (ascii "b")].flatMap message)
      ≠ some ([ok (ascii "a"), ok (ascii "b")].map content) := by
  rw [List.flatMap_cons]
  constructor
  · rw [readAll_reject (ok_sendable _)]
    exact nofun
  · rw [readAll_untilClose (ok_sendable _) (by decide)]
    intro heq
    have hlen := congrArg List.length (Option.some.inj heq)
    cases hlen

end HttpResponse

end LearnMuduo
