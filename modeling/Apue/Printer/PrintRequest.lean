import Mathlib.Data.List.Infix
import Apue.Printer.Parsing
import Apue.Printer.Receive

/-! # The request that is sent to the printer

`printer_thread` encodes the attributes of a job with `add_option`, announces in the HTTP header how
many bytes follow it, and then sends both, a backspace for a plain text, and the data file.  The
file is the one that `fstat` has measured; how much a `read` or a `write` does is up to the system,
and a failure defers the job.  The buffers are as large as they need to be, and `long` holds the
length.
-/

namespace Apue.Printer

open Apue.Base Transfer

/-! ## The code -/

def htons (n : Nat) : Bytes := [n / 2 ^ 8, n].map Nat.toUInt8

def opPrintJob : Nat := 0x02

def tagOperationAttr : UInt8 := 0x01

def tagEndOfAttr : UInt8 := 0x03

def tagNamewolang : UInt8 := 0x42

def tagUri : UInt8 := 0x45

def tagCharset : UInt8 := 0x47

def tagNatulang : UInt8 := 0x48

def tagMimetype : UInt8 := 0x49

def ippPort : Nat := 631

/-- `cp` is what has been written so far. -/
def addOption (cp : Bytes) (tag : UInt8) (optname optval : Bytes) : Bytes :=
  let cp := cp ++ [tag]
  let n := strlen optname
  let cp := cp ++ htons n ++ cstr optname
  let n := strlen optval
  cp ++ htons n ++ cstr optval

/-- The value of `document-format`, and the number of bytes in front of the file. -/
def documentFormat (req : PrintReq) : Bytes × Nat :=
  if req.flags &&& prText ≠ 0 then (ascii "text/plain", 1) else (ascii "application/postscript", 0)

/-- `ibuf`.  A user name without a NUL runs on into the name of the job. -/
def ippHeader (jp : Job) (printerName : Bytes) : Bytes :=
  let icp := [1, 1] ++ htons opPrintJob ++ htonl (jp.jobid % 2 ^ 32).toNat
  let icp := icp ++ [tagOperationAttr]
  let icp := addOption icp tagCharset (ascii "attributes-charset") (ascii "utf-8")
  let icp := addOption icp tagNatulang (ascii "attributes-natural-language") (ascii "en-us")
  let str := ascii "http://" ++ cstr printerName ++ ascii "/ipp"
  let icp := addOption icp tagUri (ascii "printer-uri") str
  let icp := addOption icp tagNamewolang (ascii "requesting-user-name") (jp.req.usernm ++ jp.req.jobnm)
  let icp := addOption icp tagNamewolang (ascii "job-name") jp.req.jobnm
  let icp := addOption icp tagMimetype (ascii "document-format") (documentFormat jp.req).1
  icp ++ [tagEndOfAttr]

/-- `hbuf`. -/
def httpHeader (printerName : Bytes) (length : Nat) : Bytes :=
  let hcp := ascii "POST /ipp HTTP/1.1\r\n"
  let hcp := hcp ++ (ascii "Content-Length: " ++ decimal length ++ ascii "\r\n")
  let hcp := hcp ++ ascii "Content-Type: application/ipp\r\n"
  let hcp := hcp ++ (ascii "Host: " ++ cstr printerName ++ ascii ":" ++ decimal ippPort ++ ascii "\r\n")
  hcp ++ [13, 10]

/-- What has been sent to the printer, and how many bytes each of the coming writes takes. -/
structure Wire where
  sent : Bytes
  results : List (Except Errno Nat)

/-- `write`, and `writev` of buffers that stand here one behind the other; when no more results come
every write fails. -/
def Wire.write (wire : Wire) (bytes : Bytes) : Except Errno Nat × Wire :=
  match wire.results with
  | [] => (.error eio, wire)
  | .error errno :: results => (.error errno, { wire with results := results })
  | .ok count :: results => (.ok (min count bytes.length), ⟨wire.sent ++ bytes.take count, results⟩)

/-- The loop of `writen`; every turn writes at least one byte, so `n + 1` turns are enough. -/
def writenLoop (n : Nat) : Nat → Bytes → Wire → Except Errno Nat × Wire
  | 0, ptr, wire => (.ok (n - ptr.length), wire)
  | turns + 1, ptr, wire =>
    if ptr.length = 0 then (.ok (n - ptr.length), wire)
    else
      match wire.write ptr with
      | (.error errno, wire) =>
        (if ptr.length = n then .error errno else .ok (n - ptr.length), wire)
      | (.ok nwritten, wire) =>
        if nwritten = 0 then (.ok (n - ptr.length), wire) else writenLoop n turns
          (ptr.drop nwritten) wire

def writen (wire : Wire) (ptr : Bytes) : Except Errno Nat × Wire :=
  writenLoop ptr.length (ptr.length + 1) ptr wire

/-- The loop that sends the file from `off` on; a `read` returns no bytes only at its end.  `false`
defers the job. -/
def sendFile (file : Bytes) : List (Except Errno Nat) → Nat → Wire → Bool × Wire
  | [], _, wire => (false, wire)
  | .error _ :: _, _, wire => (false, wire)
  | .ok count :: reads, off, wire =>
    -- a `read` gives at least one byte while there are any, and never more than the buffer holds
    let buf := (file.drop off).take (min (max 1 count) iobufsz)
    if buf.length = 0 then (true, wire)
    else
      match writen wire buf with
      | (.error _, wire) => (false, wire)
      | (.ok nw, wire) =>
        if nw = buf.length then sendFile file reads (off + buf.length) wire else (false, wire)

/-- From the headers to the end of the file; `true` goes on to `printer_status`. -/
def sendJob (jp : Job) (printerName : Bytes) (stSize : Nat) (file : Bytes)
    (reads : List (Except Errno Nat)) (wire : Wire) :
    Bool × Wire :=
  let ibuf := ippHeader jp printerName
  let hbuf := httpHeader printerName (stSize + ibuf.length + (documentFormat jp.req).2)
  match wire.write (hbuf ++ ibuf) with
  | (.error _, wire) => (false, wire)
  | (.ok nw, wire) =>
    -- a short `writev` is given up, unlike a short `write` in `writen`
    if nw ≠ hbuf.length + ibuf.length then (false, wire)
    else if jp.req.flags &&& prText ≠ 0 then
      match wire.write [8] with
      | (.error _, wire) => (false, wire)
      | (.ok nw, wire) => if nw ≠ 1 then (false, wire) else sendFile file reads 0 wire
    else sendFile file reads 0 wire

/-! ## The grammar of the request -/

def ntohs (bytes : Bytes) : Nat := (bytes.take 2).foldl (fun value b => 256 * value + b.toNat) 0

structure Attribute where
  tag : UInt8
  name : Bytes
  value : Bytes
  deriving DecidableEq, Repr

/-- A field with its length in front of it, and what follows it. -/
def takeField (bytes : Bytes) : Option (Bytes × Bytes) :=
  if 2 + ntohs bytes ≤ bytes.length then some ((bytes.drop 2).take (ntohs bytes),
    bytes.drop (2 + ntohs bytes)) else none

/-- The attributes up to `TAG_END_OF_ATTR`, and what follows it; no other tag of a group comes in
between. -/
def decodeAttributes : Nat → Bytes → Option (List Attribute × Bytes)
  | 0, _ => none
  | _, [] => none
  | turns + 1, tag :: bytes =>
    if tag = tagEndOfAttr then some ([], bytes)
    else if tag < 16 then none
    else
      match takeField bytes with
      | none => none
      | some (name, bytes) =>
        match takeField bytes with
        | none => none
        | some (value, bytes) =>
          match decodeAttributes turns bytes with
          | none => none
          | some (attributes, data) => some (⟨tag, name, value⟩ :: attributes, data)

/-- An IPP request with one group of attributes. -/
structure IppRequest where
  majorVersion : Nat
  minorVersion : Nat
  operation : Nat
  requestId : Int
  attributes : List Attribute
  data : Bytes
  deriving DecidableEq, Repr

def decodeIpp (bytes : Bytes) : Option IppRequest :=
  if bytes[8]? = some tagOperationAttr then
    match decodeAttributes bytes.length (bytes.drop 9) with
    | none => none
    | some (attributes, data) =>
      some ⟨(bytes.getD 0 0).toNat, (bytes.getD 1 0).toNat, ntohs (bytes.drop 2),
        cInt (ntohl (bytes.drop 4)), attributes, data⟩
  else none

/-- The bytes up to the next line end, and what follows it. -/
def readLine : Bytes → Option (Bytes × Bytes)
  | [] => none
  | b :: bytes =>
    if b = 13 ∧ bytes.head? = some 10 then some ([], bytes.tail)
    else
      match readLine bytes with
      | none => none
      | some (line, rest) => some (b :: line, rest)

/-- The lines up to the first empty one, and what follows it. -/
def readHeader : Nat → Bytes → Option (List Bytes × Bytes)
  | 0, _ => none
  | turns + 1, bytes =>
    match readLine bytes with
    | none => none
    | some ([], rest) => some ([], rest)
    | some (line, rest) =>
      match readHeader turns rest with
      | none => none
      | some (lines, rest) => some (line :: lines, rest)

/-! ## Attributes -/

theorem ntohs_htons (n : Nat) (rest : Bytes) : ntohs (htons n ++ rest) = n % 2 ^ 16 := by
  simp only [ntohs, htons, List.map_cons, List.map_nil, List.cons_append, List.nil_append,
    List.take_succ_cons,
    List.take_zero, List.foldl_cons, List.foldl_nil, Nat.toUInt8, UInt8.toNat_ofNat']
  omega

theorem takeField_htons {field : Bytes} (short : field.length < 2 ^ 16) (rest : Bytes) :
    takeField (htons field.length ++ (field ++ rest)) = some (field, rest) := by
  have length : ntohs (htons field.length ++ (field ++ rest)) = field.length := by
    rw [ntohs_htons, Nat.mod_eq_of_lt short]
  -- the length of the field and the field itself are there
  have room : 2 + field.length ≤ (htons field.length ++ (field ++ rest)).length := by
    simp [htons]
    omega
  rw [takeField, length, if_pos room, ← List.drop_drop]
  simp [htons]

namespace Attribute

def encode (a : Attribute) : Bytes :=
  a.tag :: (htons a.name.length ++ (a.name ++ (htons a.value.length ++ a.value)))

/-- The tag is that of a value, and the lengths fit in two bytes. -/
structure Encodable (a : Attribute) : Prop where
  tag : ¬a.tag < 16
  name : a.name.length < 2 ^ 16
  value : a.value.length < 2 ^ 16

end Attribute

/-- The decoder reads back what has been encoded, whatever follows. -/
theorem decodeAttributes_encode {attributes : List Attribute}
    (encodable : ∀ a ∈ attributes, a.Encodable) (data : Bytes) {turns : Nat}
    (enough : attributes.length < turns) :
    decodeAttributes turns (attributes.flatMap Attribute.encode ++ tagEndOfAttr :: data) =
      some (attributes, data) := by
  induction attributes generalizing turns with
  | nil =>
    obtain ⟨turns, rfl⟩ := Nat.exists_eq_succ_of_ne_zero (Nat.ne_of_gt enough)
    simp [decodeAttributes]
  | cons a attributes inductionHypothesis =>
    obtain ⟨turns, rfl⟩ :=
      Nat.exists_eq_succ_of_ne_zero (Nat.ne_of_gt (Nat.lt_of_le_of_lt (Nat.zero_le _) enough))
    have fits := encodable a List.mem_cons_self
    -- what tells an attribute from the end
    have other : a.tag ≠ tagEndOfAttr := by
      intro same
      exact fits.tag (same ▸ by decide)
    have behind := inductionHypothesis (fun b member => encodable b (List.mem_cons_of_mem _ member))
      (Nat.lt_of_succ_lt_succ enough)
    simp only [List.flatMap_cons, Attribute.encode, List.cons_append, List.append_assoc,
      decodeAttributes, other, fits.tag,
      if_false, takeField_htons fits.name, takeField_htons fits.value, behind]

theorem addOption_eq (cp : Bytes) (tag : UInt8) (optname optval : Bytes) :
    addOption cp tag optname optval = cp ++ Attribute.encode ⟨tag, cstr optname, cstr optval⟩ := by
  simp [addOption, Attribute.encode, strlen]

/-- The name of the user, and that of the job. -/
def PrintReq.user (req : PrintReq) : Bytes := cstr (req.usernm ++ req.jobnm)

def PrintReq.job (req : PrintReq) : Bytes := cstr req.jobnm

def printerUri (printerName : Bytes) : Bytes := ascii "http://" ++ cstr printerName ++ ascii "/ipp"

def requestAttributes (jp : Job) (printerName : Bytes) : List Attribute :=
  [⟨tagCharset, ascii "attributes-charset", ascii "utf-8"⟩,
    ⟨tagNatulang, ascii "attributes-natural-language", ascii "en-us"⟩,
    ⟨tagUri, ascii "printer-uri", printerUri printerName⟩,
    ⟨tagNamewolang, ascii "requesting-user-name", jp.req.user⟩,
    ⟨tagNamewolang, ascii "job-name", jp.req.job⟩,
    ⟨tagMimetype, ascii "document-format",
      if jp.req.flags &&& prText ≠ 0 then ascii "text/plain" else ascii "application/postscript"⟩]

theorem nulFree_printerUri (printerName : Bytes) : NulFree (printerUri printerName) := by
  have clean := nulFree_cstr printerName
  simp only [NulFree, printerUri, List.mem_append, not_or] at clean ⊢
  exact ⟨⟨by decide, clean⟩, by decide⟩

theorem ippHeader_eq (jp : Job) (printerName : Bytes) :
    ippHeader jp printerName = [1, 1] ++
      (htons opPrintJob ++ (htonl (jp.jobid % 2 ^ 32).toNat ++ (tagOperationAttr ::
      ((requestAttributes jp printerName).flatMap Attribute.encode ++ [tagEndOfAttr])))) := by
  -- the texts without a NUL are copied whole by `strcpy`
  have format : cstr (documentFormat jp.req).1 =
      if jp.req.flags &&& prText ≠ 0 then ascii "text/plain" else ascii "application/postscript" := by
    unfold documentFormat
    split <;> exact cstr_of_nulFree (by decide)
  have uri : cstr (ascii "http://" ++ (cstr printerName ++ ascii "/ipp")) = printerUri printerName := by
    rw [← List.append_assoc]
    exact cstr_of_nulFree (nulFree_printerUri printerName)
  simp only [ippHeader, addOption_eq, format, uri, cstr_of_nulFree (show NulFree (ascii "attributes-charset") by decide),
    cstr_of_nulFree (show NulFree (ascii "utf-8") by decide),
    cstr_of_nulFree (show NulFree (ascii "attributes-natural-language") by decide),
    cstr_of_nulFree (show NulFree (ascii "en-us") by decide), cstr_of_nulFree (show NulFree (ascii "printer-uri") by decide),
    cstr_of_nulFree (show NulFree (ascii "requesting-user-name") by decide),
    cstr_of_nulFree (show NulFree (ascii "job-name") by decide),
    cstr_of_nulFree (show NulFree (ascii "document-format") by decide), requestAttributes, PrintReq.user, PrintReq.job,
    List.flatMap_cons, List.flatMap_nil, List.append_assoc, List.append_nil, List.cons_append,
      List.nil_append]

/-- The bytes in front of the file. -/
def textMark (req : PrintReq) : Bytes := if req.flags &&& prText ≠ 0 then [8] else []

theorem encodable_requestAttributes {jp : Job} {printerName : Bytes}
    (uri : (printerUri printerName).length < 2 ^ 15)
    (user : jp.req.user.length < 2 ^ 15) (job : jp.req.job.length < 2 ^ 15) :
    ∀ a ∈ requestAttributes jp printerName, a.Encodable := by
  have format : (if jp.req.flags &&& prText ≠ 0 then ascii "text/plain" else ascii "application/postscript").length < 2 ^ 16 := by
    split <;> decide
  intro a member
  simp only [requestAttributes, List.mem_cons, List.not_mem_nil, or_false] at member
  obtain rfl | rfl | rfl | rfl | rfl | rfl := member
  · exact ⟨by decide, by decide, by decide⟩
  · exact ⟨by decide, by decide, by decide⟩
  · exact ⟨show ¬tagUri < 16 by decide, show (ascii "printer-uri").length < 2 ^ 16 by decide, Nat.lt_trans uri (by decide)⟩
  · exact ⟨show ¬tagNamewolang < 16 by decide, show (ascii "requesting-user-name").length < 2 ^ 16 by decide,
      Nat.lt_trans user (by decide)⟩
  · exact ⟨show ¬tagNamewolang < 16 by decide, show (ascii "job-name").length < 2 ^ 16 by decide,
      Nat.lt_trans job (by decide)⟩
  · exact ⟨show ¬tagMimetype < 16 by decide, show (ascii "document-format").length < 2 ^ 16 by decide, format⟩

/-- The block that is sent says what it is meant to say, and what follows it is the document. -/
theorem decodeIpp_ippHeader {jp : Job} {printerName : Bytes} (int32 : cInt jp.jobid = jp.jobid)
    (uri : (printerUri printerName).length < 2 ^ 15) (user : jp.req.user.length < 2 ^ 15)
    (job : jp.req.job.length < 2 ^ 15)
    (data : Bytes) :
    decodeIpp (ippHeader jp printerName ++ data) =
      some ⟨1, 1, opPrintJob, jp.jobid, requestAttributes jp printerName, data⟩ := by
  let behind := (requestAttributes jp printerName).flatMap Attribute.encode ++ tagEndOfAttr :: data
  have shape : ippHeader jp printerName ++ data =
      1 :: 1 :: (htons opPrintJob ++
        (htonl (jp.jobid % 2 ^ 32).toNat ++ tagOperationAttr :: behind)) := by
    simp [ippHeader_eq, behind]
  have requestId : cInt (ntohl ((ippHeader jp printerName ++ data).drop 4)) = jp.jobid := by
    have dropped : (ippHeader jp printerName ++ data).drop 4 =
        htonl (jp.jobid % 2 ^ 32).toNat ++ tagOperationAttr :: behind := by simp [shape, htons]
    have value : (((jp.jobid % 2 ^ 32).toNat % 2 ^ 32 : Nat) : Int) =
      jp.jobid % (2 ^ 32 : Nat) := by omega
    rw [dropped, ntohl_htonl, value, cInt, Int.emod_bmod]
    exact int32
  have operation : ntohs ((ippHeader jp printerName ++ data).drop 2) = opPrintJob := by
    rw [shape, List.drop_succ_cons, List.drop_succ_cons, List.drop_zero, ntohs_htons]
    decide
  have group : (ippHeader jp printerName ++ data)[8]? = some tagOperationAttr := by
    rw [shape]
    simp [htons, htonl]
  have attributes : (ippHeader jp printerName ++ data).drop 9 = behind := by
    rw [shape]
    simp [htons, htonl]
  have enough : (requestAttributes jp printerName).length <
      (ippHeader jp printerName ++ data).length := by
    rw [shape]
    simp [htons, htonl, requestAttributes]
  have first : ((ippHeader jp printerName ++ data).getD 0 0).toNat = 1 := by rw [shape]; rfl
  have second : ((ippHeader jp printerName ++ data).getD 1 0).toNat = 1 := by rw [shape]; rfl
  unfold decodeIpp
  rw [if_pos group, attributes, decodeAttributes_encode (encodable_requestAttributes uri user job)
    data enough]
  simp only [first, second, operation, requestId]

/-! ## The header -/

def httpLines (printerName : Bytes) (length : Nat) : List Bytes :=
  [ascii "POST /ipp HTTP/1.1", ascii "Content-Length: " ++ decimal length, ascii "Content-Type: application/ipp",
    ascii "Host: " ++ cstr printerName ++ ascii ":" ++ decimal ippPort]

theorem httpHeader_eq (printerName : Bytes) (length : Nat) :
    httpHeader printerName length = headerLines (httpLines printerName length) ++ crlf := by
  have first : ascii "POST /ipp HTTP/1.1\r\n" = ascii "POST /ipp HTTP/1.1" ++ crlf := by decide
  have third : ascii "Content-Type: application/ipp\r\n" = ascii "Content-Type: application/ipp" ++ crlf := by decide
  have ends : ascii "\r\n" = crlf := by decide
  simp only [httpHeader, first, third, ends, headerLines, httpLines, List.flatMap_cons,
    List.flatMap_nil, List.append_assoc,
    List.append_nil, show [13, 10] = crlf from rfl]

theorem readLine_append {line : Bytes} (solid : ∀ b ∈ line, inLine b = true) (rest : Bytes) :
    readLine (line ++ 13 :: 10 :: rest) = some (line, rest) := by
  induction line with
  | nil => simp [readLine]
  | cons b line inductionHypothesis =>
    have other : b ≠ 13 := by
      rintro rfl
      exact absurd (solid 13 List.mem_cons_self) (by decide)
    rw [List.cons_append, readLine, if_neg (fun both => other both.1),
      inductionHypothesis fun c member => solid c (List.mem_cons_of_mem _ member)]

theorem readHeader_append {lines : List Bytes}
    (full : ∀ line ∈ lines, line ≠ [] ∧ ∀ b ∈ line, inLine b = true) (rest : Bytes)
    {turns : Nat} (enough : lines.length < turns) :
    readHeader turns (headerLines lines ++ (crlf ++ rest)) = some (lines, rest) := by
  induction lines generalizing turns with
  | nil =>
    obtain ⟨turns, rfl⟩ := Nat.exists_eq_succ_of_ne_zero (Nat.ne_of_gt enough)
    have empty : readLine (crlf ++ rest) = some ([], rest) := @readLine_append [] (by simp) rest
    simp [headerLines, readHeader, empty]
  | cons line lines inductionHypothesis =>
    obtain ⟨turns, rfl⟩ :=
      Nat.exists_eq_succ_of_ne_zero (Nat.ne_of_gt (Nat.lt_of_le_of_lt (Nat.zero_le _) enough))
    obtain ⟨nonempty, solid⟩ := full line List.mem_cons_self
    have behind := inductionHypothesis (fun other member =>
      full other (List.mem_cons_of_mem _ member))
      (Nat.lt_of_succ_lt_succ enough)
    have first : readLine (headerLines (line :: lines) ++ (crlf ++ rest)) =
        some (line, headerLines lines ++ (crlf ++ rest)) := by
      have read := readLine_append solid (headerLines lines ++ (crlf ++ rest))
      simpa [headerLines, crlf] using read
    obtain ⟨b, others, rfl⟩ := List.exists_cons_of_ne_nil nonempty
    simp only [readHeader, first, behind]

/-! ## What has been sent -/

section Sent

variable {wire wire' : Wire} {result : Except Errno Nat} {bytes : Bytes}

/-- The number of bytes that a write tells. -/
def written : Except Errno Nat → Nat
  | .ok n => n
  | .error _ => 0

theorem write_sent (writes : wire.write bytes = (result, wire')) :
    ∃ done, wire'.sent = wire.sent ++ done ∧ done <+: bytes ∧ done.length = written result := by
  unfold Wire.write at writes
  split at writes
  · obtain ⟨rfl, rfl⟩ := Prod.mk.inj writes
    exact ⟨[], by simp, List.nil_prefix, rfl⟩
  · obtain ⟨rfl, rfl⟩ := Prod.mk.inj writes
    exact ⟨[], by simp, List.nil_prefix, rfl⟩
  · rename_i count _ _
    obtain ⟨rfl, rfl⟩ := Prod.mk.inj writes
    exact ⟨bytes.take count, rfl, List.take_prefix _ _, by simp [written]⟩

theorem write_taken (writes : wire.write bytes = (result, wire')) :
    wire'.sent = wire.sent ++ bytes.take (result.toOption.getD 0) := by
  obtain ⟨done, sent, front, count⟩ := write_sent writes
  rw [sent, List.prefix_iff_eq_take.1 front, count]
  cases result <;> rfl

theorem write_count {nwritten : Nat} (writes : wire.write bytes = (.ok nwritten, wire')) :
    nwritten ≤ bytes.length := by
  obtain ⟨done, _, front, count⟩ := write_sent writes
  have atMost := front.length_le
  rwa [count] at atMost

/-- `writen` is a transfer of its buffer. -/
theorem writenLoop_eq_loop (turns done : Nat) (wire : Wire) :
    writenLoop bytes.length turns (bytes.drop done) wire =
      loop (writing Wire.write bytes) bytes.length turns (bytes.length - done) done wire := by
  induction turns generalizing done wire with
  | zero => rw [writenLoop, loop, List.length_drop]
  | succ turns inductionHypothesis =>
    have rest : (bytes.drop done).take (bytes.length - done) = bytes.drop done :=
      List.take_of_length_le (by simp)
    rw [writenLoop, loop, List.length_drop, writing, rest]
    split
    · rfl
    cases answer : wire.write (bytes.drop done) with
    | mk result wire' =>
      cases result with
      | error errno => rfl
      | ok nwritten =>
        have taken : ((bytes.drop done).take nwritten).length = nwritten :=
          List.length_take_of_le (write_count answer)
        dsimp only
        rw [taken, List.drop_drop, inductionHypothesis, Nat.sub_sub]

/-- However `writen` ends, a front of the buffer has been sent, and a count says how much. -/
theorem writen_sent (writes : writen wire bytes = (result, wire')) :
    ∃ done, wire'.sent = wire.sent ++ done ∧ done <+: bytes ∧ ∀ m, result = .ok m →
      m = done.length := by
  obtain ⟨calls, s', makes, course, ends⟩ :=
    transfer_course (writing_bounded Wire.write bytes) bytes.length wire
  have same : writen wire bytes = _ := writenLoop_eq_loop (bytes.length + 1) 0 wire
  rw [writes, Nat.sub_zero, ← transfer, ends] at same
  obtain ⟨rfl, rfl⟩ := Prod.mk.inj same
  refine ⟨moved calls, makes.written Wire.sent fun _ _ _ _ => write_taken, makes.front course, ?_⟩
  intro m told
  by_cases fails : FirstFails calls
  · obtain ⟨error, failed⟩ := outcome_of_firstFails fails
    rw [failed] at told
    cases told
  · rw [outcome_of_not_firstFails fails] at told
    cases told
    rfl

/-- Between the two states a front of this has been sent, and all of it if it is complete. -/
def Sends (wire wire' : Wire) (whole : Bytes) (complete : Bool) : Prop :=
  ∃ done, wire'.sent = wire.sent ++ done ∧ done <+: whole ∧ (complete = true → done = whole)

theorem sends_nothing (wire : Wire) (whole : Bytes) : Sends wire wire whole false :=
  ⟨[], by simp, List.nil_prefix, by simp⟩

/-- Given up in the middle of the first part. -/
theorem sends_front {done rest : Bytes} (sent : wire'.sent = wire.sent ++ done)
    (front : done <+: bytes) :
    Sends wire wire' (bytes ++ rest) false :=
  ⟨done, sent, front.trans (List.prefix_append _ _), by simp⟩

/-- Gone on behind the first part. -/
theorem sends_then {middle : Wire} {rest : Bytes} {complete : Bool}
    (sent : middle.sent = wire.sent ++ bytes)
    (sends : Sends middle wire' rest complete) : Sends wire wire' (bytes ++ rest) complete := by
  obtain ⟨done, sent', front, whole⟩ := sends
  refine ⟨bytes ++ done, ?_, (List.prefix_append_right_inj bytes).mpr front, fun complete => ?_⟩
  · rw [sent', sent, List.append_assoc]
  · rw [whole complete]

/-- However the sending of the file ends, a front of it has been sent, and all of it when the end of
the file was read. -/
theorem sendFile_sent {file : Bytes} {reads : List (Except Errno Nat)} {off : Nat} {complete : Bool}
    (sends : sendFile file reads off wire = (complete, wire')) :
    Sends wire wire' (file.drop off) complete := by
  induction reads generalizing off wire with
  | nil =>
    obtain ⟨rfl, rfl⟩ := Prod.mk.inj sends
    exact sends_nothing wire _
  | cons read reads inductionHypothesis =>
    cases read with
    | error errno =>
      obtain ⟨rfl, rfl⟩ := Prod.mk.inj sends
      exact sends_nothing wire _
    | ok count =>
      simp only [sendFile] at sends
      have size : 0 < min (max 1 count) iobufsz := by
        have : iobufsz = 8192 := rfl
        omega
      generalize min (max 1 count) iobufsz = nr at sends size
      split at sends
      · -- a read of no bytes: the end of the file
        rename_i none
        obtain ⟨rfl, rfl⟩ := Prod.mk.inj sends
        have ended : file.drop off = [] := by
          apply List.length_eq_zero_iff.mp
          rw [List.length_take] at none
          omega
        rw [ended]
        exact ⟨[], by simp, List.nil_prefix, by simp⟩
      · have split : file.drop off = (file.drop off).take nr ++
            file.drop (off + ((file.drop off).take nr).length) := by
          rw [← List.drop_drop]
          exact List.prefix_append_drop (List.take_prefix nr _)
        rw [split]
        -- the piece is written, or only a front of it, which defers the job
        cases answer : writen wire ((file.drop off).take nr) with
        | mk told middle =>
          obtain ⟨done, sent, front, count⟩ := writen_sent answer
          simp only [answer] at sends
          cases told with
          | error errno =>
            obtain ⟨rfl, rfl⟩ := Prod.mk.inj sends
            exact sends_front sent front
          | ok nw =>
            simp only at sends
            split at sends
            · rename_i all
              rw [front.eq_of_length ((count nw rfl).symm.trans all)] at sent
              exact sends_then sent (inductionHypothesis sends)
            · obtain ⟨rfl, rfl⟩ := Prod.mk.inj sends
              exact sends_front sent front

/-- The whole request. -/
def request (jp : Job) (printerName : Bytes) (stSize : Nat) (file : Bytes) : Bytes :=
  let ibuf := ippHeader jp printerName
  httpHeader printerName (stSize + ibuf.length + (documentFormat jp.req).2) ++ ibuf ++
    (textMark jp.req ++ file)

/-- However the sending ends, a front of the request has been sent, and all of it when the response
is read. -/
theorem sendJob_sent {jp : Job} {printerName file : Bytes} {stSize : Nat}
    {reads : List (Except Errno Nat)} {complete : Bool}
    (sends : sendJob jp printerName stSize file reads wire = (complete, wire')) :
    Sends wire wire' (request jp printerName stSize file) complete := by
  unfold sendJob at sends
  unfold request
  simp only at sends ⊢
  generalize ippHeader jp printerName = ibuf at sends ⊢
  generalize httpHeader printerName (stSize + ibuf.length + (documentFormat jp.req).2) =
    hbuf at sends ⊢
  cases answer : wire.write (hbuf ++ ibuf) with
  | mk told middle =>
    obtain ⟨headers, sent, front, count⟩ := write_sent answer
    simp only [answer] at sends
    cases told with
    | error errno =>
      obtain ⟨rfl, rfl⟩ := Prod.mk.inj sends
      exact sends_front sent front
    | ok nw =>
      simp only [written] at count
      simp only at sends
      split at sends
      · obtain ⟨rfl, rfl⟩ := Prod.mk.inj sends
        exact sends_front sent front
      · rename_i all
        rw [front.eq_of_length (by rw [List.length_append]; omega)] at sent
        apply sends_then sent
        rw [textMark]
        -- behind the headers, a plain text has its mark first
        by_cases text : jp.req.flags &&& prText ≠ 0
        · simp only [if_pos text] at sends ⊢
          cases answer' : middle.write [8] with
          | mk told' last =>
            obtain ⟨mark, sent', front', count'⟩ := write_sent answer'
            simp only [answer'] at sends
            cases told' with
            | error errno =>
              obtain ⟨rfl, rfl⟩ := Prod.mk.inj sends
              exact sends_front sent' front'
            | ok nw' =>
              simp only [written] at count'
              simp only at sends
              split at sends
              · obtain ⟨rfl, rfl⟩ := Prod.mk.inj sends
                exact sends_front sent' front'
              · rename_i one
                rw [front'.eq_of_length
                  (by simp only [List.length_cons, List.length_nil]; omega)] at sent'
                exact sends_then sent' (sendFile_sent sends)
        · simp only [if_neg text] at sends ⊢
          exact sendFile_sent sends

end Sent

/-! ## The frame -/

/-- The two tests of `PR_TEXT` agree. -/
theorem documentFormat_extra (req : PrintReq) : (documentFormat req).2 = (textMark req).length := by
  unfold documentFormat textMark
  split <;> rfl

theorem httpLines_full {printerName : Bytes} (solid : ∀ b ∈ cstr printerName, inLine b = true)
    (length : Nat) :
    ∀ line ∈ httpLines printerName length, line ≠ [] ∧ ∀ b ∈ line, inLine b = true := by
  have digits : ∀ b ∈ decimal length, inLine b = true := by
    intro b member
    have digit := isDigit_of_mem_decimal member
    simp only [isDigit, Bool.and_eq_true, decide_eq_true_eq, UInt8.le_iff_toNat_le] at digit
    have others : b ≠ 13 ∧ b ≠ 10 := by
      constructor <;> (rintro rfl; simp at digit)
    simp [inLine, others]
  -- the four lines in turn
  intro line member
  simp only [httpLines, List.mem_cons, List.not_mem_nil, or_false] at member
  obtain rfl | rfl | rfl | rfl := member
  · exact ⟨by decide, List.all_eq_true.mp rfl⟩
  · refine ⟨by simp [decimal_ne_nil], fun b member => ?_⟩
    have text : ∀ b ∈ ascii "Content-Length: ", inLine b = true := List.all_eq_true.mp rfl
    obtain inText | number := List.mem_append.mp member
    · exact text b inText
    · exact digits b number
  · exact ⟨by decide, List.all_eq_true.mp rfl⟩
  · refine ⟨by simp [decimal_ne_nil], fun b member => ?_⟩
    have text : ∀ b ∈ ascii "Host: ", inLine b = true := List.all_eq_true.mp rfl
    have port : ∀ b ∈ ascii ":" ++ decimal ippPort, inLine b = true := List.all_eq_true.mp (by decide)
    rw [List.append_assoc] at member
    obtain front | inPort := List.mem_append.mp member
    · obtain inText | name := List.mem_append.mp front
      · exact text b inText
      · exact solid b name
    · exact port b inPort

/-- Where everything has been sent, the header tells the number of bytes behind it, and these are
the attributes of the job, the mark of a plain text and the file. -/
theorem request_framed (jp : Job) (printerName file : Bytes)
    (reads results : List (Except Errno Nat))
    (int32 : cInt jp.jobid = jp.jobid) (uri : (printerUri printerName).length < 2 ^ 15)
    (user : jp.req.user.length < 2 ^ 15)
    (job : jp.req.job.length < 2 ^ 15) {wire : Wire}
    (sends : sendJob jp printerName file.length file reads ⟨[], results⟩ = (true, wire)) :
    ∃ body, wire.sent = headerLines (httpLines printerName body.length) ++ (crlf ++ body) ∧
      ((∀ b ∈ cstr printerName, inLine b = true) →
        readHeader wire.sent.length wire.sent = some (httpLines printerName body.length, body)) ∧
      decodeIpp body =
        some ⟨1, 1, opPrintJob, jp.jobid, requestAttributes jp printerName,
          textMark jp.req ++ file⟩ := by
  obtain ⟨done, sent, -, whole⟩ := sendJob_sent sends
  rw [List.nil_append, whole rfl] at sent
  -- what was announced is the length of what follows the empty line
  let body := ippHeader jp printerName ++ (textMark jp.req ++ file)
  have length : file.length + (ippHeader jp printerName).length + (documentFormat jp.req).2 =
      body.length := by
    rw [documentFormat_extra]
    simp only [body, List.length_append]
    omega
  have framed : wire.sent = headerLines (httpLines printerName body.length) ++ (crlf ++ body) := by
    rw [sent, request]
    simp only [length, httpHeader_eq, List.append_assoc, body]
  refine ⟨body, framed, fun solid => ?_, decodeIpp_ippHeader int32 uri user job _⟩
  have enough : (httpLines printerName body.length).length < wire.sent.length := by
    rw [framed]
    simp [headerLines, httpLines, crlf, ascii]
  have read := readHeader_append (httpLines_full solid body.length) body enough
  rw [← framed] at read
  exact read

/-- A plain text of two bytes, in two reads. -/
def textJob : Job := ⟨7, ⟨2, prText, ascii "me" ++ [0], ascii "notes" ++ [0]⟩⟩

theorem request_framed_textJob : ∃ wire,
    sendJob textJob (ascii "lp") 2 [65, 10] [.ok 1, .ok 8192, .ok 0] ⟨[], [.ok 9000, .ok 1, .ok 1, .ok 1]⟩ = (true, wire) ∧
      ∃ body, wire.sent = headerLines (httpLines (ascii "lp") body.length) ++ (crlf ++ body) ∧
        (decodeIpp body).map IppRequest.data = some [8, 65, 10] := by
  cases sends : sendJob textJob (ascii "lp") 2 [65, 10] [.ok 1, .ok 8192, .ok 0] ⟨[], [.ok 9000, .ok 1, .ok 1, .ok 1]⟩ with
  | mk complete wire =>
    have completes : complete = true := (congrArg Prod.fst sends).symm.trans (by decide +kernel)
    subst completes
    obtain ⟨body, framed, -, decodes⟩ := request_framed textJob (ascii "lp") [65, 10] _ _ (by decide) (by decide) (by decide)
      (by decide) sends
    refine ⟨wire, rfl, body, framed, ?_⟩
    rw [decodes]
    decide

end Apue.Printer
