import Apue.Base.Buffer
import Apue.Printer.PrintRequest

/-! # The buffer of the IPP header

`printer_thread` builds the IPP header in `ibuf`, an array of `IBUFSZ` bytes, and neither it nor
`add_option` looks at the room that is left.  Here the header is written into the array, and an
access outside it gives no result.  Everything is written in the end: a NUL that `strcpy` leaves
behind an option is written over by the next byte.  So the array is large enough just when the
header is not longer than it, and the names that `submit_file` may send and a printer name that fits
in its array make headers that are longer.
-/

namespace Apue.Printer

open Apue.Base Pointer

def ibufsz : Nat := 512

/-! ## The code -/

/-- `add_option` in the array; `htons` gives the two bytes that are stored one by one. -/
def addOptionIn (tag : UInt8) (optname optval : Bytes) (cp : Pointer) : Option Pointer := do
  let cp ← put [tag] cp
  let cp ← put (htons (strlen optname)) cp
  let cp ← putString optname cp
  let cp ← put (htons (strlen optval)) cp
  putString optval cp

/-- `ippHeader` in the array. -/
def ippHeaderIn (jp : Job) (printerName : Bytes) (icp : Pointer) : Option Pointer := do
  let icp ← put [1, 1] icp
  let icp ← put (htons opPrintJob) icp
  let icp ← put (htonl (jp.jobid % 2 ^ 32).toNat) icp
  let icp ← put [tagOperationAttr] icp
  let icp ← addOptionIn tagCharset (ascii "attributes-charset") (ascii "utf-8") icp
  let icp ← addOptionIn tagNatulang (ascii "attributes-natural-language") (ascii "en-us") icp
  let str := ascii "http://" ++ cstr printerName ++ ascii "/ipp"
  let icp ← addOptionIn tagUri (ascii "printer-uri") str icp
  let icp ← addOptionIn tagNamewolang (ascii "requesting-user-name") (jp.req.usernm ++ jp.req.jobnm) icp
  let icp ← addOptionIn tagNamewolang (ascii "job-name") jp.req.jobnm icp
  let icp ← addOptionIn tagMimetype (ascii "document-format") (documentFormat jp.req).1 icp
  put [tagEndOfAttr] icp

/-- The names as `submit_file` sets them; `req` is the structure before, with any contents, and
`pwName` the name of the user if there is one. -/
def submitNames (pwName : Option Bytes) (fname : Bytes) (req : PrintReq) : PrintReq :=
  let usernm :=
    match pwName with
    | none => ascii "unknown" ++ 0 :: req.usernm.drop 8
    | some name =>
      -- `strncpy` fills up with NULs, and the last byte is one in any case
      let front := (cstr name).take (usernmMax - 1)
      front ++ List.replicate (usernmMax - front.length) 0
  let len := strlen fname
  let text := if len ≥ jobnmMax then ascii "... " ++ ((cstr fname).drop (len - jobnmMax + 5)).take (jobnmMax - 5) else cstr fname
  { req with usernm, jobnm := text ++ 0 :: req.jobnm.drop (text.length + 1) }

/-! ## The header in the array -/

theorem appends_addOptionIn (tag : UInt8) (optname optval : Bytes) :
    Appends (addOptionIn tag optname optval)
      (Attribute.encode ⟨tag, cstr optname, cstr optval⟩) 1 := by
  have appends := (appends_put [tag]).bind ((appends_put (htons (strlen optname))).bind
    ((appends_putString optname).bind
    ((appends_put (htons (strlen optval))).bind (appends_putString optval) (Nat.zero_le _))
      (by simp [htons])) (Nat.zero_le _))
    (Nat.zero_le _)
  exact appends

theorem appends_ippHeaderIn (jp : Job) (printerName : Bytes) :
    Appends (ippHeaderIn jp printerName) (ippHeader jp printerName) 0 := by
  -- the NUL behind an option is covered by what comes next, and something always does
  have option {tag : UInt8} {optname optval : Bytes} {m : Pointer →
      Option Pointer} {bytes : Bytes} (rest : Appends m bytes 0)
      (more : bytes ≠ []) : Appends (fun cp => (addOptionIn tag optname optval cp).bind m)
        (Attribute.encode ⟨tag, cstr optname, cstr optval⟩ ++ bytes) 0 :=
    (appends_addOptionIn tag optname optval).bind rest (List.length_pos_of_ne_nil more)
  have plain {text : Bytes} {m : Pointer →
      Option Pointer} {bytes : Bytes} (rest : Appends m bytes 0) :
      Appends (fun cp => (put text cp).bind m) (text ++ bytes) 0 :=
        (appends_put text).bind rest (Nat.zero_le _)
  simp only [ippHeader, addOption_eq, List.append_assoc]
  refine plain (plain
    (plain (plain (option (option (option (option (option (option (appends_put _) ?_) ?_) ?_)
    ?_) ?_) ?_))))
  all_goals simp

/-- Everything but the printer, the two names and the type of the document takes 149 bytes. -/
theorem length_ippHeader (jp : Job) (printerName : Bytes) : (ippHeader jp printerName).length =
    149 + (printerUri printerName).length + jp.req.user.length + jp.req.job.length +
      (documentFormat jp.req).1.length := by
  have format : (documentFormat jp.req).1 = if jp.req.flags &&& prText ≠ 0 then ascii "text/plain" else ascii "application/postscript" := by
    unfold documentFormat
    split <;> rfl
  have width (a : Attribute) : a.encode.length = 5 + a.name.length + a.value.length := by
    simp only [Attribute.encode, htons, List.map_cons, List.map_nil, List.length_cons,
      List.length_append, List.length_nil]
    omega
  rw [ippHeader_eq, format]
  simp only [requestAttributes, List.flatMap_cons, List.flatMap_nil, List.length_append,
    List.length_cons, List.length_nil, width,
    htonl_length, show (htons opPrintJob).length = 2 from rfl, show (ascii "attributes-charset").length = 18 from rfl,
    show (ascii "utf-8").length = 5 from rfl, show (ascii "attributes-natural-language").length = 27 from rfl,
    show (ascii "en-us").length = 5 from rfl, show (ascii "printer-uri").length = 11 from rfl,
    show (ascii "requesting-user-name").length = 20 from rfl, show (ascii "job-name").length = 8 from rfl,
    show (ascii "document-format").length = 15 from rfl]
  omega

theorem holds_nil {ibuf : Bytes} (allocated : ibuf.length = ibufsz) : Holds ibufsz [] ⟨ibuf, 0⟩ :=
  ⟨allocated, List.nil_prefix, rfl⟩

/-- The header stays in its buffer if and only if the texts from outside leave room for the 149
bytes that are always there. -/
theorem ippHeader_fits_iff (jp : Job) (printerName ibuf : Bytes)
    (allocated : ibuf.length = ibufsz) :
    (ippHeaderIn jp printerName ⟨ibuf, 0⟩).isSome ↔
      149 + (printerUri printerName).length + jp.req.user.length + jp.req.job.length +
        (documentFormat jp.req).1.length ≤ ibufsz := by
  have appends := appends_ippHeaderIn jp printerName
  have fits := Appends.isSome_iff appends (holds_nil allocated)
  rw [fits, length_ippHeader, List.length_nil, Nat.zero_add, Nat.add_zero]

/-- A header that fits is the one that is sent. -/
theorem ippHeaderIn_holds {jp : Job} {printerName ibuf : Bytes} {icp : Pointer}
    (allocated : ibuf.length = ibufsz)
    (built : ippHeaderIn jp printerName ⟨ibuf, 0⟩ = some icp) :
    Holds ibufsz (ippHeader jp printerName) icp := by
  have appends := appends_ippHeaderIn jp printerName
  have some : (ippHeaderIn jp printerName ⟨ibuf, 0⟩).isSome := by rw [built, Option.isSome_some]
  obtain ⟨icp', built', holds⟩ :=
    appends.of_room (holds_nil allocated) ((appends.isSome_iff (holds_nil allocated)).1 some)
  rw [built, Option.some.injEq] at built'
  rwa [← built', List.nil_append] at holds

/-! ## What a client may send -/

theorem submitNames_user (pwName : Option Bytes) (fname : Bytes) (req : PrintReq) :
    (submitNames pwName fname req).user.length ≤ usernmMax - 1 := by
  cases pwName with
  | none =>
    have clean : NulFree (ascii "unknown") := by decide
    simp only [PrintReq.user, submitNames, List.append_assoc, List.cons_append,
      cstr_append_zero clean]
    decide
  | some name =>
    -- at least one NUL is filled in behind the name
    have clean : NulFree ((cstr name).take (usernmMax - 1)) :=
      fun zero => nulFree_cstr name (List.mem_of_mem_take zero)
    have short : ((cstr name).take (usernmMax - 1)).length ≤ usernmMax - 1 := List.length_take_le ..
    obtain ⟨more, padding⟩ : ∃ more, usernmMax - ((cstr name).take (usernmMax - 1)).length =
        more + 1 :=
      Nat.exists_eq_add_one.2 (by simp only [usernmMax] at short ⊢; omega)
    simp only [PrintReq.user, submitNames, padding, List.replicate_succ, List.append_assoc,
      List.cons_append, cstr_append_zero clean]
    exact short

theorem submitNames_job (pwName : Option Bytes) (fname : Bytes) (req : PrintReq) :
    (submitNames pwName fname req).job.length ≤ jobnmMax - 1 := by
  have name := nulFree_cstr fname
  by_cases long : strlen fname ≥ jobnmMax
  · have clean : NulFree (ascii "... " ++ ((cstr fname).drop (strlen fname - jobnmMax + 5)).take (jobnmMax - 5)) := by
      intro zero
      obtain dots | text := List.mem_append.1 zero
      · exact absurd dots (by decide)
      · exact name (List.mem_of_mem_drop (List.mem_of_mem_take text))
    simp only [PrintReq.job, submitNames, if_pos long, cstr_append_zero clean, List.length_append,
      List.length_take]
    simp only [jobnmMax, show (ascii "... ").length = 4 from rfl]
    omega
  · simp only [PrintReq.job, submitNames, if_neg long, cstr_append_zero name]
    exact Nat.le_sub_one_of_lt (not_le.1 long)

/-- With the longest names, a text for the longest name of a printer makes a header that does not
fit. -/
def longNames : PrintReq :=
  submitNames (some (List.replicate 63 117)) (List.replicate 255 102) ⟨0, 0, [], []⟩

theorem ippHeader_overruns : (printerUri (List.replicate 52 112)).length < 64 ∧
    ippHeaderIn ⟨1, longNames⟩ (List.replicate 52 112) ⟨List.replicate ibufsz 0, 0⟩ = none := by
  decide +kernel

theorem ippHeader_fits_textJob : (ippHeaderIn textJob (ascii "lp") ⟨List.replicate ibufsz 0, 0⟩).isSome ↔
    149 + (printerUri (ascii "lp")).length + textJob.req.user.length + textJob.req.job.length + (documentFormat textJob.req).1.length ≤
      ibufsz :=
  ippHeader_fits_iff textJob (ascii "lp") _ List.length_replicate

end Apue.Printer
