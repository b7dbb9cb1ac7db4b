import Apue.Printer.Network
import Apue.Printer.Spool

/-! # A print job on its way from the client to the spool directory

`submit_file` of the client sends a header with the size of the file and then its bytes;
`client_thread` of the daemon reads the header with `treadn`, spools what `tread` returns until one
of its results is not positive, and answers.  The loop takes a timeout or an error for the end of
the document and never looks at the size, so an answer with `retcode` 0 means that the document is
complete exactly when the reads before that result have delivered all of it.
-/

namespace Apue.Printer

open Apue.Base

def usernmMax : Nat := 64

def jobnmMax : Nat := 256

/-- `sizeof(struct printreq)` -/
def sizeofReq : Nat := 4 + 4 + usernmMax + jobnmMax

def eio : Errno := ⟨5, by decide⟩

/-! ## The client -/

/-- The bytes of a `struct printreq` in network byte order. -/
def PrintReq.encode (req : PrintReq) : Bytes :=
  htonl req.size ++ htonl req.flags ++ req.usernm ++ req.jobnm

/-- What `submit_file` sends; the two names are the whole arrays of the structure. -/
def submitFile (file : Bytes) (text : Bool) (usernm : Vector UInt8 usernmMax)
    (jobnm : Vector UInt8 jobnmMax) : Bytes :=
  PrintReq.encode ⟨file.length, if text then prText else 0, usernm.toList, jobnm.toList⟩ ++ file

/-! ## The daemon -/

/-- The structure the header was read into, after the two `ntohl`. -/
def decodeReq (bytes : Bytes) : PrintReq :=
  ⟨ntohl bytes, ntohl (bytes.drop 4), (bytes.drop 8).take usernmMax,
    (bytes.drop (8 + usernmMax)).take jobnmMax⟩

/-- How the file operations of one client thread end. -/
structure SpoolOps where
  jobid : Int
  /-- `creat` of the data file, of the control file: the error, if any. -/
  creatData : Option Errno
  creatControl : Option Errno
  /-- What the `i`-th `write` of `nr` bytes to the data file returns, and the `write` of the control
  file. -/
  write : Nat → Nat → Except Errno Nat
  writeControl : Except Errno Nat
  /-- The buffer before the first read. -/
  buf : Bytes

/-- What is left of a client thread: its files, and the response it has sent. -/
structure Spooled where
  data : Option Bytes
  control : Option PrintReq
  retcode : Nat
  jobid : Int

/-- The error of a `write` that did not write everything. -/
def writeError : Except Errno Nat → Errno
  | .error errno => errno
  | .ok _ => eio

/-- The loop that reads the file; `i` counts the writes, `data` is the file so far. -/
def receiveLoop (ops : SpoolOps) : Nat → Nat → Bool → PrintReq → Bytes → Socket →
    Except Errno (PrintReq × Bytes)
  | 0, _, _, req, data, _ => .ok (req, data)
  | turns + 1, i, first, req, data, socket =>
    match tread socket iobufsz with
    | (.error _, _) => .ok (req, data)
    | (.ok chunk, socket) =>
      if chunk.length = 0 then .ok (req, data)
      else
        let req := if first then markText (overlay chunk ops.buf) req else req
        if ops.write i chunk.length = .ok chunk.length then
          receiveLoop ops turns (i + 1) false req (data ++ chunk) socket
        else .error (writeError (ops.write i chunk.length))

/-- A response with an error; the files have been unlinked. -/
def rejected (errno : Errno) : Spooled := ⟨none, none, errno.code, 0⟩

/-- `client_thread` from the header to the response. -/
def clientThread (ops : SpoolOps) (socket : Socket) : Spooled :=
  match treadn socket sizeofReq with
  | (.error errno, _) => rejected errno
  | (.ok header, socket) =>
    if header.length ≠ sizeofReq then rejected eio
    else
      match ops.creatData with
      | some errno => rejected errno
      | none =>
        match receiveLoop ops (socket.arrivals.length + 1) 0 true (decodeReq header) [] socket with
        | .error errno => rejected errno
        | .ok (req, data) =>
          match ops.creatControl with
          | some errno => rejected errno
          | none =>
            if ops.writeControl = .ok sizeofReq then ⟨some data, some req, 0, ops.jobid⟩
            else rejected (writeError ops.writeControl)

/-! ## What the reads deliver -/

/-- What the positive results of the reads are, up to the first other one. -/
def chunks : Nat → Socket → List Bytes
  | 0, _ => []
  | turns + 1, socket =>
    match tread socket iobufsz with
    | (.error _, _) => []
    | (.ok chunk, socket) => if chunk.length = 0 then [] else chunk :: chunks turns socket

/-- The document of the connection after its header. -/
def Socket.document (socket : Socket) : List Bytes := chunks (socket.arrivals.length + 1) socket

/-- Every `write` of the chunks to the data file writes all it is given. -/
def SpoolOps.WritesAll (ops : SpoolOps) (i : Nat) (parts : List Bytes) : Prop :=
  ∀ k part, parts[k]? = some part → ops.write (i + k) part.length = .ok part.length

theorem writesAll_cons {ops : SpoolOps} {i : Nat} {chunk : Bytes} {parts : List Bytes} :
    ops.WritesAll i (chunk :: parts) ↔
    ops.write i chunk.length = .ok chunk.length ∧ ops.WritesAll (i + 1) parts := by
  constructor
  · intro all
    refine ⟨all 0 chunk rfl, fun k part here => ?_⟩
    have later := all (k + 1) part (by simpa using here)
    rwa [show i + (k + 1) = i + 1 + k by omega] at later
  · rintro ⟨firstly, later⟩ k part here
    cases k with
    | zero =>
      obtain rfl : chunk = part := by simpa using here
      exact firstly
    | succ k =>
      have found := later k part (by simpa using here)
      rwa [show i + 1 + k = i + (k + 1) by omega] at found

/-- The chunks are the front of the stream. -/
theorem chunks_prefix (turns : Nat) (socket : Socket) :
    ∃ rest, (chunks turns socket).flatten ++ rest = socket.stream := by
  induction turns generalizing socket with
  | zero => exact ⟨socket.stream, rfl⟩
  | succ turns inductionHypothesis =>
    rcases answer : tread socket iobufsz with ⟨_ | chunk, socket'⟩
    · exact ⟨socket.stream, by simp [chunks, answer]⟩
    · simp only [chunks, answer]
      split
      · exact ⟨socket.stream, by simp⟩
      · obtain ⟨rest, split⟩ := inductionHypothesis socket'
        exact ⟨rest, by rw [← tread_stream answer, ← split]; simp⟩

theorem markText_size (buf : Bytes) (req : PrintReq) : (markText buf req).size = req.size := by
  unfold markText
  split <;> rfl

/-- The loop spools the chunks, or fails at the first one that is not written as a whole. -/
theorem receiveLoop_eq (ops : SpoolOps) (turns i : Nat) (first : Bool) (req : PrintReq)
    (data : Bytes) (socket : Socket) :
    (ops.WritesAll i (chunks turns socket) → ∃ req', req'.size = req.size ∧
      receiveLoop ops turns i first req data socket =
        .ok (req', data ++ (chunks turns socket).flatten)) ∧
    (¬ ops.WritesAll i (chunks turns socket) →
      ∃ errno, receiveLoop ops turns i first req data socket = .error errno) := by
  induction turns generalizing i first req data socket with
  | zero => simp [chunks, receiveLoop, SpoolOps.WritesAll]
  | succ turns inductionHypothesis =>
    rcases answer : tread socket iobufsz with ⟨_ | chunk, socket'⟩
    · simp [chunks, receiveLoop, answer, SpoolOps.WritesAll]
    · simp only [chunks, receiveLoop, answer]
      by_cases none : chunk.length = 0
      · simp [none, SpoolOps.WritesAll]
      · simp only [none, if_false]
        rw [writesAll_cons]
        have sizes : (if first = true then markText (overlay chunk ops.buf) req else req).size =
            req.size := by
          split
          · exact markText_size _ _
          · rfl
        obtain ⟨succeeds, fails⟩ := inductionHypothesis (i + 1) false
          (if first = true then markText (overlay chunk ops.buf) req else req) (data ++
            chunk) socket'
        by_cases whole : ops.write i chunk.length = .ok chunk.length
        · simp only [whole, if_true, true_and]
          refine ⟨fun all => ?_, fails⟩
          obtain ⟨req', size, result⟩ := succeeds all
          exact ⟨req', size.trans sizes, by rw [result]; simp⟩
        · simp [whole]

/-- The header that was read is the one that was sent, and the document comes after it. -/
theorem header_read {file : Bytes} {text : Bool} {usernm : Vector UInt8 usernmMax}
    {jobnm : Vector UInt8 jobnmMax}
    {arrivals : List Arrival} {header : Bytes} {socket : Socket}
    (reads : treadn ⟨submitFile file text usernm jobnm, arrivals⟩ sizeofReq = (.ok header, socket))
    (whole : header.length = sizeofReq) :
    (decodeReq header).size = file.length % 2 ^ 32 ∧ socket.stream = file := by
  have stream := treadn_stream reads
  simp only [submitFile] at stream
  have lengths : (PrintReq.encode ⟨file.length, if text then prText else 0, usernm.toList,
      jobnm.toList⟩).length =
      sizeofReq := by
    simp only [PrintReq.encode, List.length_append, htonl_length, Vector.length_toList, sizeofReq]
  obtain ⟨front, back⟩ := List.append_inj stream (whole.trans lengths.symm)
  refine ⟨?_, back⟩
  simp only [decodeReq, front, PrintReq.encode, List.append_assoc]
  exact ntohl_htonl _ _

/-- An answer with `retcode` 0 means that the spooled data has the declared size and is what was
sent. -/
def Spooled.Complete (spooled : Spooled) (file : Bytes) : Prop :=
  spooled.retcode = 0 → ∃ req data, spooled.control = some req ∧ spooled.data = some data ∧
    data.length = req.size ∧
    data = file

/-- The header does not arrive, a file operation fails, or the reads before the first result that is
not positive return as many bytes as the file has, which is less than 2^32. -/
def Delivered (ops : SpoolOps) (socket : Socket) (file : Bytes) : Prop :=
  match treadn socket sizeofReq with
  | (.error _, _) => True
  | (.ok header, socket) =>
    header.length ≠ sizeofReq ∨ ops.creatData ≠ none ∨ ¬ ops.WritesAll 0 socket.document ∨
      ops.creatControl ≠ none ∨
      ops.writeControl ≠ .ok sizeofReq ∨
        (socket.document.flatten.length = file.length ∧ file.length < 2 ^ 32)

theorem rejected_complete (errno : Errno) (file : Bytes) : (rejected errno).Complete file := by
  intro zero
  have positive := errno.positive
  simp only [rejected] at zero
  omega

theorem acknowledged_complete_iff (ops : SpoolOps) (file : Bytes) (text : Bool)
    (usernm : Vector UInt8 usernmMax)
    (jobnm : Vector UInt8 jobnmMax) (arrivals : List Arrival) :
    (clientThread ops ⟨submitFile file text usernm jobnm, arrivals⟩).Complete file ↔
      Delivered ops ⟨submitFile file text usernm jobnm, arrivals⟩ file := by
  unfold clientThread Delivered
  rcases reads : treadn ⟨submitFile file text usernm jobnm,
    arrivals⟩ sizeofReq with ⟨_ | header, socket⟩
  · simp [rejected_complete]
  by_cases short : header.length ≠ sizeofReq
  · simp [short, rejected_complete]
  have whole : header.length = sizeofReq := by simpa using short
  obtain ⟨size, stream⟩ := header_read reads whole
  simp only [whole, ne_eq, not_true_eq_false, if_false, false_or]
  cases ops.creatData with
  | some errno => simp [rejected_complete]
  | none =>
    simp only [not_true_eq_false, false_or]
    obtain ⟨succeeds, fails⟩ :=
      receiveLoop_eq ops (socket.arrivals.length + 1) 0 true (decodeReq header) [] socket
    by_cases all : ops.WritesAll 0 socket.document
    · obtain ⟨req, reqSize, result⟩ := succeeds all
      rw [result]
      simp only [all, not_true_eq_false, false_or]
      cases ops.creatControl with
      | some errno => simp [rejected_complete]
      | none =>
        by_cases written : ops.writeControl = .ok sizeofReq
        · -- everything has succeeded: the answer is 0 and the file is what the reads delivered
          simp only [written, if_true, not_true_eq_false, false_or, Spooled.Complete, true_implies,
            Option.some.injEq,
            List.nil_append]
          obtain ⟨rest, split⟩ := chunks_prefix (socket.arrivals.length + 1) socket
          rw [stream] at split
          constructor
          · intro complete
            obtain ⟨_, data, rfl, rfl, declared, same⟩ := complete
            have lengths : (chunks (socket.arrivals.length + 1) socket).flatten.length =
              file.length := by rw [same]
            refine ⟨lengths, ?_⟩
            rw [lengths, reqSize, size] at declared
            omega
          · intro delivered
            obtain ⟨lengths, small⟩ := delivered
            have same : (chunks (socket.arrivals.length + 1) socket).flatten = file := by
              obtain ⟨front, _⟩ := List.append_inj (split.trans (List.append_nil file).symm) lengths
              exact front
            exact ⟨req, file, rfl, same, by rw [reqSize, size, Nat.mod_eq_of_lt small], rfl⟩
        · simp [written, rejected_complete]
    · obtain ⟨errno, result⟩ := fails all
      rw [result]
      simp [all, rejected_complete]

/-- A client thread whose file operations all succeed. -/
def noErrors : SpoolOps := ⟨1, none, none, fun _ nr => .ok nr, .ok sizeofReq, []⟩

/-- The header and one byte of a file of two arrive before the first timeout: the answer is 0 and
one byte is spooled. -/
theorem acknowledged_incomplete :
    ¬ (clientThread noErrors ⟨submitFile [65, 66] false (Vector.replicate usernmMax 0)
      (Vector.replicate jobnmMax 0),
      [.bytes sizeofReq, .bytes 1]⟩).Complete [65, 66] := by
  intro complete
  obtain ⟨req, data, _, spooled, _, same⟩ := complete (by decide +kernel)
  have short : (clientThread noErrors ⟨submitFile [65, 66] false (Vector.replicate usernmMax 0)
      (Vector.replicate jobnmMax 0), [.bytes sizeofReq, .bytes 1]⟩).data =
        some [65] := by decide +kernel
  rw [short, same] at spooled
  simp at spooled

end Apue.Printer
