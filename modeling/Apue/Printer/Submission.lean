import Apue.Printer.DocumentType

/-! # A submission takes effect as a whole or not at all

`client_thread` by the paths of its files.  It formats a path into `name`, creates the file there,
and on a failure removes what it has created so far, by that name and perhaps by the other one after
a `sprintf` of its own.  It answers first and removes then; a success it answers when both files are
complete, and the job goes on the queue after the answer.

The state is what the thread works on; a run of its code gives back the state also when it ends in
`pthread_exit`.
-/

namespace Apue.Printer.Submission

open Apue.Base

/-- `struct printresp`, with the numbers as the client reads them. -/
structure PrintResp where
  retcode : Nat
  jobid : Int
  msg : Bytes
  deriving DecidableEq, Repr

/-- An answer, with the spool directory and the queue at the time when it went out. -/
structure Answer where
  resp : PrintResp
  files : Bytes → Option Bytes
  added : List Job

/-- The path buffer, the spool directory, the answers so far, and the jobs given to `add_job`. -/
structure State where
  name : Bytes
  files : Bytes → Option Bytes
  sent : List Answer
  added : List Job

abbrev ClientM := EStateM Unit State

/-! ## The code -/

def spooldir : Bytes := ascii "/var/spool/printer"

def datadir : Bytes := ascii "data"

def reqdir : Bytes := ascii "reqs"

/-- `"%s/%s/%d"` -/
def spoolPath (dir : Bytes) (jobid : Int) : Bytes := spooldir ++ ascii "/" ++ dir ++ ascii "/" ++ decimalInt jobid

def msglenMax : Nat := 512

/-- A 32-bit number in the memory of a little-endian host. -/
def hostBytes (n : Nat) : Bytes := [n, n / 2 ^ 8, n / 2 ^ 16, n / 2 ^ 24].map Nat.toUInt8

/-- The number that a little-endian host reads from the first four bytes. -/
def hostNat (bytes : Bytes) : Nat := (bytes.take 4).foldr (fun b value => b.toNat + 256 * value) 0

/-- The bytes of a `struct printreq` in host byte order. -/
def inMemory (req : PrintReq) : Bytes :=
  hostBytes req.size ++ hostBytes req.flags ++ req.usernm ++ req.jobnm

/-- `strncpy` of a string into an array of `n` bytes. -/
def strncpyTo (n : Nat) (s : Bytes) : Bytes := (cstr s).take n ++ List.replicate (n - strlen s) 0

/-- An answer with an error; `strerror` is given the number in network byte order. -/
def failureResp (strerror : Nat → Bytes) (errno : Errno) : PrintResp :=
  ⟨errno.code, 0, strncpyTo msglenMax (strerror (hostNat (htonl errno.code)))⟩

def successResp (jobid : Int) : PrintResp := ⟨0, jobid, ascii "request ID " ++ decimalInt jobid⟩

def sprintfName (dir : Bytes) (jobid : Int) : ClientM Unit :=
  modify fun c => { c with name := spoolPath dir jobid }

/-- `creat(name)`; the descriptor is the path. -/
def creatName (fails : Option Errno) : ClientM (Except Errno Bytes) := do
  match fails with
  | some errno => pure (.error errno)
  | none =>
    modify fun c => { c with files := Function.update c.files c.name (some []) }
    pure (.ok (← get).name)

/-- A `write` of the bytes with the result that it has. -/
def writeFd (fd bytes : Bytes) (result : Except Errno Nat) : ClientM (Except Errno Nat) := do
  match result with
  | .error errno => pure (.error errno)
  | .ok nw =>
    modify fun c => { c with files := Function.update c.files fd ((c.files fd).map (· ++ bytes.take nw)) }
    pure (.ok nw)

def unlinkName : ClientM Unit :=
  modify fun c => { c with files := Function.update c.files c.name none }

def sendResp (resp : PrintResp) : ClientM Unit :=
  modify fun c => { c with sent := c.sent ++ [⟨resp, c.files, c.added⟩] }

/-- What `add_job` does to the queue: the job goes to its end. -/
def appendJob (job : Job) : ClientM Unit := modify fun c => { c with added := c.added ++ [job] }

/-- The loop that reads the file, and the way out when a `write` fails. -/
def receiveFile (strerror : Nat → Bytes) (ops : SpoolOps) (fd : Bytes) : Nat → Nat → Bool →
    PrintReq → Socket → ClientM PrintReq
  | 0, _, _, req, _ => pure req
  | turns + 1, i, first, req, socket => do
    match tread socket iobufsz with
    | (.error _, _) => pure req
    | (.ok chunk, socket) =>
      if chunk.length = 0 then pure req
      else
        let req := if first then markText (overlay chunk ops.buf) req else req
        let nw ← writeFd fd chunk (ops.write i chunk.length)
        if nw = .ok chunk.length then receiveFile strerror ops fd turns (i + 1) false req socket
        else
          sendResp (failureResp strerror (writeError nw))
          unlinkName
          throw ()

/-- After the `write` of the control file with this result: the answer and the queue, or the way
out. -/
def answerJob (strerror : Nat → Bytes) (ops : SpoolOps) (req : PrintReq) (nw : Except Errno Nat) :
    ClientM Unit := do
  if nw = .ok sizeofReq then
    sendResp (successResp ops.jobid)
    appendJob ⟨ops.jobid, req⟩
  else
    sendResp (failureResp strerror (writeError nw))
    unlinkName
    sprintfName datadir ops.jobid
    unlinkName
    throw ()

/-- The control file, once the data file is complete. -/
def submitJob (strerror : Nat → Bytes) (ops : SpoolOps) (req : PrintReq) : ClientM Unit := do
  sprintfName reqdir ops.jobid
  match ← creatName ops.creatControl with
  | .error errno =>
    sendResp (failureResp strerror errno)
    sprintfName datadir ops.jobid
    unlinkName
    throw ()
  | .ok fd =>
    let nw ← writeFd fd (inMemory req) ops.writeControl
    answerJob strerror ops req nw

/-- `client_thread` between `add_worker` and the clean-up. -/
def clientThread (strerror : Nat → Bytes) (ops : SpoolOps) (socket : Socket) : ClientM Unit := do
  match treadn socket sizeofReq with
  | (.error errno, _) =>
    sendResp (failureResp strerror errno)
    throw ()
  | (.ok header, socket) =>
    if header.length ≠ sizeofReq then
      sendResp (failureResp strerror eio)
      throw ()
    else
      sprintfName datadir ops.jobid
      match ← creatName ops.creatData with
      | .error errno =>
        sendResp (failureResp strerror errno)
        throw ()
      | .ok fd =>
        let req ← receiveFile strerror ops fd (socket.arrivals.length + 1) 0 true
          (decodeReq header) socket
        submitJob strerror ops req

/-! ## Runs -/

variable {strerror : Nat → Bytes} {ops : SpoolOps} {socket : Socket} {c : State}

/-- The files with one of them set to these bytes, or removed. -/
def State.withFile (c : State) (path : Bytes) (bytes : Option Bytes) : State :=
  { c with files := Function.update c.files path bytes }

def State.answered (c : State) (resp : PrintResp) : State :=
  { c with sent := c.sent ++ [⟨resp, c.files, c.added⟩] }

theorem withFile_withFile (path : Bytes) (bytes bytes' : Option Bytes) :
    (c.withFile path bytes).withFile path bytes' = c.withFile path bytes' := by
  simp [State.withFile, Function.update_idem]

theorem withFile_self {path : Bytes} {bytes : Option Bytes} (content : c.files path = bytes) :
    c.withFile path bytes = c := by
  simp [State.withFile, ← content]

/-- To remove a file that was not there before restores the directory. -/
theorem update_none {path : Bytes} (fresh : c.files path = none) :
    Function.update c.files path none = c.files := by
  rw [← fresh, Function.update_eq_self]

theorem run_throw {α : Type} (c : State) : (throw () : ClientM α).run c = .error () c := rfl

theorem run_bind {α β : Type} (x : ClientM α) (f : α → ClientM β) (c : State) :
    (x >>= f).run c = match x.run c with
      | .ok value c' => (f value).run c'
      | .error error c' => .error error c' := by
  simp only [EStateM.run, bind, EStateM.bind]
  cases x c <;> rfl

theorem run_bind_ok {α β : Type} {x : ClientM α} {f : α → ClientM β} {c c' : State} {value : α}
    (runs : x.run c = .ok value c') :
    (x >>= f).run c = (f value).run c' := by
  rw [run_bind, runs]

theorem run_sendResp (resp : PrintResp) (c : State) :
    (sendResp resp).run c = .ok () (c.answered resp) := rfl

theorem run_sprintfName (dir : Bytes) (jobid : Int) (c : State) :
    (sprintfName dir jobid).run c = .ok () { c with name := spoolPath dir jobid } := rfl

theorem run_unlinkName (c : State) : unlinkName.run c = .ok () (c.withFile c.name none) := rfl

theorem run_appendJob (job : Job) (c : State) :
    (appendJob job).run c = .ok () { c with added := c.added ++ [job] } := rfl

theorem run_creatName_some (errno : Errno) (c : State) :
    (creatName (some errno)).run c = .ok (.error errno) c := rfl

theorem run_creatName_none (c : State) :
    (creatName none).run c = .ok (.ok c.name) (c.withFile c.name (some [])) := rfl

/-- A `write` that does not write everything leaves the file with some bytes more. -/
theorem run_writeFd {fd data : Bytes} (bytes : Bytes) (result : Except Errno Nat)
    (content : c.files fd = some data) :
    ∃ data', (writeFd fd bytes result).run c = .ok result (c.withFile fd (some data')) ∧
      (result = .ok bytes.length → data' = data ++ bytes) := by
  cases result with
  | error errno => exact ⟨data, by rw [withFile_self content]; rfl, by simp⟩
  | ok nw =>
    refine ⟨data ++ bytes.take nw, ?_, ?_⟩
    · change EStateM.Result.ok _ (c.withFile fd ((c.files fd).map _)) = _
      rw [content, Option.map_some]
    · intro whole
      cases whole
      rw [List.take_length]

theorem run_receiveFile (strerror : Nat → Bytes) (ops : SpoolOps) (fd : Bytes) (turns i : Nat)
    (first : Bool) (req : PrintReq)
    (data : Bytes) (socket : Socket) (c : State) (named : c.name = fd)
    (content : c.files fd = some data) :
    match receiveLoop ops turns i first req data socket with
    | .ok (req', data') =>
      (receiveFile strerror ops fd turns i first req socket).run c =
        .ok req' (c.withFile fd (some data'))
    | .error errno => ∃ files, (receiveFile strerror ops fd turns i first req socket).run c =
        .error () { c.withFile fd none with sent := c.sent ++
          [⟨failureResp strerror errno, files, c.added⟩] } := by
  induction turns generalizing i first req data socket c with
  | zero =>
    simp only [receiveLoop, receiveFile, withFile_self content]
    rfl
  | succ turns inductionHypothesis =>
    rcases answer : tread socket iobufsz with ⟨_ | chunk, socket'⟩
    · simp only [receiveLoop, receiveFile, answer, withFile_self content]
      rfl
    · simp only [receiveLoop, receiveFile, answer]
      by_cases empty : chunk.length = 0
      · simp only [empty, if_true, withFile_self content]
        rfl
      · simp only [empty, if_false]
        obtain ⟨data', writes, whole⟩ := run_writeFd chunk (ops.write i chunk.length) content
        rw [run_bind, writes]
        -- a short `write` is the only way out of the loop that removes the file
        by_cases all : ops.write i chunk.length = .ok chunk.length
        · obtain rfl := whole all
          have later := inductionHypothesis (i + 1) false
            (if first then markText (overlay chunk ops.buf) req else req) (data ++ chunk)
            socket' (c.withFile fd (some (data ++ chunk))) named (Function.update_self ..)
          simp only [withFile_withFile] at later
          simp only [all, if_true]
          exact later
        · simp only [all, if_false, run_bind, run_sendResp, run_unlinkName, run_throw]
          subst named
          refine ⟨(c.withFile c.name (some data')).files, ?_⟩
          rw [← withFile_withFile (c := c) c.name (some data') none]
          rfl

/-- The files and the queue are as before, and one answer with an error has been sent. -/
structure Failed (c c' : State) : Prop where
  files : c'.files = c.files
  added : c'.added = c.added
  answer : ∃ answer, c'.sent = c.sent ++ [answer] ∧ answer.resp.retcode ≠ 0

/-- Both files are complete and were so when the answer went out; the queue was then as it had been
before, and the job has been added to it once since. -/
structure Succeeded (c c' : State) (jobid : Int) (document : Bytes) (req : PrintReq) : Prop where
  files : c'.files =
    Function.update (Function.update c.files (spoolPath datadir jobid) (some document))
    (spoolPath reqdir jobid)
    (some (inMemory req))
  added : c'.added = c.added ++ [⟨jobid, req⟩]
  answer : c'.sent = c.sent ++ [⟨successResp jobid, c'.files, c.added⟩]

theorem paths_ne (jobid : Int) : spoolPath reqdir jobid ≠ spoolPath datadir jobid := by
  intro same
  -- the two paths differ in the directory, whatever the number is
  unfold spoolPath at same
  have front := List.append_cancel_right (List.append_cancel_right same)
  exact absurd (List.append_cancel_left front) (by decide)

theorem failureResp_retcode (strerror : Nat → Bytes) (errno : Errno) :
    (failureResp strerror errno).retcode ≠ 0 :=
  Nat.ne_of_gt errno.positive

theorem failed_answered {c' : State} (strerror : Nat → Bytes) (errno : Errno)
    (files : c'.files = c.files)
    (added : c'.added = c.added) (sent : c'.sent = c.sent) :
    Failed c (c'.answered (failureResp strerror errno)) :=
  ⟨files, added, _, congrArg (· ++ _) sent, failureResp_retcode strerror errno⟩

/-- Once the data file is complete, the rest of the thread removes it again or submits the job. -/
theorem run_submitJob (strerror : Nat → Bytes) (ops : SpoolOps) (data : Bytes) {req : PrintReq}
    (c : State)
    (width : (inMemory req).length = sizeofReq)
    (freshData : c.files (spoolPath datadir ops.jobid) = none)
    (freshReq : c.files (spoolPath reqdir ops.jobid) = none) :
    if ops.creatControl = none ∧ ops.writeControl = .ok sizeofReq
      then ∃ c', (submitJob strerror ops req).run
        (c.withFile (spoolPath datadir ops.jobid) (some data)) = .ok () c' ∧
        Succeeded c c' ops.jobid data req
      else ∃ c', (submitJob strerror ops req).run
        (c.withFile (spoolPath datadir ops.jobid) (some data)) = .error () c' ∧ Failed c c' := by
  have restored : Function.update (Function.update c.files (spoolPath datadir ops.jobid)
      (some data)) (spoolPath datadir ops.jobid) none =
      c.files := by
    rw [Function.update_idem, update_none freshData]
  cases creat : ops.creatControl with
  | some errno =>
    simp only [submitJob, creat, run_bind, run_creatName_some, reduceCtorEq, false_and, if_false,
      run_sendResp, run_sprintfName,
      run_unlinkName, run_throw]
    exact ⟨_, rfl, restored, rfl, _, rfl, failureResp_retcode strerror errno⟩
  | none =>
    let created := { c.withFile (spoolPath datadir ops.jobid)
      (some data) with name := spoolPath reqdir ops.jobid }.withFile
      (spoolPath reqdir ops.jobid) (some [])
    have content : created.files (spoolPath reqdir ops.jobid) = some [] := Function.update_self ..
    obtain ⟨control, writes, whole⟩ := run_writeFd (inMemory req) ops.writeControl content
    have runs : (submitJob strerror ops req).run
        (c.withFile (spoolPath datadir ops.jobid) (some data)) =
        (answerJob strerror ops req ops.writeControl).run
          (created.withFile (spoolPath reqdir ops.jobid) (some control)) := by
      rw [submitJob, run_bind_ok (run_sprintfName ..), creat, run_bind_ok (run_creatName_none _)]
      exact run_bind_ok writes
    simp only [true_and, runs, answerJob]
    rw [withFile_withFile]
    by_cases all : ops.writeControl = .ok sizeofReq
    · simp only [all, if_true, run_bind, run_sendResp, run_appendJob]
      obtain rfl := whole (by rw [all, width])
      exact ⟨_, rfl, rfl, rfl, rfl⟩
    · simp only [all, if_false, run_bind, run_sendResp, run_unlinkName, run_sprintfName, run_throw]
      refine ⟨_, rfl, ?_, rfl, _, rfl, failureResp_retcode strerror _⟩
      have absent : Function.update (Function.update c.files (spoolPath datadir ops.jobid)
          (some data)) (spoolPath reqdir ops.jobid) none =
          Function.update c.files (spoolPath datadir ops.jobid) (some data) := by
        rw [Function.update_eq_self_iff, Function.update_of_ne (paths_ne _), freshReq]
      -- the control file goes first, then the data file
      change Function.update
        (Function.update (Function.update (Function.update c.files (spoolPath datadir ops.jobid)
        (some data))
        (spoolPath reqdir ops.jobid) (some control)) (spoolPath reqdir ops.jobid) none)
          (spoolPath datadir ops.jobid) none = c.files
      rw [Function.update_idem, absent, restored]

theorem length_hostBytes (n : Nat) : (hostBytes n).length = 4 := rfl

theorem length_inMemory {header : Bytes} (buf : Bytes) (parts : List Bytes)
    (whole : header.length = sizeofReq) :
    (inMemory (markFirst buf parts (decodeReq header))).length = sizeofReq := by
  have names (req : PrintReq) : (markFirst buf parts req).usernm = req.usernm ∧
      (markFirst buf parts req).jobnm = req.jobnm := by
    unfold markFirst markText
    split
    · exact ⟨rfl, rfl⟩
    · split <;> exact ⟨rfl, rfl⟩
  simp only [inMemory, List.length_append, length_hostBytes, names, decodeReq, List.length_take,
    List.length_drop, whole]
  decide

/-- The thread fails as `Printer.clientThread` does and leaves the spool directory as it was, or
every operation has succeeded. -/
theorem run_clientThread (strerror : Nat → Bytes) (ops : SpoolOps) (socket : Socket) (c : State)
    (freshData : c.files (spoolPath datadir ops.jobid) = none)
    (freshReq : c.files (spoolPath reqdir ops.jobid) = none) :
    (∃ errno c', Printer.clientThread ops socket = rejected errno ∧
      (clientThread strerror ops socket).run c = .error () c' ∧ Failed c c') ∨
      ∃ header parts c', Receives ops socket header parts ∧
        (clientThread strerror ops socket).run c = .ok () c' ∧
        Succeeded c c' ops.jobid parts.flatten (markFirst ops.buf parts (decodeReq header)) := by
  rcases reads : treadn socket sizeofReq with ⟨errno | header, after⟩
  · refine .inl ⟨errno,
      c.answered (failureResp strerror errno), by simp only [Printer.clientThread, reads], ?_,
      failed_answered strerror errno rfl rfl rfl⟩
    simp only [clientThread, reads, run_bind, run_sendResp, run_throw]
  by_cases short : header.length ≠ sizeofReq
  · refine .inl ⟨eio, c.answered (failureResp strerror eio), ?_, ?_,
      failed_answered strerror eio rfl rfl rfl⟩
    · simp only [Printer.clientThread, reads]
      rw [if_pos short]
    · simp only [clientThread, reads]
      rw [if_pos short]
      simp only [run_bind, run_sendResp, run_throw]
  have whole := not_not.1 short
  -- the state in which the data file is created
  let named : State := { c with name := spoolPath datadir ops.jobid }
  cases creat : ops.creatData with
  | some errno =>
    refine .inl ⟨errno, named.answered (failureResp strerror errno), ?_, ?_,
      failed_answered strerror errno rfl rfl rfl⟩
    · simp only [Printer.clientThread, reads, whole, creat, ne_eq, not_true_eq_false, if_false]
    · simp only [clientThread, reads, whole, creat, ne_eq, not_true_eq_false, if_false, run_bind,
        run_sprintfName, run_creatName_some,
        run_sendResp, run_throw]
      rfl
  | none =>
    let created := named.withFile (spoolPath datadir ops.jobid) (some [])
    have receives := run_receiveFile strerror ops (spoolPath datadir ops.jobid)
      (after.arrivals.length + 1) 0 true (decodeReq header) [] after
      created rfl (Function.update_self ..)
    have runs : (clientThread strerror ops socket).run c =
        (receiveFile strerror ops (spoolPath datadir ops.jobid) (after.arrivals.length + 1) 0 true
          (decodeReq header) after >>=
          submitJob strerror ops).run created := by
      simp only [clientThread, reads, whole, ne_eq, not_true_eq_false, if_false]
      rw [run_bind_ok (run_sprintfName ..), creat, run_bind_ok (run_creatName_none _)]
    -- from here on there is a data file that every failure has to remove
    by_cases all : ops.WritesAll 0 after.document
    · have loop : receiveLoop ops (after.arrivals.length + 1) 0 true (decodeReq header) [] after =
          .ok (markFirst ops.buf after.document (decodeReq header), after.document.flatten) :=
            receiveLoop_first _ _ _ _ _ _ all
      simp only [loop, created, withFile_withFile] at receives
      have submits := run_submitJob strerror ops after.document.flatten named
        (length_inMemory ops.buf after.document whole) freshData
        freshReq
      rw [runs, run_bind_ok receives]
      split at submits
      case isTrue control =>
        obtain ⟨c', submits, succeeded⟩ := submits
        exact .inr ⟨header, after.document, c',
          ⟨⟨after, reads, rfl⟩, whole, creat, all, control.1, control.2⟩, submits,
          succeeded.files, succeeded.added, succeeded.answer⟩
      case isFalse control =>
        obtain ⟨c', submits, failed⟩ := submits
        have rejects : ∃ errno, Printer.clientThread ops socket = rejected errno := by
          simp only [Printer.clientThread, reads, whole, creat, loop, ne_eq,
            not_true_eq_false, if_false]
          cases control' : ops.creatControl with
          | some errno => exact ⟨errno, rfl⟩
          | none =>
            exact ⟨writeError ops.writeControl, if_neg fun written => control ⟨control', written⟩⟩
        obtain ⟨errno, rejects⟩ := rejects
        exact .inl ⟨errno, c', rejects, submits, failed.files, failed.added, failed.answer⟩
    · obtain ⟨errno, loop⟩ :=
        (receiveLoop_eq ops (after.arrivals.length + 1) 0 true (decodeReq header) [] after).2 all
      simp only [loop, created, withFile_withFile] at receives
      obtain ⟨files, fails⟩ := receives
      refine .inl ⟨errno, { named.withFile (spoolPath datadir ops.jobid) none with
          sent := c.sent ++ [⟨failureResp strerror errno, files, c.added⟩] }, ?_, ?_,
            update_none freshData, rfl, _, rfl,
            failureResp_retcode strerror errno⟩
      · simp only [Printer.clientThread, reads, whole, creat, loop, ne_eq,
          not_true_eq_false, if_false]
      · rw [runs, run_bind, fails]
        rfl

/-- How a thread may end: it has failed and there is neither file, or it has received the whole
document and submitted it. -/
inductive Atomic (ops : SpoolOps) (socket : Socket) (c : State) :
    EStateM.Result Unit State Unit → Prop where
  | failed {c' : State} (data : c'.files (spoolPath datadir ops.jobid) = none) (control : c'.files (spoolPath reqdir ops.jobid) = none)
      (failed : Failed c c') : Atomic ops socket c (.error () c')
  | succeeded {header : Bytes} {parts : List Bytes} {c' : State} (receives : Receives ops socket header parts)
      (succeeded : Succeeded c c' ops.jobid parts.flatten
        (markFirst ops.buf parts (decodeReq header))) : Atomic ops socket c (.ok () c')

/-- A thread with a fresh job number fails and leaves neither file and no job, or it answers with
success when both files are complete, and adds the job after that. -/
theorem submission_atomic (strerror : Nat → Bytes) (ops : SpoolOps) (socket : Socket) (c : State)
    (freshData : c.files (spoolPath datadir ops.jobid) = none)
    (freshReq : c.files (spoolPath reqdir ops.jobid) = none) :
    Atomic ops socket c ((clientThread strerror ops socket).run c) := by
  obtain ⟨errno, c', -, runs, failed⟩ | ⟨header, parts, c', receives, runs, succeeded⟩ :=
    run_clientThread strerror ops socket c freshData freshReq
  · rw [runs]
    exact .failed (by rw [failed.files, freshData]) (by rw [failed.files, freshReq]) failed
  · rw [runs]
    exact .succeeded receives succeeded

/-- The data file of another job is there, and that job is queued. -/
def otherJob : State :=
  ⟨[], fun path => if path = spoolPath datadir 4 then some (ascii "%!PS") else none, [], [⟨4, ⟨4, 0, [], []⟩⟩]⟩

/-- A text of two bytes that come one by one, for job 5. -/
def twoBytes : Socket :=
  delivery (PrintReq.encode ⟨2, prText, List.replicate usernmMax 97, List.replicate jobnmMax 98⟩) [ascii "A", ascii "B"]

/-- The thread of job 5 when the `write` of its control file has this result. -/
def otherThread (writeControl : Except Errno Nat) : EStateM.Result Unit State Unit :=
  (clientThread (fun _ => ascii "error") { noErrors with jobid := 5, writeControl } twoBytes).run otherJob

/-- A short `write` of the control file undoes everything, and a whole one submits the job. -/
theorem submission_atomic_other :
    (∃ c', otherThread (.ok 3) = .error () c' ∧ Failed otherJob c') ∧
      ∃ c' document req, otherThread (.ok sizeofReq) = .ok () c' ∧
        Succeeded otherJob c' 5 document req := by
  have fresh : otherJob.files (spoolPath datadir 5) = none ∧
    otherJob.files (spoolPath reqdir 5) = none := by decide +kernel
  have atomic (writeControl : Except Errno Nat) :
      Atomic { noErrors with jobid := 5, writeControl } twoBytes otherJob
      (otherThread writeControl) := submission_atomic _ _ _ _ fresh.1 fresh.2
  constructor
  · have fails : (otherThread (.ok 3) matches .error ..) = true := by decide +kernel
    have ends := atomic (.ok 3)
    generalize otherThread (.ok 3) = result at fails ends ⊢
    cases ends with
    | failed _ _ failed => exact ⟨_, rfl, failed⟩
    | succeeded _ _ => cases fails
  · have submits : (otherThread (.ok sizeofReq) matches .ok ..) = true := by decide +kernel
    have ends := atomic (.ok sizeofReq)
    generalize otherThread (.ok sizeofReq) = result at submits ends ⊢
    cases ends with
    | failed _ _ _ => cases submits
    | succeeded _ succeeded => exact ⟨_, _, _, rfl, succeeded⟩

end Apue.Printer.Submission
