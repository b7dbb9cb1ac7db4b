import Apue.Base.Machine
import Apue.Printer.Jobs
import Mathlib.Data.List.AList

/-! # The spool directories across restarts of the print daemon

`printd` keeps a job in three places: its data and its control file in the spool directories, the
queue in memory, and the number of the next job in the job file.  This module is the daemon as a
machine over those: the client threads (`client_thread` from `get_newjobno` on), the printer thread
(`printer_thread` from the pick-up to the removal of the files), the main thread (`init_request`,
`build_qonstart`, the accept loop) and the end of the whole process.  Every file operation is an
action of its own and may fail, so a kill can come between any two of them; what it has completed
stays.

Jobs are named by the number of the submission they come from, since a job id can be handed out
twice.  The owner of a control file and the last fields of the state are that history; no action
looks at them.

The names in the directories are the decimal numerals of the job ids, which `build_qonstart` reads
back with `atol`.
-/

namespace Apue.Printer

open Apue.Base

/-- A directory whose entries are named by job ids. -/
abbrev Dir (β : Type) := AList fun _ : Int => β

namespace Dir

variable {β : Type}

/-- `unlink`. -/
def unlink (dir : Dir β) (jobid : Int) (ok : Bool) : Dir β := if ok then dir.erase jobid else dir

/-- A `write` to a file that is open: nothing of it is left in the directory when the file has been
unlinked. -/
def write (dir : Dir β) (jobid : Int) (change : β → β) : Dir β :=
  match dir.lookup jobid with
  | none => dir
  | some old => dir.insert jobid (change old)

theorem lookup_insert (dir : Dir β) (jobid id : Int) (value : β) :
    AList.lookup id (AList.insert jobid value dir) = if id =
      jobid then some value else dir.lookup id := by
  by_cases same : id = jobid
  · subst same
    simp
  · simp [same, AList.lookup_insert_ne same]

theorem lookup_unlink (dir : Dir β) (jobid id : Int) (ok : Bool) :
    (dir.unlink jobid ok).lookup id = if ok = true ∧ id = jobid then none else dir.lookup id := by
  cases ok with
  | false => simp [unlink]
  | true =>
    by_cases same : id = jobid
    · subst same
      simp [unlink]
    · simp [unlink, same, AList.lookup_erase_ne same]

theorem lookup_write (dir : Dir β) (jobid id : Int) (change : β → β) :
    (dir.write jobid change).lookup id = if id = jobid then (dir.lookup id).map
    change else dir.lookup id := by
  cases here : dir.lookup jobid with
  | none =>
    by_cases same : id = jobid
    · subst same
      simp [write, here]
    · simp [write, here, same]
  | some old =>
    simp only [write, here, lookup_insert]
    by_cases same : id = jobid
    · subst same
      simp [here]
    · simp [same]

theorem mem_iff (dir : Dir β) (id : Int) : id ∈ dir ↔ (dir.lookup id).isSome :=
  AList.lookup_isSome.symm

end Dir

/-- A control file; `req` is `none` while it is shorter than a `struct printreq`. -/
structure Control where
  owner : Nat
  req : Option PrintReq
  deriving DecidableEq

/-- A `struct job` on the queue. -/
structure Pending where
  owner : Nat
  jobid : Int
  req : PrintReq
  deriving DecidableEq

/-- Where a client thread is in `client_thread`. -/
inductive Client where
  | absent
  /-- Before `creat` of the data file. -/
  | numbered (jobid : Int) (req : PrintReq)
  /-- In the loop that reads the file; `first` as in the source. -/
  | receiving (jobid : Int) (req : PrintReq) (first : Bool)
  /-- Before `creat` of the control file. -/
  | received (jobid : Int) (req : PrintReq)
  /-- Before `write` of the control file. -/
  | created (jobid : Int) (req : PrintReq)
  /-- Before the response with `retcode` 0. -/
  | written (jobid : Int) (req : PrintReq)
  /-- Before `add_job`. -/
  | answered (jobid : Int) (req : PrintReq)
  /-- On an error path, before `unlink` of the control file, of the data file. -/
  | removing (jobid : Int)
  | removingData (jobid : Int)
  | ended
  deriving DecidableEq

/-- The job id a client thread works on. -/
def Client.jobid : Client → Option Int
  | .numbered jobid _ | .receiving jobid _ _ | .received jobid _ | .created jobid _ | .written jobid _
  | .answered jobid _ | .removing jobid | .removingData jobid => some jobid
  | .absent | .ended => none

/-- Where the printer thread is. -/
inductive Printing where
  | idle
  /-- Before `update_jobno`. -/
  | picked (job : Pending)
  /-- Before `open` of the data file. -/
  | opening (job : Pending)
  | sending (job : Pending)
  /-- `printer_status` has returned 1: before `unlink` of the data file, of the control file. -/
  | deletingData (job : Pending)
  | deleting (job : Pending)
  /-- Before `replace_job`. -/
  | deferring (job : Pending)
  deriving DecidableEq

/-- The job the printer thread has in hand. -/
def Printing.job : Printing → Option Pending
  | .picked job | .opening job | .sending job | .deletingData job | .deleting job | .deferring job => some job
  | .idle => none

/-- `printer_status` has returned 1 and the control file is still to be removed. -/
def Printing.finishing : Printing → Option Pending
  | .deletingData job | .deleting job => some job
  | _ => none

/-- The data file has been removed and the control file is still to be. -/
def Printing.unlinking : Printing → Option Pending
  | .deleting job => some job
  | _ => none

/-- Where the main thread is. -/
inductive Main where
  | down
  /-- In `build_qonstart`, with the entries that `readdir` has still to return. -/
  | scanning (entries : List Int)
  /-- Before `unlink` of a short control file, of its data file. -/
  | clearing (jobid : Int) (entries : List Int)
  | clearingData (jobid : Int) (entries : List Int)
  | accepting
  deriving DecidableEq

/-- The entries `build_qonstart` has still to look at. -/
def Main.entries : Main → List Int
  | .scanning entries | .clearing _ entries | .clearingData _ entries => entries
  | .down | .accepting => []

structure Printd where
  data : Dir Bytes
  reqs : Dir Control
  jobfile : Bytes
  nextjob : Int
  main : Main
  clients : Nat → Client
  queue : List Pending
  printer : Printing
  /-- Which submission was given which job id. -/
  issued : List (Nat × Int)
  /-- The bytes `tread` has returned to a client thread; the threads whose loop has ended. -/
  received : Nat → Bytes
  spooled : List Nat
  /-- The submissions that were sent `retcode` 0. -/
  acked : List Nat
  /-- The submissions for which `printer_status` has returned 1; those the printer thread has
  cancelled. -/
  printed : List Nat
  cancelled : List Nat
  /-- Those whose files the printer thread has begun to delete, now and before this start. -/
  begun : List Nat
  begunBefore : List Nat
  /-- What `build_qonstart` of this start has put on the queue, and what the printer thread has
  freed since. -/
  recovered : List Nat
  dropped : List Nat

/-- Before the first start. -/
def Printd.fresh : Printd where
  data := ∅
  reqs := ∅
  jobfile := []
  nextjob := 0
  main := .down
  clients := fun _ => .absent
  queue := []
  printer := .idle
  issued := []
  received := fun _ => []
  spooled := []
  acked := []
  printed := []
  cancelled := []
  begun := []
  begunBefore := []
  recovered := []
  dropped := []

/-! ## The job number -/

/-- `"/var/spool/printer/jobno"`, which is what the buffer held before the job file was read into
it. -/
def jobFileName : Bytes :=
  [47, 118, 97, 114, 47, 115, 112, 111, 111, 108, 47, 112, 114, 105, 110, 116, 101, 114, 47, 106,
    111, 98, 110, 111]

def filenmsz : Nat := 64

/-- Bytes written at the start of a file or buffer. -/
def overlay (bytes old : Bytes) : Bytes := bytes ++ old.drop bytes.length

def initRequest (jobfile : Bytes) : Int :=
  let bytes := jobfile.take filenmsz
  if bytes.length = 0 then 1 else cInt (atol (overlay bytes (jobFileName ++ [0])))

def updateJobno (nextjob : Int) (jobfile : Bytes) : Bytes := overlay (decimalInt nextjob) jobfile

/-- `nextjob` after `get_newjobno`; an `int32_t` that overflows is negative. -/
def nextJobno (nextjob : Int) : Int :=
  if nextjob + 1 ≤ 0 ∨ 2 ^ 31 ≤ nextjob + 1 then 1 else nextjob + 1

/-! ## The actions -/

def prText : Nat := 1

/-- `strncmp(buf, "%!PS", 4) != 0` sets `PR_TEXT`. -/
def markText (buf : Bytes) (req : PrintReq) : PrintReq :=
  if buf.take 4 = [37, 33, 80, 83] then req else { req with flags := req.flags ||| prText }

inductive ClientAction where
  | submit (req : PrintReq)
  | creatData (ok : Bool)
  /-- `tread` has put `nr` bytes into `buf` and `write` has returned `nw`, `none` for -1. -/
  | receive (buf : Bytes) (nr : Nat) (nw : Option Nat)
  | endData
  | creatControl (ok : Bool)
  | writeControl (ok : Bool)
  | respond
  | addJob
  | unlinkControl (ok : Bool)
  | unlinkData (ok : Bool)
  deriving DecidableEq

inductive PrinterAction where
  | pickUp
  | updateJobno
  /-- `open` or `fstat` fails. -/
  | cancel
  | openData
  /-- The job is sent and `printer_status` returns `ok`, or something on the way fails. -/
  | status (ok : Bool)
  | unlinkData (ok : Bool)
  | unlinkControl (ok : Bool)
  | replaceJob
  deriving DecidableEq

inductive MainAction where
  /-- `init_request` and `opendir`, with the order in which `readdir` will return the entries. -/
  | start (entries : List Int)
  /-- `opendir` fails. -/
  | startBlind
  /-- The control file of the next entry is read. -/
  | read
  /-- It cannot be opened, or cannot be read. -/
  | skip
  | readFails
  | unlinkControl (ok : Bool)
  | unlinkData (ok : Bool)
  /-- `readdir` returns `NULL`. -/
  | ready
  | kill
  deriving DecidableEq

inductive SpoolAction where
  | client (c : Nat) (action : ClientAction)
  | printer (action : PrinterAction)
  | main (action : MainAction)
  deriving DecidableEq

namespace Printd

def setClient (s : Printd) (c : Nat) (client : Client) : Printd :=
  { s with clients := Function.update s.clients c client }

def stepClient (s : Printd) (c : Nat) : ClientAction → Option Printd
  | .submit req =>
    match s.main, s.clients c with
    | .accepting, .absent => some ({ s with
        nextjob := nextJobno s.nextjob
        issued := s.issued ++ [(c, s.nextjob)] }.setClient c (.numbered s.nextjob req))
    | _, _ => none
  | .creatData ok =>
    match s.clients c with
    | .numbered jobid req =>
      if ok then some ({ s with data := s.data.insert jobid [] }.setClient c
        (.receiving jobid req true))
      else some (s.setClient c .ended)
    | _ => none
  | .receive buf nr nw =>
    match s.clients c with
    | .receiving jobid req first =>
      if 0 < nr ∧ nr ≤ buf.length ∧ nw.getD 0 ≤ nr then
        let req := if first then markText buf req else req
        let s := { s with
          received := Function.update s.received c (s.received c ++ buf.take nr)
          data := s.data.write jobid (· ++ buf.take (nw.getD 0)) }
        if nw = some nr then some (s.setClient c (.receiving jobid req false))
        else some (s.setClient c (.removingData jobid))
      else none
    | _ => none
  | .endData =>
    match s.clients c with
    | .receiving jobid req _ =>
      some ({ s with spooled := s.spooled ++ [c] }.setClient c (.received jobid req))
    | _ => none
  | .creatControl ok =>
    match s.clients c with
    | .received jobid req =>
      if ok then some ({ s with reqs := s.reqs.insert jobid ⟨c, none⟩ }.setClient c
        (.created jobid req))
      else some (s.setClient c (.removingData jobid))
    | _ => none
  | .writeControl ok =>
    match s.clients c with
    | .created jobid req =>
      if ok then some ({ s with reqs := s.reqs.write jobid fun _ => ⟨c, some req⟩ }.setClient c
        (.written jobid req))
      else some (s.setClient c (.removing jobid))
    | _ => none
  | .respond =>
    match s.clients c with
    | .written jobid req =>
      some ({ s with acked := s.acked ++ [c] }.setClient c (.answered jobid req))
    | _ => none
  | .addJob =>
    match s.clients c with
    | .answered jobid req =>
      some ({ s with queue := s.queue ++ [Pending.mk c jobid req] }.setClient c .ended)
    | _ => none
  | .unlinkControl ok =>
    match s.clients c with
    | .removing jobid =>
      some ({ s with reqs := s.reqs.unlink jobid ok }.setClient c (.removingData jobid))
    | _ => none
  | .unlinkData ok =>
    match s.clients c with
    | .removingData jobid => some ({ s with data := s.data.unlink jobid ok }.setClient c .ended)
    | _ => none

def stepPrinter (s : Printd) : PrinterAction → Option Printd
  | .pickUp =>
    match s.printer, s.queue with
    | .idle, job :: queue => some { s with queue := queue, printer := .picked job }
    | _, _ => none
  | .updateJobno =>
    match s.printer with
    | .picked job =>
      some { s with jobfile := Printer.updateJobno s.nextjob s.jobfile, printer := .opening job }
    | _ => none
  | .cancel =>
    match s.printer with
    | .opening job => some { s with
        printer := .idle
        cancelled := s.cancelled ++ [job.owner]
        dropped := s.dropped ++ [job.owner] }
    | _ => none
  | .openData =>
    match s.printer with
    | .opening job => if job.jobid ∈ s.data then some { s with printer := .sending job } else none
    | _ => none
  | .status ok =>
    match s.printer with
    | .sending job =>
      if ok then some { s with printer := .deletingData job, printed := s.printed ++ [job.owner] }
      else some { s with printer := .deferring job }
    | _ => none
  | .unlinkData ok =>
    match s.printer with
    | .deletingData job => some { s with
        data := s.data.unlink job.jobid ok
        printer := .deleting job
        begun := s.begun ++ [job.owner] }
    | _ => none
  | .unlinkControl ok =>
    match s.printer with
    | .deleting job => some { s with
        reqs := s.reqs.unlink job.jobid ok
        printer := .idle
        dropped := s.dropped ++ [job.owner] }
    | _ => none
  | .replaceJob =>
    match s.printer with
    | .deferring job => some { s with queue := job :: s.queue, printer := .idle }
    | _ => none

/-- The process ends: every thread is gone, and the queue with them. -/
def killed (s : Printd) : Printd :=
  { s with
    main := .down
    clients := fun c => if s.clients c = .absent then .absent else .ended
    queue := []
    printer := .idle }

/-- `init_request`; the printer thread is created before `build_qonstart` is called. -/
def started (s : Printd) (main : Main) : Printd :=
  { s with nextjob := initRequest s.jobfile, main := main, begunBefore := s.begun, recovered := [], dropped := [] }

def stepMain (s : Printd) : MainAction → Option Printd
  | .start entries =>
    match s.main with
    | .down => if entries.Perm s.reqs.keys then some (s.started (.scanning entries)) else none
    | _ => none
  | .startBlind =>
    match s.main with
    | .down => some (s.started .accepting)
    | _ => none
  | .read =>
    match s.main with
    | .scanning (jobid :: entries) =>
      match s.reqs.lookup jobid with
      | none => none
      | some ⟨_, none⟩ => some { s with main := .clearing jobid entries }
      | some ⟨owner, some req⟩ => some { s with
          main := .scanning entries
          queue := s.queue ++ [⟨owner, jobid, req⟩]
          recovered := s.recovered ++ [owner] }
    | _ => none
  | .skip =>
    match s.main with
    | .scanning (_ :: entries) => some { s with main := .scanning entries }
    | _ => none
  | .readFails =>
    match s.main with
    | .scanning (jobid :: entries) =>
      if jobid ∈ s.reqs then some { s with main := .clearing jobid entries } else none
    | _ => none
  | .unlinkControl ok =>
    match s.main with
    | .clearing jobid entries =>
      some { s with reqs := s.reqs.unlink jobid ok, main := .clearingData jobid entries }
    | _ => none
  | .unlinkData ok =>
    match s.main with
    | .clearingData jobid entries =>
      some { s with data := s.data.unlink jobid ok, main := .scanning entries }
    | _ => none
  | .ready =>
    match s.main with
    | .scanning [] => some { s with main := .accepting }
    | _ => none
  | .kill =>
    match s.main with
    | .down => none
    | _ => some s.killed

def step (s : Printd) : SpoolAction → Option Printd
  | .client c action => s.stepClient c action
  | .printer action => s.stepPrinter action
  | .main action => s.stepMain action

end Printd

/-- A client sends an empty file and is answered. -/
def submission (c : Nat) : List SpoolAction :=
  [.submit ⟨0, 0, [], []⟩, .creatData true, .endData, .creatControl true, .writeControl true,
    .respond].map (.client c)

namespace Printd

/-! ## What a step can be -/

inductive ClientMoves (s : Printd) (c : Nat) : ClientAction → Printd → Prop where
  | submit (req : PrintReq) (accepting : s.main = .accepting) (absent : s.clients c = .absent) :
      ClientMoves s c (.submit req) ({ s with
        nextjob := nextJobno s.nextjob
        issued := s.issued ++ [(c, s.nextjob)] }.setClient c (.numbered s.nextjob req))
  | creatData {jobid : Int} {req : PrintReq} (at_ : s.clients c = .numbered jobid req) :
      ClientMoves s c (.creatData true) ({ s with data := s.data.insert jobid [] }.setClient c
        (.receiving jobid req true))
  | creatDataFails {jobid : Int} {req : PrintReq} (at_ : s.clients c = .numbered jobid req) :
      ClientMoves s c (.creatData false) (s.setClient c .ended)
  | receive {jobid : Int} {req : PrintReq} {first : Bool} {buf : Bytes} {nr : Nat} (req' : PrintReq)
      (at_ : s.clients c = .receiving jobid req first) :
      ClientMoves s c (.receive buf nr (some nr)) ({ s with
        received := Function.update s.received c (s.received c ++ buf.take nr)
        data := s.data.write jobid (· ++ buf.take nr) }.setClient c (.receiving jobid req' false))
  | receiveFails {jobid : Int} {req : PrintReq} {first : Bool} {buf : Bytes} {nr : Nat} {nw : Option Nat}
      (at_ : s.clients c = .receiving jobid req first) :
      ClientMoves s c (.receive buf nr nw) ({ s with
        received := Function.update s.received c (s.received c ++ buf.take nr)
        data := s.data.write jobid (· ++ buf.take (nw.getD 0)) }.setClient c (.removingData jobid))
  | endData {jobid : Int} {req : PrintReq} {first : Bool} (at_ : s.clients c = .receiving jobid req first) :
      ClientMoves s c .endData
        ({ s with spooled := s.spooled ++ [c] }.setClient c (.received jobid req))
  | creatControl {jobid : Int} {req : PrintReq} (at_ : s.clients c = .received jobid req) :
      ClientMoves s c (.creatControl true)
        ({ s with reqs := s.reqs.insert jobid ⟨c, none⟩ }.setClient c (.created jobid req))
  | creatControlFails {jobid : Int} {req : PrintReq} (at_ : s.clients c = .received jobid req) :
      ClientMoves s c (.creatControl false) (s.setClient c (.removingData jobid))
  | writeControl {jobid : Int} {req : PrintReq} (at_ : s.clients c = .created jobid req) :
      ClientMoves s c (.writeControl true)
        ({ s with reqs := s.reqs.write jobid fun _ => ⟨c, some req⟩ }.setClient c
        (.written jobid req))
  | writeControlFails {jobid : Int} {req : PrintReq} (at_ : s.clients c = .created jobid req) :
      ClientMoves s c (.writeControl false) (s.setClient c (.removing jobid))
  | respond {jobid : Int} {req : PrintReq} (at_ : s.clients c = .written jobid req) :
      ClientMoves s c .respond
        ({ s with acked := s.acked ++ [c] }.setClient c (.answered jobid req))
  | addJob {jobid : Int} {req : PrintReq} (at_ : s.clients c = .answered jobid req) :
      ClientMoves s c .addJob
        ({ s with queue := s.queue ++ [Pending.mk c jobid req] }.setClient c .ended)
  | unlinkControl {jobid : Int} {ok : Bool} (at_ : s.clients c = .removing jobid) :
      ClientMoves s c (.unlinkControl ok) ({ s with reqs := s.reqs.unlink jobid ok }.setClient c
        (.removingData jobid))
  | unlinkData {jobid : Int} {ok : Bool} (at_ : s.clients c = .removingData jobid) :
      ClientMoves s c (.unlinkData ok)
        ({ s with data := s.data.unlink jobid ok }.setClient c .ended)

theorem stepClient_moves {s s' : Printd} {c : Nat} {action : ClientAction}
    (steps : s.stepClient c action = some s') :
    ClientMoves s c action s' := by
  cases action with
  | submit req =>
    simp only [stepClient] at steps
    split at steps <;> try contradiction
    rename_i accepting absent
    cases steps
    exact .submit req accepting absent
  | creatData ok =>
    cases at_ : s.clients c <;> simp only [stepClient, at_] at steps <;> try contradiction
    cases ok <;> cases steps
    · exact .creatDataFails at_
    · exact .creatData at_
  | receive buf nr nw =>
    cases at_ : s.clients c <;> simp only [stepClient, at_] at steps <;> try contradiction
    split at steps <;> try contradiction
    split at steps
    · rename_i whole
      subst whole
      cases steps
      exact .receive _ at_
    · cases steps
      exact .receiveFails at_
  | endData =>
    cases at_ : s.clients c <;> simp only [stepClient, at_] at steps <;> try contradiction
    cases steps
    exact .endData at_
  | creatControl ok =>
    cases at_ : s.clients c <;> simp only [stepClient, at_] at steps <;> try contradiction
    cases ok <;> cases steps
    · exact .creatControlFails at_
    · exact .creatControl at_
  | writeControl ok =>
    cases at_ : s.clients c <;> simp only [stepClient, at_] at steps <;> try contradiction
    cases ok <;> cases steps
    · exact .writeControlFails at_
    · exact .writeControl at_
  | respond =>
    cases at_ : s.clients c <;> simp only [stepClient, at_] at steps <;> try contradiction
    cases steps
    exact .respond at_
  | addJob =>
    cases at_ : s.clients c <;> simp only [stepClient, at_] at steps <;> try contradiction
    cases steps
    exact .addJob at_
  | unlinkControl ok =>
    cases at_ : s.clients c <;> simp only [stepClient, at_] at steps <;> try contradiction
    cases steps
    exact .unlinkControl at_
  | unlinkData ok =>
    cases at_ : s.clients c <;> simp only [stepClient, at_] at steps <;> try contradiction
    cases steps
    exact .unlinkData at_

inductive PrinterMoves (s : Printd) : PrinterAction → Printd → Prop where
  | pickUp {job : Pending} {queue : List Pending} (at_ : s.printer = .idle) (head : s.queue = job :: queue) :
      PrinterMoves s .pickUp { s with queue := queue, printer := .picked job }
  | updateJobno {job : Pending} (at_ : s.printer = .picked job) :
      PrinterMoves s .updateJobno { s with
        jobfile := Printer.updateJobno s.nextjob s.jobfile, printer := .opening job }
  | cancel {job : Pending} (at_ : s.printer = .opening job) :
      PrinterMoves s .cancel { s with
        printer := .idle
        cancelled := s.cancelled ++ [job.owner]
        dropped := s.dropped ++ [job.owner] }
  | openData {job : Pending} (at_ : s.printer = .opening job) (present : job.jobid ∈ s.data) :
      PrinterMoves s .openData { s with printer := .sending job }
  | statusOk {job : Pending} (at_ : s.printer = .sending job) :
      PrinterMoves s (.status true) { s with printer := .deletingData job, printed := s.printed ++
        [job.owner] }
  | statusFails {job : Pending} (at_ : s.printer = .sending job) :
      PrinterMoves s (.status false) { s with printer := .deferring job }
  | unlinkData {job : Pending} {ok : Bool} (at_ : s.printer = .deletingData job) :
      PrinterMoves s (.unlinkData ok) { s with
        data := s.data.unlink job.jobid ok
        printer := .deleting job
        begun := s.begun ++ [job.owner] }
  | unlinkControl {job : Pending} {ok : Bool} (at_ : s.printer = .deleting job) :
      PrinterMoves s (.unlinkControl ok) { s with
        reqs := s.reqs.unlink job.jobid ok
        printer := .idle
        dropped := s.dropped ++ [job.owner] }
  | replaceJob {job : Pending} (at_ : s.printer = .deferring job) :
      PrinterMoves s .replaceJob { s with queue := job :: s.queue, printer := .idle }

theorem stepPrinter_moves {s s' : Printd} {action : PrinterAction}
    (steps : s.stepPrinter action = some s') :
    PrinterMoves s action s' := by
  cases action with
  | pickUp =>
    simp only [stepPrinter] at steps
    split at steps <;> try contradiction
    rename_i idle head
    cases steps
    exact .pickUp idle head
  | status ok =>
    cases at_ : s.printer <;> simp only [stepPrinter, at_] at steps <;> try contradiction
    cases ok <;> cases steps
    · exact .statusFails at_
    · exact .statusOk at_
  | openData =>
    cases at_ : s.printer <;> simp only [stepPrinter, at_] at steps <;> try contradiction
    split at steps <;> try contradiction
    rename_i present
    cases steps
    exact .openData at_ present
  | updateJobno =>
    cases at_ : s.printer <;> simp only [stepPrinter, at_] at steps <;> try contradiction
    cases steps
    exact .updateJobno at_
  | cancel =>
    cases at_ : s.printer <;> simp only [stepPrinter, at_] at steps <;> try contradiction
    cases steps
    exact .cancel at_
  | unlinkData ok =>
    cases at_ : s.printer <;> simp only [stepPrinter, at_] at steps <;> try contradiction
    cases steps
    exact .unlinkData at_
  | unlinkControl ok =>
    cases at_ : s.printer <;> simp only [stepPrinter, at_] at steps <;> try contradiction
    cases steps
    exact .unlinkControl at_
  | replaceJob =>
    cases at_ : s.printer <;> simp only [stepPrinter, at_] at steps <;> try contradiction
    cases steps
    exact .replaceJob at_

inductive MainMoves (s : Printd) : MainAction → Printd → Prop where
  | start {entries : List Int} (at_ : s.main = .down) (listing : entries.Perm s.reqs.keys) :
      MainMoves s (.start entries) (s.started (.scanning entries))
  | startBlind (at_ : s.main = .down) : MainMoves s .startBlind (s.started .accepting)
  | readShort {jobid : Int} {entries : List Int} {owner : Nat} (at_ : s.main = .scanning (jobid :: entries))
      (file : s.reqs.lookup jobid = some ⟨owner, none⟩) :
      MainMoves s .read { s with main := .clearing jobid entries }
  | read {jobid : Int} {entries : List Int} {owner : Nat} {req : PrintReq}
      (at_ : s.main = .scanning (jobid :: entries)) (file : s.reqs.lookup jobid =
        some ⟨owner, some req⟩) :
      MainMoves s .read { s with
        main := .scanning entries
        queue := s.queue ++ [⟨owner, jobid, req⟩]
        recovered := s.recovered ++ [owner] }
  | skip {jobid : Int} {entries : List Int} (at_ : s.main = .scanning (jobid :: entries)) :
      MainMoves s .skip { s with main := .scanning entries }
  | readFails {jobid : Int} {entries : List Int} (at_ : s.main = .scanning (jobid :: entries)) (present : jobid ∈ s.reqs) :
      MainMoves s .readFails { s with main := .clearing jobid entries }
  | unlinkControl {jobid : Int} {entries : List Int} {ok : Bool} (at_ : s.main = .clearing jobid entries) :
      MainMoves s (.unlinkControl ok) { s with reqs := s.reqs.unlink jobid ok, main := .clearingData jobid entries }
  | unlinkData {jobid : Int} {entries : List Int} {ok : Bool} (at_ : s.main = .clearingData jobid entries) :
      MainMoves s (.unlinkData ok) { s with data := s.data.unlink jobid ok, main := .scanning entries }
  | ready (at_ : s.main = .scanning []) : MainMoves s .ready { s with main := .accepting }
  | kill (up : s.main ≠ .down) : MainMoves s .kill s.killed

theorem stepMain_moves {s s' : Printd} {action : MainAction} (steps : s.stepMain action = some s') :
    MainMoves s action s' := by
  cases action with
  | start entries =>
    cases at_ : s.main <;> simp only [stepMain, at_] at steps <;> try contradiction
    split at steps <;> try contradiction
    rename_i listing
    cases steps
    exact .start at_ listing
  | startBlind =>
    cases at_ : s.main <;> simp only [stepMain, at_] at steps <;> try contradiction
    cases steps
    exact .startBlind at_
  | read =>
    simp only [stepMain] at steps
    split at steps <;> try contradiction
    rename_i at_
    split at steps <;> try contradiction
    · rename_i file
      cases steps
      exact .readShort at_ file
    · rename_i file
      cases steps
      exact .read at_ file
  | skip =>
    simp only [stepMain] at steps
    split at steps <;> try contradiction
    rename_i at_
    cases steps
    exact .skip at_
  | readFails =>
    simp only [stepMain] at steps
    split at steps <;> try contradiction
    rename_i at_
    split at steps <;> try contradiction
    rename_i present
    cases steps
    exact .readFails at_ present
  | unlinkControl ok =>
    cases at_ : s.main <;> simp only [stepMain, at_] at steps <;> try contradiction
    cases steps
    exact .unlinkControl at_
  | unlinkData ok =>
    cases at_ : s.main <;> simp only [stepMain, at_] at steps <;> try contradiction
    cases steps
    exact .unlinkData at_
  | ready =>
    simp only [stepMain] at steps
    split at steps <;> try contradiction
    rename_i at_
    cases steps
    exact .ready at_
  | kill =>
    simp only [stepMain] at steps
    split at steps <;> try contradiction
    rename_i up
    cases steps
    exact .kill (by simpa using up)

end Printd

end Apue.Printer
