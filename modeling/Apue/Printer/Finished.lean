import Apue.Printer.Ownership

/-! # Finished jobs and recovery

`build_qonstart` takes every whole control file for a pending job.  A job the printer thread is done
with must therefore lose its control file, and `printer_thread` removes it only after
`printer_status` has returned 1: the two cancel paths leave it.  A finished job stays finished in
the runs that take no cancel path, lose no `unlink` of a control file and are not killed between the
status and that `unlink`.
-/

namespace Apue.Printer

open Apue.Base

namespace Printd

/-- The action leaves no control file of a finished job behind. -/
def Clean (s : Printd) : SpoolAction → Prop
  | .printer .cancel => False
  | .printer (.unlinkControl ok) => ok = true
  | .main .kill => s.printer.finishing = none
  | _ => True

instance (s : Printd) : (action : SpoolAction) → Decidable (s.Clean action)
  | .printer .cancel => .isFalse id
  | .printer (.unlinkControl ok) => inferInstanceAs (Decidable (ok = true))
  | .main .kill => inferInstanceAs (Decidable (s.printer.finishing = none))
  | .printer .pickUp | .printer .updateJobno | .printer .openData | .printer (.status _) | .printer (.unlinkData _)
  | .printer .replaceJob | .client _ _ | .main (.start _) | .main .startBlind | .main .read | .main .skip
  | .main .readFails | .main (.unlinkControl _) | .main (.unlinkData _) | .main .ready =>
    .isTrue trivial

structure Settled (s : Printd) : Prop where
  owned : s.Owned
  cancelled : s.cancelled = []
  /-- A finished job has no control file, but for the one that is being removed. -/
  gone : ∀ id file, s.reqs.lookup id = some file → file.owner ∈ s.printed →
    ∃ job ∈ s.printer.finishing, job.owner = file.owner

theorem fresh_settled : fresh.Settled := ⟨fresh_owned, rfl, by simp [fresh]⟩

theorem Settled.client_moves {s s' : Printd} {c : Nat} {action : ClientAction} (settled : s.Settled)
    (moves : ClientMoves s c action s') : s'.Settled := by
  have owned' := settled.owned.client_moves moves
  have printed : s'.printed = s.printed := by cases moves <;> rfl
  have printer : s'.printer = s.printer := by cases moves <;> rfl
  have cancelled : s'.cancelled = s.cancelled := by cases moves <;> rfl
  refine ⟨owned', cancelled.trans settled.cancelled, fun id file here isPrinted => ?_⟩
  rw [printed] at isPrinted
  rw [printer]
  -- a thread that is still at work owns no finished job
  have notMine (jobid : Int) (works : (s.clients c).jobid = some jobid) : file.owner ≠ c := by
    intro same
    simp [(settled.owned.printed _ isPrinted).1, ← same] at works
  cases moves with
  | creatControl at_ =>
    simp only [setClient, Dir.lookup_insert] at here
    split at here
    · cases here
      exact absurd rfl (notMine _ (by rw [at_]; rfl))
    · exact settled.gone id file here isPrinted
  | writeControl at_ =>
    simp only [setClient, Dir.lookup_write] at here
    split at here
    · obtain ⟨old, _, rfl⟩ := Option.map_eq_some_iff.mp here
      exact absurd rfl (notMine _ (by rw [at_]; rfl))
    · exact settled.gone id file here isPrinted
  | unlinkControl at_ => exact settled.gone id file (lookup_of_unlink here) isPrinted
  | _ => exact settled.gone id file here isPrinted

theorem Settled.printer_moves {s s' : Printd} {action : PrinterAction} (settled : s.Settled)
    (clean : s.Clean (.printer action)) (moves : PrinterMoves s action s') : s'.Settled := by
  have owned' := settled.owned.printer_moves moves
  -- nothing is being removed yet, so no control file belongs to a finished job
  have none (notFinishing : s.printer.finishing = none) (id : Int) (file : Control)
      (here : s.reqs.lookup id = some file) : file.owner ∉ s.printed := by
    intro isPrinted
    obtain ⟨job, finishing, _⟩ := settled.gone id file here isPrinted
    simp [notFinishing] at finishing
  cases moves with
  | cancel at_ => exact clean.elim
  | statusOk at_ =>
    refine ⟨owned', settled.cancelled, fun id file here isPrinted => ?_⟩
    simp only [List.mem_append, List.mem_singleton] at isPrinted
    obtain old | same := isPrinted
    · exact absurd old (none (by simp [at_, Printing.finishing]) id file here)
    · exact ⟨_, rfl, same.symm⟩
  | @unlinkControl job ok at_ =>
    refine ⟨owned', settled.cancelled, fun id file here isPrinted => ?_⟩
    have removed : ok = true := clean
    simp only [removed, Dir.lookup_unlink, true_and] at here
    split at here
    · cases here
    · rename_i other
      obtain ⟨job', finishing, same⟩ := settled.gone id file here isPrinted
      obtain rfl : job = job' := by simpa [at_, Printing.finishing] using finishing
      -- the file of the job that was being removed stood at its own id
      have known := settled.owned.control id file here
      have known' := (settled.owned.memory job (by simp [jobs, at_, Printing.job])).1
      rw [same] at known'
      exact absurd (settled.owned.once _ _ _ known known') other
  | unlinkData at_ =>
    refine ⟨owned', settled.cancelled, fun id file here isPrinted => ?_⟩
    simpa [at_, Printing.finishing] using settled.gone id file here isPrinted
  | pickUp at_ _ | updateJobno at_ | openData at_ _ | statusFails at_ | replaceJob at_ =>
    refine ⟨owned', settled.cancelled, fun id file here isPrinted => ?_⟩
    exact absurd isPrinted (none (by simp [at_, Printing.finishing]) id file here)

theorem Settled.main_moves {s s' : Printd} {action : MainAction} (settled : s.Settled)
    (clean : s.Clean (.main action))
    (moves : MainMoves s action s') : s'.Settled := by
  have owned' := settled.owned.main_moves moves
  have printed : s'.printed = s.printed := by cases moves <;> rfl
  have cancelled : s'.cancelled = s.cancelled := by cases moves <;> rfl
  refine ⟨owned', cancelled.trans settled.cancelled, fun id file here isPrinted => ?_⟩
  rw [printed] at isPrinted
  cases moves with
  | kill up =>
    obtain ⟨job, finishing, _⟩ := settled.gone id file here isPrinted
    have idle : s.printer.finishing = none := clean
    simp [idle] at finishing
  | unlinkControl at_ => exact settled.gone id file (lookup_of_unlink here) isPrinted
  | _ => exact settled.gone id file here isPrinted

theorem Settled.step {s s' : Printd} {action : SpoolAction} (settled : s.Settled)
    (clean : s.Clean action)
    (steps : s.step action = some s') : s'.Settled := by
  cases action with
  | client c action => exact settled.client_moves (stepClient_moves steps)
  | printer action => exact settled.printer_moves clean (stepPrinter_moves steps)
  | main action => exact settled.main_moves clean (stepMain_moves steps)

end Printd

/-- In a run that leaves no control file of a finished job behind, `build_qonstart` puts no finished
job on the queue. -/
theorem finished_jobs_stay_finished {actions : List SpoolAction}
    (clean : ∀ s action, Takes Printd.step .fresh actions s action → s.Clean action) {s : Printd}
    {jobid : Int}
    {entries : List Int} {owner : Nat} {req : PrintReq}
    (takes : Takes Printd.step .fresh actions s (.main .read))
    (reads : s.main = .scanning (jobid :: entries))
    (file : s.reqs.lookup jobid = some ⟨owner, some req⟩) :
    owner ∉ s.printed ∧ owner ∉ s.cancelled := by
  have settled : s.Settled :=
    takes.visits.invariant Printd.Settled Printd.Clean Printd.fresh_settled
    (fun _ _ _ settled allowed steps => settled.step allowed steps) clean
  refine ⟨fun isPrinted => ?_, by simp [settled.cancelled]⟩
  obtain ⟨job, finishing, same⟩ := settled.gone jobid _ file isPrinted
  -- the job being removed is in memory, so its entry has been read already
  have inMemory : job ∈ s.jobs := by
    cases printer : s.printer <;> simp_all [Printd.jobs, Printing.job, Printing.finishing]
  have known := (settled.owned.memory job inMemory).1
  have known' := settled.owned.control jobid _ file
  rw [same] at known
  have entry := settled.owned.unread.2 job inMemory
  rw [settled.owned.once _ _ _ known known', reads] at entry
  simp [Main.entries] at entry

/-- A job is printed and removed, another one is left, and the daemon is restarted. -/
def printedAndRestarted : List SpoolAction :=
  [.main (.start []), .main .ready] ++ submission 0 ++ [.client 0 .addJob] ++
    [.pickUp, .updateJobno, .openData, .status true, .unlinkData true, .unlinkControl true].map
      .printer ++
    submission 1 ++ [.main .kill, .main (.start [2])]

theorem finished_jobs_stay_finished_printed :
    ∃ s req, execute Printd.step .fresh printedAndRestarted = some s ∧
    s.printed = [0] ∧ s.main = .scanning [2] ∧ s.reqs.lookup 2 = some ⟨1, some req⟩ ∧
      1 ∉ s.printed ∧ 1 ∉ s.cancelled := by
  have evaluates : (execute Printd.step .fresh printedAndRestarted).map
      (fun s => (s.printed, s.main, s.reqs.lookup 2)) =
        some ([0], .scanning [2], some ⟨1, some ⟨0, 0, [], []⟩⟩) := by decide
  have passes : allTaken Printd.step (fun s action => decide (s.Clean action)) .fresh
      (printedAndRestarted ++ [.main .read]) = true := by decide
  obtain ⟨s, runs, facts⟩ := Option.map_eq_some_iff.mp evaluates
  simp only [Prod.mk.injEq] at facts
  obtain ⟨printed, main, file⟩ := facts
  refine ⟨s, _, runs, printed, main, file, finished_jobs_stay_finished (fun s' action takes => ?_)
    ⟨printedAndRestarted, [], rfl, runs⟩ main file⟩
  simpa using takes.of_allTaken passes

/-- The data file of a job cannot be opened, and the daemon is restarted later. -/
def cancelledAndRestarted : List SpoolAction :=
  [.main (.start []), .main .ready] ++ submission 0 ++ [.client 0 .addJob] ++
    [.pickUp, .updateJobno, .cancel].map .printer ++ [.main .kill, .main (.start [1]), .main .read]

/-- The cancelled job is on the queue again. -/
theorem cancelled_job_returns : ∃ s, execute Printd.step .fresh cancelledAndRestarted = some s ∧
    0 ∈ s.cancelled ∧ s.queue.map Pending.owner = [0] := by
  have evaluates : (execute Printd.step .fresh cancelledAndRestarted).map
      (fun s => (s.cancelled, s.queue.map Pending.owner)) = some ([0], [0]) := by decide
  obtain ⟨s, runs, facts⟩ := Option.map_eq_some_iff.mp evaluates
  simp only [Prod.mk.injEq] at facts
  exact ⟨s, runs, by simp [facts.1], facts.2⟩

end Apue.Printer
