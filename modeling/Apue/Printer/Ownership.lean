import Apue.Printer.Spool

/-! # Who owns what in the spool directories

In every run of the daemon, whatever its restarts and its job numbers, a submission has one job id,
a control file carries the id of its owner, and a job that is in memory or that the printer thread
has printed is past its client thread.
-/

namespace Apue.Printer

open Apue.Base

namespace Printd

/-- The jobs the daemon has in memory. -/
def jobs (s : Printd) : List Pending := s.printer.job.toList ++ s.queue

structure Owned (s : Printd) : Prop where
  once : ∀ c id id', (c, id) ∈ s.issued → (c, id') ∈ s.issued → id = id'
  absent : ∀ c id, s.clients c = .absent → (c, id) ∉ s.issued
  client : ∀ c id, (s.clients c).jobid = some id → (c, id) ∈ s.issued
  control : ∀ id file, s.reqs.lookup id = some file → (file.owner, id) ∈ s.issued
  memory : ∀ job ∈ s.jobs, (job.owner, job.jobid) ∈ s.issued ∧ (s.clients job.owner).jobid = none
  printed : ∀ c ∈ s.printed, (s.clients c).jobid = none ∧ ∃ id, (c, id) ∈ s.issued
  /-- What `build_qonstart` has still to read is not in memory yet, and no client thread runs beside
  it. -/
  unread : s.main.entries.Nodup ∧ ∀ job ∈ s.jobs, job.jobid ∉ s.main.entries
  quiet : s.main ≠ .accepting → ∀ c, (s.clients c).jobid = none
  stopped : s.main = .down → s.jobs = []

theorem fresh_owned : fresh.Owned where
  once := by simp [fresh]
  absent := by simp [fresh]
  client := by simp [fresh, Client.jobid]
  control := by simp [fresh]
  memory := by simp [jobs, fresh, Printing.job]
  printed := by simp [fresh]
  unread := by simp [fresh, Main.entries]
  quiet := by simp [fresh, Client.jobid]
  stopped := by simp [jobs, fresh, Printing.job]

theorem Owned.accepting {s : Printd} (owned : s.Owned) {c : Nat} {id : Int}
    (works : (s.clients c).jobid = some id) :
    s.main = .accepting := by
  by_contra other
  simp [owned.quiet other c] at works

/-- A client thread that works on a job goes on. -/
theorem Owned.stepClient {s s' : Printd} {c : Nat} {client : Client} {jobid : Int} (owned : s.Owned)
    (clients : s'.clients = Function.update s.clients c client) (issued : s'.issued = s.issued)
    (main : s'.main = s.main)
    (printed : s'.printed = s.printed) (before : (s.clients c).jobid = some jobid)
    (after : ∀ id ∈ client.jobid, id = jobid)
    (present : client ≠ .absent)
    (control : ∀ id file, s'.reqs.lookup id = some file → (file.owner, id) ∈ s.issued ∨
    file.owner = c ∧ id = jobid)
    (jobs : ∀ job ∈ s'.jobs, job ∈ s.jobs ∨ job.owner = c ∧ job.jobid = jobid ∧
    client.jobid = none) : s'.Owned := by
  have mine : (c, jobid) ∈ s.issued := owned.client c jobid before
  have accepting : s'.main = .accepting := main.trans (owned.accepting before)
  have passed (c' : Nat) (past : (s.clients c').jobid = none) : (s'.clients c').jobid = none := by
    have other : c' ≠ c := by
      intro same
      simp [same, before] at past
    simpa [clients, other] using past
  refine ⟨?_, ?_, ?_, ?_, ?_, ?_, ?_, ?_, by simp [accepting]⟩
  · simpa [issued] using owned.once
  · intro c' id isAbsent
    rw [issued]
    by_cases same : c' = c
    · exact absurd (by simpa [clients, same] using isAbsent) present
    · exact owned.absent c' id (by simpa [clients, same] using isAbsent)
  · intro c' id works
    rw [issued]
    by_cases same : c' = c
    · subst same
      rw [after id (by simpa [clients] using works)]
      exact mine
    · exact owned.client c' id (by simpa [clients, same] using works)
  · intro id file here
    rw [issued]
    obtain known | ⟨rfl, rfl⟩ := control id file here
    · exact known
    · exact mine
  · intro job member
    rw [issued]
    obtain old | ⟨rfl, rfl, past⟩ := jobs job member
    · obtain ⟨known, past⟩ := owned.memory job old
      exact ⟨known, passed _ past⟩
    · exact ⟨mine, by simpa [clients] using past⟩
  · intro c' member
    rw [printed] at member
    obtain ⟨past, id, known⟩ := owned.printed c' member
    exact ⟨passed c' past, id, by rw [issued]; exact known⟩
  · simp [accepting, Main.entries]
  · intro other
    exact absurd accepting other

theorem Owned.submit {s : Printd} {c : Nat} {req : PrintReq} (owned : s.Owned)
    (accepting : s.main = .accepting)
    (absent : s.clients c = .absent) :
    Owned ({ s with
      nextjob := nextJobno s.nextjob
      issued := s.issued ++ [(c, s.nextjob)] }.setClient c (.numbered s.nextjob req)) := by
  have new (id : Int) : (c, id) ∉ s.issued := owned.absent c id absent
  have other (c' : Nat) (id : Int) (known : (c', id) ∈ s.issued) : c' ≠ c :=
    fun same => new id (same ▸ known)
  refine ⟨?_, ?_, ?_, ?_, ?_, ?_, ?_, ?_, by simp [setClient, accepting]⟩
  · intro c' id id' first second
    simp only [setClient, List.mem_append, List.mem_singleton, Prod.mk.injEq] at first second
    obtain known | ⟨rfl, rfl⟩ := first
    · obtain known' | ⟨rfl, rfl⟩ := second
      · exact owned.once c' id id' known known'
      · exact absurd known (new id)
    · obtain known' | ⟨_, rfl⟩ := second
      · exact absurd known' (new id')
      · rfl
  · intro c' id isAbsent
    have differs : c' ≠ c := by
      intro same
      simp [setClient, same] at isAbsent
    simp only [setClient, List.mem_append, List.mem_singleton, Prod.mk.injEq, differs,
      false_and, or_false]
    exact owned.absent c' id (by simpa [setClient, differs] using isAbsent)
  · intro c' id works
    by_cases same : c' = c
    · subst same
      simp only [setClient, Function.update_self, Client.jobid, Option.some.injEq] at works
      simp [setClient, works]
    · have known := owned.client c' id (by simpa [setClient, same] using works)
      simp [setClient, known]
  · intro id file here
    simp [setClient, owned.control id file here]
  · intro job member
    obtain ⟨known, past⟩ := owned.memory job member
    simp [setClient, known, other _ _ known, past]
  · intro c' member
    obtain ⟨past, id, known⟩ := owned.printed c' member
    exact ⟨by simpa [setClient, other c' id known] using past, id, by simp [setClient, known]⟩
  · exact owned.unread
  · intro notAccepting
    exact absurd accepting notAccepting

theorem lookup_of_unlink {β : Type} {dir : Dir β} {jobid id : Int} {ok : Bool} {file : β}
    (here : (dir.unlink jobid ok).lookup id = some file) : dir.lookup id = some file := by
  rw [Dir.lookup_unlink] at here
  split at here
  · cases here
  · exact here

/-- A thread other than a client's goes on: files and jobs only become fewer, and what is printed
was in memory. -/
theorem Owned.stepOther {s s' : Printd} (owned : s.Owned) (clients : s'.clients = s.clients)
    (issued : s'.issued = s.issued)
    (control : ∀ id file, s'.reqs.lookup id = some file → s.reqs.lookup id = some file)
    (jobs : ∀ job ∈ s'.jobs, job ∈ s.jobs)
    (printed : ∀ c ∈ s'.printed, c ∈ s.printed ∨ ∃ job ∈ s.jobs, job.owner = c)
    (entries : s'.main.entries.Sublist s.main.entries)
    (accepting : s'.main ≠ .accepting → s.main ≠ .accepting)
    (down : s'.main = .down → s.main = .down) : s'.Owned := by
  refine ⟨by simpa [issued] using owned.once, ?_, ?_, ?_, ?_, ?_, ?_, ?_, ?_⟩
  · simpa [issued, clients] using owned.absent
  · simpa [issued, clients] using owned.client
  · intro id file here
    rw [issued]
    exact owned.control id file (control id file here)
  · intro job member
    simpa [issued, clients] using owned.memory job (jobs job member)
  · intro c member
    obtain old | ⟨job, inMemory, rfl⟩ := printed c member
    · simpa [issued, clients] using owned.printed c old
    · obtain ⟨known, past⟩ := owned.memory job inMemory
      exact ⟨by rw [clients]; exact past, _, by rw [issued]; exact known⟩
  · exact ⟨owned.unread.1.sublist entries, fun job member inside =>
      owned.unread.2 job (jobs job member) (entries.subset inside)⟩
  · intro other
    rw [clients]
    exact owned.quiet (accepting other)
  · intro isDown
    have empty := owned.stopped (down isDown)
    exact List.eq_nil_iff_forall_not_mem.mpr
      fun job member => by simpa [empty] using jobs job member

theorem Owned.client_moves {s s' : Printd} {c : Nat} {action : ClientAction} (owned : s.Owned)
    (moves : ClientMoves s c action s') : s'.Owned := by
  have same (id : Int) (file : Control) (here : s.reqs.lookup id = some file) :
      (file.owner, id) ∈ s.issued :=
    owned.control id file here
  cases moves with
  | submit req accepting absent => exact owned.submit accepting absent
  | creatControl at_ =>
    refine owned.stepClient rfl rfl rfl rfl (by rw [at_]; rfl) (by simp [Client.jobid]) (by simp) ?_
      (fun job member => .inl member)
    intro id file here
    simp only [setClient, Dir.lookup_insert] at here
    split at here
    · rename_i eq
      cases here
      exact .inr ⟨rfl, eq⟩
    · exact .inl (same id file here)
  | writeControl at_ =>
    refine owned.stepClient rfl rfl rfl rfl (by rw [at_]; rfl) (by simp [Client.jobid]) (by simp) ?_
      (fun job member => .inl member)
    intro id file here
    simp only [setClient, Dir.lookup_write] at here
    split at here
    · rename_i eq
      obtain ⟨old, _, rfl⟩ := Option.map_eq_some_iff.mp here
      exact .inr ⟨rfl, eq⟩
    · exact .inl (same id file here)
  | unlinkControl at_ =>
    exact owned.stepClient rfl rfl rfl rfl (by rw [at_]; rfl) (by simp [Client.jobid]) (by simp)
      (fun id file here => .inl (same id file (lookup_of_unlink here)))
        (fun job member => .inl member)
  | addJob at_ =>
    refine owned.stepClient rfl rfl rfl rfl (by rw [at_]; rfl) (by simp [Client.jobid]) (by simp)
      (fun id file here => .inl (same id file here)) ?_
    intro job member
    simp only [setClient, jobs, List.mem_append, List.mem_singleton] at member ⊢
    obtain held | queued | rfl := member
    · exact .inl (.inl held)
    · exact .inl (.inr queued)
    · exact .inr ⟨rfl, rfl, rfl⟩
  | creatData at_ | creatDataFails at_ | receive _ at_ | receiveFails at_ | endData at_ | creatControlFails at_
  | writeControlFails at_ | respond at_ | unlinkData at_ =>
    exact owned.stepClient rfl rfl rfl rfl (by rw [at_]; rfl) (by simp [Client.jobid]) (by simp)
      (fun id file here => .inl (same id file here)) (fun job member => .inl member)

theorem Owned.printer_moves {s s' : Printd} {action : PrinterAction} (owned : s.Owned)
    (moves : PrinterMoves s action s') :
    s'.Owned := by
  cases moves with
  | unlinkControl at_ =>
    exact owned.stepOther rfl rfl (fun id file => lookup_of_unlink)
      (by simp +contextual [jobs, at_, Printing.job])
      (fun c member => .inl member)
      (.refl _) id id
  | statusOk at_ =>
    refine owned.stepOther rfl rfl (fun id file here => here) (by simp [jobs, at_, Printing.job]) ?_
      (.refl _) id id
    intro c member
    simp only [List.mem_append, List.mem_singleton] at member
    obtain old | rfl := member
    · exact .inl old
    · exact .inr ⟨_, by simp [jobs, at_, Printing.job], rfl⟩
  | pickUp at_ head =>
    exact owned.stepOther rfl rfl (fun id file here =>
      here) (by simp [jobs, at_, head, Printing.job])
      (fun c member => .inl member)
      (.refl _) id id
  | updateJobno at_ | cancel at_ | openData at_ _ | statusFails at_ | unlinkData at_ | replaceJob at_ =>
    exact owned.stepOther rfl rfl (fun id file here =>
      here) (by simp +contextual [jobs, at_, Printing.job])
      (fun c member => .inl member)
      (.refl _) id id

theorem Owned.started {s : Printd} {main : Main} (owned : s.Owned) (down : s.main = .down)
    (entries : main.entries.Nodup) :
    (s.started main).Owned := by
  have none : (s.started main).jobs = [] := owned.stopped down
  refine ⟨owned.once, owned.absent, owned.client,
    owned.control, by simp [none], owned.printed, ⟨entries, by simp [none]⟩, ?_,
    fun _ => none⟩
  intro _
  exact owned.quiet (by simp [down])

theorem Owned.killed {s : Printd} (owned : s.Owned) : s.killed.Owned := by
  have past (c : Nat) : (s.killed.clients c).jobid = none := by
    simp only [Printd.killed]
    split <;> rfl
  have none : s.killed.jobs = [] := by simp [jobs, Printd.killed, Printing.job]
  refine ⟨owned.once, ?_, ?_,
    owned.control, by simp [none], ?_, by simp [Printd.killed, Main.entries], fun _ => past,
    fun _ => none⟩
  · intro c id isAbsent
    simp only [Printd.killed] at isAbsent
    split at isAbsent
    · exact owned.absent c id ‹_›
    · cases isAbsent
  · simp [past]
  · intro c member
    exact ⟨past c, (owned.printed c member).2⟩

/-- A control file is read: the job it names was not in memory, and its entry is not read again. -/
theorem Owned.recovered {s : Printd} {jobid : Int} {entries : List Int} {owner : Nat}
    {req : PrintReq} (owned : s.Owned)
    (at_ : s.main = .scanning (jobid :: entries))
    (file : s.reqs.lookup jobid = some ⟨owner, some req⟩) :
    Owned { s with
      main := .scanning entries
      queue := s.queue ++ [⟨owner, jobid, req⟩]
      recovered := s.recovered ++ [owner] } := by
  have quiet := owned.quiet (by simp [at_])
  have unread := owned.unread
  simp only [at_, Main.entries, List.nodup_cons] at unread
  refine ⟨owned.once, owned.absent, owned.client, owned.control, ?_, owned.printed,
    ⟨unread.1.2, ?_⟩, fun _ => quiet, by simp⟩
  · intro job member
    simp only [jobs, List.mem_append, List.mem_singleton] at member
    obtain held | queued | rfl := member
    · exact owned.memory job (by simp [jobs, held])
    · exact owned.memory job (by simp [jobs, queued])
    · exact ⟨owned.control jobid _ file, quiet owner⟩
  · intro job member
    simp only [jobs, List.mem_append, List.mem_singleton] at member
    obtain held | queued | rfl := member
    · exact fun inside =>
        unread.2 job (by simp [jobs, held]) (by simp [Main.entries] at inside; simp [inside])
    · exact fun inside =>
        unread.2 job (by simp [jobs, queued]) (by simp [Main.entries] at inside; simp [inside])
    · exact unread.1.1

theorem Owned.main_moves {s s' : Printd} {action : MainAction} (owned : s.Owned)
    (moves : MainMoves s action s') :
    s'.Owned := by
  cases moves with
  | start at_ listing => exact owned.started at_ (listing.nodup_iff.mpr s.reqs.keys_nodup)
  | startBlind at_ => exact owned.started at_ List.nodup_nil
  | read at_ file => exact owned.recovered at_ file
  | kill up => exact owned.killed
  | unlinkControl at_ =>
    exact owned.stepOther rfl rfl (fun id file => lookup_of_unlink) (fun job member =>
      member) (fun c member => .inl member)
      (by simp [at_, Main.entries]) (by simp [at_]) (by simp)
  | readShort at_ _ | skip at_ | readFails at_ _ | unlinkData at_ | ready at_ =>
    exact owned.stepOther rfl rfl (fun id file here => here) (fun job member =>
      member) (fun c member => .inl member)
      (by simp [at_, Main.entries]) (by simp [at_]) (by simp)

theorem Owned.step {s s' : Printd} {action : SpoolAction} (owned : s.Owned)
    (steps : s.step action = some s') :
    s'.Owned := by
  cases action with
  | client c action => exact owned.client_moves (stepClient_moves steps)
  | printer action => exact owned.printer_moves (stepPrinter_moves steps)
  | main action => exact owned.main_moves (stepMain_moves steps)

end Printd

end Apue.Printer
