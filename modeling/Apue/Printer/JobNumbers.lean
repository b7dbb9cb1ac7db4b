import Apue.Printer.Spool

/-! # Job numbers across restarts

`get_newjobno` counts in memory, and the counter reaches the job file only when the printer thread
picks a job up.  While one daemon runs, every id in the spool directories is below the counter, so a
new id is never in use.  A restart takes the counter from the job file: the ids stay apart as long
as the daemon is started only when the number there is above every id that still has a file.
-/

namespace Apue.Printer

open Apue.Base

/-- The data file, the control file that the client thread has still to create. -/
def Client.awaitsData : Client → Option Int
  | .numbered jobid _ => some jobid
  | _ => none

def Client.awaitsReq : Client → Option Int
  | .numbered jobid _ | .receiving jobid _ _ | .received jobid _ => some jobid
  | _ => none

theorem Client.awaits_jobid (client : Client) {id : Int}
    (waits : client.awaitsData = some id ∨ client.awaitsReq = some id) :
    client.jobid = some id := by
  cases client <;> simp_all [awaitsData, awaitsReq, jobid]

namespace Printd

/-- The counter of a running daemon is ahead of every id in use. -/
structure Counted (s : Printd) : Prop where
  data : ∀ id ∈ s.data, id < s.nextjob
  reqs : ∀ id ∈ s.reqs, id < s.nextjob
  below : ∀ c id, (s.clients c).jobid = some id → id < s.nextjob
  apart : ∀ c c' id, (s.clients c).jobid = some id → (s.clients c').jobid = some id → c = c'
  awaitsData : ∀ c id, (s.clients c).awaitsData = some id → id ∉ s.data
  awaitsReq : ∀ c id, (s.clients c).awaitsReq = some id → id ∉ s.reqs

/-- Between two runs of the daemon there is no client thread. -/
def Counting (s : Printd) : Prop :=
  if s.main = .down then ∀ c, (s.clients c).jobid = none else s.Counted

/-- The job file is ahead of every id that has a file. -/
def FileAhead (s : Printd) : Prop := ∀ id, id ∈ s.data ∨ id ∈ s.reqs → id < initRequest s.jobfile

instance (s : Printd) : Decidable s.FileAhead :=
  decidable_of_iff (∀ id ∈ s.data.keys ++ s.reqs.keys, id < initRequest s.jobfile) (by
    simp only [List.mem_append, ← AList.mem_keys]
    rfl)

/-- The action starts no daemon behind the spool directories, and no submission overflows the
counter. -/
def Ahead (s : Printd) : SpoolAction → Prop
  | .main (.start _) | .main .startBlind => s.FileAhead
  | .client _ (.submit _) => s.nextjob < 2 ^ 31 - 1
  | _ => True

instance (s : Printd) : (action : SpoolAction) → Decidable (s.Ahead action)
  | .main (.start _) | .main .startBlind => inferInstanceAs (Decidable s.FileAhead)
  | .client _ (.submit _) => inferInstanceAs (Decidable (s.nextjob < 2 ^ 31 - 1))
  | .main .read | .main .skip | .main .readFails | .main (.unlinkControl _) | .main (.unlinkData _) | .main .ready
  | .main .kill | .printer _ | .client _ (.creatData _) | .client _ (.receive ..) | .client _ .endData
  | .client _ (.creatControl _) | .client _ (.writeControl _) | .client _ .respond | .client _ .addJob
  | .client _ (.unlinkControl _) | .client _ (.unlinkData _) => .isTrue trivial

theorem Counted.shrinks {s s' : Printd} (counted : s.Counted) (nextjob : s'.nextjob = s.nextjob)
    (data : ∀ id ∈ s'.data, id ∈ s.data) (reqs : ∀ id ∈ s'.reqs, id ∈ s.reqs)
    (clients : ∀ c id, ((s'.clients c).jobid = some id → (s.clients c).jobid = some id) ∧
      ((s'.clients c).awaitsData = some id → (s.clients c).awaitsData = some id) ∧
      ((s'.clients c).awaitsReq = some id → (s.clients c).awaitsReq = some id)) : s'.Counted where
  data id member := nextjob ▸ counted.data id (data id member)
  reqs id member := nextjob ▸ counted.reqs id (reqs id member)
  below c id works := nextjob ▸ counted.below c id ((clients c id).1 works)
  apart c c' id works works' :=
    counted.apart c c' id ((clients c id).1 works) ((clients c' id).1 works')
  awaitsData c id waits member :=
    counted.awaitsData c id ((clients c id).2.1 waits) (data id member)
  awaitsReq c id waits member := counted.awaitsReq c id ((clients c id).2.2 waits) (reqs id member)

/-- A client thread goes on and creates no file. -/
theorem Counted.client {s s' : Printd} {c : Nat} {client : Client} (counted : s.Counted)
    (clients : s'.clients = Function.update s.clients c client) (nextjob : s'.nextjob = s.nextjob)
    (data : ∀ id ∈ s'.data, id ∈ s.data) (reqs : ∀ id ∈ s'.reqs, id ∈ s.reqs)
    (jobid : ∀ id, client.jobid = some id → (s.clients c).jobid = some id)
    (awaitsData : ∀ id, client.awaitsData = some id → (s.clients c).awaitsData = some id)
    (awaitsReq : ∀ id, client.awaitsReq = some id → (s.clients c).awaitsReq = some id) :
    s'.Counted := by
  refine counted.shrinks nextjob data reqs fun c' id => ?_
  by_cases same : c' = c
  · subst same
    simpa [clients] using ⟨jobid id, awaitsData id, awaitsReq id⟩
  · simp [clients, same]

theorem mem_unlink {β : Type} {dir : Dir β} {jobid id : Int} {ok : Bool}
    (member : id ∈ dir.unlink jobid ok) :
    id ∈ dir := by
  rw [Dir.mem_iff, Dir.lookup_unlink] at member
  split at member
  · simp at member
  · exact (Dir.mem_iff dir id).mpr member

theorem mem_write {β : Type} {dir : Dir β} {jobid id : Int} {change : β → β}
    (member : id ∈ dir.write jobid change) :
    id ∈ dir := by
  rw [Dir.mem_iff, Dir.lookup_write] at member
  rw [Dir.mem_iff]
  split at member <;> simpa using member

theorem Counted.submit {s : Printd} {c : Nat} {req : PrintReq} (counted : s.Counted)
    (room : s.nextjob < 2 ^ 31 - 1) :
    Counted ({ s with
      nextjob := nextJobno s.nextjob
      issued := s.issued ++ [(c, s.nextjob)] }.setClient c (.numbered s.nextjob req)) := by
  have grows : s.nextjob < nextJobno s.nextjob := by
    unfold nextJobno
    split <;> omega
  have others (c' : Nat) (id : Int) (other : c' ≠ c) (works : (s.clients c').jobid = some id) :
      id ≠ s.nextjob := by
    have := counted.below c' id works
    omega
  refine ⟨?_, ?_, ?_, ?_, ?_, ?_⟩
  · intro id member
    exact lt_trans (counted.data id member) grows
  · intro id member
    exact lt_trans (counted.reqs id member) grows
  · intro c' id works
    by_cases same : c' = c
    · obtain rfl : s.nextjob = id := by simpa [setClient, same, Client.jobid] using works
      exact grows
    · exact lt_trans (counted.below c' id (by simpa [setClient, same] using works)) grows
  · intro c₁ c₂ id first second
    by_cases same₁ : c₁ = c <;> by_cases same₂ : c₂ = c
    · rw [same₁, same₂]
    · obtain rfl : s.nextjob = id := by simpa [setClient, same₁, Client.jobid] using first
      exact absurd rfl (others c₂ s.nextjob same₂ (by simpa [setClient, same₂] using second))
    · obtain rfl : s.nextjob = id := by simpa [setClient, same₂, Client.jobid] using second
      exact absurd rfl (others c₁ s.nextjob same₁ (by simpa [setClient, same₁] using first))
    · exact counted.apart c₁ c₂ id
        (by simpa [setClient, same₁] using first) (by simpa [setClient, same₂] using second)
  · intro c' id waits member
    by_cases same : c' = c
    · obtain rfl : s.nextjob = id := by simpa [setClient, same, Client.awaitsData] using waits
      exact absurd (counted.data _ member) (lt_irrefl _)
    · exact counted.awaitsData c' id (by simpa [setClient, same] using waits) member
  · intro c' id waits member
    by_cases same : c' = c
    · obtain rfl : s.nextjob = id := by simpa [setClient, same, Client.awaitsReq] using waits
      exact absurd (counted.reqs _ member) (lt_irrefl _)
    · exact counted.awaitsReq c' id (by simpa [setClient, same] using waits) member

/-- A client thread creates its data file, its control file. -/
theorem Counted.creates {s s' : Printd} {c : Nat} {client : Client} {jobid : Int}
    (counted : s.Counted)
    (clients : s'.clients = Function.update s.clients c client) (nextjob : s'.nextjob = s.nextjob)
    (before : (s.clients c).jobid = some jobid) (after : client.jobid = some jobid)
    (data : ∀ id ∈ s'.data, id ∈ s.data ∨ id = jobid ∧ client.awaitsData = none)
    (reqs : ∀ id ∈ s'.reqs, id ∈ s.reqs ∨ id = jobid ∧ client.awaitsReq = none)
    (awaitsData : ∀ id, client.awaitsData = some id → (s.clients c).awaitsData = some id)
    (awaitsReq : ∀ id, client.awaitsReq = some id → (s.clients c).awaitsReq = some id) :
    s'.Counted := by
  have below : jobid < s.nextjob := counted.below c jobid before
  have jobids (c' : Nat) : (s'.clients c').jobid = (s.clients c').jobid := by
    by_cases same : c' = c
    · rw [clients, same, Function.update_self, after, before]
    · simp [clients, same]
  refine ⟨?_, ?_, ?_, ?_, ?_, ?_⟩
  · intro id member
    rw [nextjob]
    obtain inside | ⟨rfl, _⟩ := data id member
    · exact counted.data id inside
    · exact below
  · intro id member
    rw [nextjob]
    obtain inside | ⟨rfl, _⟩ := reqs id member
    · exact counted.reqs id inside
    · exact below
  · intro c' id works
    rw [nextjob]
    exact counted.below c' id (jobids c' ▸ works)
  · intro c₁ c₂ id first second
    exact counted.apart c₁ c₂ id (jobids c₁ ▸ first) (jobids c₂ ▸ second)
  · intro c' id waits member
    by_cases same : c' = c
    · subst same
      have waiting : client.awaitsData = some id := by simpa [clients] using waits
      obtain inside | ⟨_, none⟩ := data id member
      · exact counted.awaitsData c' id (awaitsData id waiting) inside
      · simp [none] at waiting
    · have waiting : (s.clients c').awaitsData = some id := by simpa [clients, same] using waits
      obtain inside | ⟨rfl, _⟩ := data id member
      · exact counted.awaitsData c' id waiting inside
      · exact same (counted.apart c' c id ((s.clients c').awaits_jobid (.inl waiting)) before)
  · intro c' id waits member
    by_cases same : c' = c
    · subst same
      have waiting : client.awaitsReq = some id := by simpa [clients] using waits
      obtain inside | ⟨_, none⟩ := reqs id member
      · exact counted.awaitsReq c' id (awaitsReq id waiting) inside
      · simp [none] at waiting
    · have waiting : (s.clients c').awaitsReq = some id := by simpa [clients, same] using waits
      obtain inside | ⟨rfl, _⟩ := reqs id member
      · exact counted.awaitsReq c' id waiting inside
      · exact same (counted.apart c' c id ((s.clients c').awaits_jobid (.inr waiting)) before)

theorem Counted.stepClient {s s' : Printd} {c : Nat} {action : ClientAction} (counted : s.Counted)
    (ahead : s.Ahead (.client c action)) (moves : ClientMoves s c action s') : s'.Counted := by
  cases moves with
  | submit req accepting absent => exact counted.submit ahead
  | creatData at_ =>
    refine counted.creates rfl rfl (by simp [at_, Client.jobid]) rfl ?_ (fun id member =>
      .inl member)
      (by simp [Client.awaitsData]) (by simp [at_, Client.awaitsReq])
    intro id member
    simpa [setClient, Client.awaitsData, or_comm] using member
  | creatControl at_ =>
    refine counted.creates rfl rfl (by simp [at_, Client.jobid]) rfl (fun id member =>
      .inl member) ?_
      (by simp [Client.awaitsData]) (by simp [Client.awaitsReq])
    intro id member
    simpa [setClient, Client.awaitsReq, or_comm] using member
  | receive req' at_ =>
    exact counted.client rfl rfl (fun id => mem_write) (fun id member =>
      member) (by simp [at_, Client.jobid])
      (by simp [Client.awaitsData]) (by simp [at_, Client.awaitsReq])
  | receiveFails at_ =>
    exact counted.client rfl rfl (fun id => mem_write) (fun id member =>
      member) (by simp [at_, Client.jobid])
      (by simp [Client.awaitsData]) (by simp [Client.awaitsReq])
  | writeControl at_ =>
    exact counted.client rfl rfl (fun id member => member) (fun id =>
      mem_write) (by simp [at_, Client.jobid])
      (by simp [Client.awaitsData]) (by simp [Client.awaitsReq])
  | unlinkControl at_ =>
    exact counted.client rfl rfl (fun id member => member) (fun id =>
      mem_unlink) (by simp [at_, Client.jobid])
      (by simp [Client.awaitsData]) (by simp [Client.awaitsReq])
  | unlinkData at_ =>
    exact counted.client rfl rfl (fun id => mem_unlink) (fun id member =>
      member) (by simp [Client.jobid])
      (by simp [Client.awaitsData]) (by simp [Client.awaitsReq])
  | creatDataFails at_ | endData at_ | creatControlFails at_ | writeControlFails at_ | respond at_ | addJob at_ =>
    exact counted.client rfl rfl (fun id member => member) (fun id member =>
      member) (by simp [at_, Client.jobid])
      (by simp [Client.awaitsData]) (by simp [at_, Client.awaitsReq])

theorem Counted.stepPrinter {s s' : Printd} {action : PrinterAction} (counted : s.Counted)
    (moves : PrinterMoves s action s') : s'.Counted := by
  cases moves with
  | unlinkData at_ =>
    exact counted.shrinks rfl (fun id => mem_unlink) (fun id member => member) (by simp)
  | unlinkControl at_ =>
    exact counted.shrinks rfl (fun id member => member) (fun id => mem_unlink) (by simp)
  | _ => exact counted.shrinks rfl (fun id member => member) (fun id member => member) (by simp)

/-- A start with the job file ahead. -/
theorem Counting.started {s : Printd} (main : Main) (up : main ≠ .down) (counting : s.Counting)
    (down : s.main = .down)
    (ahead : s.FileAhead) : (s.started main).Counting := by
  simp only [Counting, down, if_true] at counting
  have none (client : Client) (noJob : client.jobid = none) : client.awaitsData = none ∧
      client.awaitsReq = none := by
    cases client <;> simp_all [Client.jobid, Client.awaitsData, Client.awaitsReq]
  simp only [Counting, Printd.started, up, if_false]
  refine ⟨fun id member => ahead id (.inl member), fun id member => ahead id (.inr member), ?_,
    ?_, ?_, ?_⟩
  · simp [counting]
  · simp [counting]
  · simp [(none _ (counting _)).1]
  · simp [(none _ (counting _)).2]

theorem Counting.step {s s' : Printd} {action : SpoolAction} (counting : s.Counting)
    (ahead : s.Ahead action)
    (steps : s.step action = some s') : s'.Counting := by
  cases action with
  | client c action =>
    have moves := stepClient_moves steps
    by_cases down : s.main = .down
    · -- no client thread is there to move
      simp only [Counting, down, if_true] at counting
      have idle := counting c
      cases moves <;> simp_all [Client.jobid]
    · have main : s'.main = s.main := by cases moves <;> rfl
      simp only [Counting, main, down, if_false] at counting ⊢
      exact counting.stepClient ahead moves
  | printer action =>
    have moves := stepPrinter_moves steps
    have main : s'.main = s.main := by cases moves <;> rfl
    have clients : s'.clients = s.clients := by cases moves <;> rfl
    simp only [Counting, main, clients] at counting ⊢
    split at counting
    · simp [*]
    · simpa [*] using counting.stepPrinter moves
  | main action =>
    have moves := stepMain_moves steps
    cases moves with
    | start at_ listing => exact counting.started _ (by simp) at_ ahead
    | startBlind at_ => exact counting.started _ (by simp) at_ ahead
    | kill up =>
      simp only [Counting, killed, if_true]
      intro c
      split <;> rfl
    | unlinkControl at_ =>
      simp only [Counting, at_] at counting ⊢
      exact Counted.shrinks counting rfl (fun id member => member) (fun id => mem_unlink) (by simp)
    | unlinkData at_ =>
      simp only [Counting, at_] at counting ⊢
      exact Counted.shrinks counting rfl (fun id => mem_unlink) (fun id member => member) (by simp)
    | readShort at_ _ | read at_ _ | skip at_ | readFails at_ _ | ready at_ =>
      simp only [Counting, at_] at counting ⊢
      exact Counted.shrinks counting rfl (fun id member => member) (fun id member =>
        member) (by simp)

theorem fresh_counting : fresh.Counting := by simp [Counting, fresh, Client.jobid]

end Printd

/-- An action that is taken finds the counter of a running daemon ahead. -/
theorem Printd.counted_at {actions : List SpoolAction} {final s : Printd} {c : Nat}
    {action : ClientAction}
    (runs : execute Printd.step .fresh actions = some final)
    (ahead : ∀ s action, Takes Printd.step .fresh actions s action → s.Ahead action)
    (takes : Takes Printd.step .fresh actions s (.client c action)) : s.Counted := by
  have counting : s.Counting :=
    takes.visits.invariant Printd.Counting Printd.Ahead Printd.fresh_counting
    (fun _ _ _ counting allowed steps => counting.step allowed steps) ahead
  obtain ⟨s', steps, _⟩ := takes.next runs
  have moves := Printd.stepClient_moves steps
  unfold Printd.Counting at counting
  split at counting
  · have idle := counting c
    cases moves <;> simp_all [Client.jobid]
  · exact counting

/-- A new job id names no file in the spool directories, and a client thread creates files that were
not there, in every run whose restarts find the job file ahead of the spool directories and whose
counter does not overflow. -/
theorem job_numbers_are_new {actions : List SpoolAction} {final : Printd}
    (runs : execute Printd.step .fresh actions = some final)
    (noWrap : ∀ s c req, Takes Printd.step .fresh actions s (.client c (.submit req)) →
    s.nextjob < 2 ^ 31 - 1)
    (restarts : ∀ s, (∃ entries, Takes Printd.step .fresh actions s (.main (.start entries))) ∨
      Takes Printd.step .fresh actions s (.main .startBlind) → s.FileAhead) :
    ∀ s c,
      (∀ req, Takes Printd.step .fresh actions s (.client c (.submit req)) → s.nextjob ∉ s.data ∧
        s.nextjob ∉ s.reqs) ∧
      (∀ jobid req, Takes Printd.step .fresh actions s (.client c (.creatData true)) →
        s.clients c = .numbered jobid req → jobid ∉ s.data) ∧
      ∀ jobid req, Takes Printd.step .fresh actions s (.client c (.creatControl true)) →
        s.clients c = .received jobid req → jobid ∉ s.reqs := by
  have ahead (s : Printd) (action : SpoolAction) (takes : Takes Printd.step .fresh actions s
      action) : s.Ahead action := by
    cases action with
    | client c action =>
      cases action with
      | submit req => exact noWrap s c req takes
      | _ => trivial
    | printer action => trivial
    | main action =>
      cases action with
      | start entries => exact restarts s (.inl ⟨entries, takes⟩)
      | startBlind => exact restarts s (.inr takes)
      | _ => trivial
  intro s c
  refine ⟨?_, ?_, ?_⟩
  · intro req takes
    have counted := Printd.counted_at runs ahead takes
    exact ⟨fun member => absurd (counted.data _ member) (lt_irrefl _),
      fun member => absurd (counted.reqs _ member) (lt_irrefl _)⟩
  · intro jobid req takes at_
    exact (Printd.counted_at runs ahead takes).awaitsData c jobid (by simp [at_, Client.awaitsData])
  · intro jobid req takes at_
    exact (Printd.counted_at runs ahead takes).awaitsReq c jobid (by simp [at_, Client.awaitsReq])

/-- The daemon is killed after the printer thread has picked up the first job, and another client
comes. -/
def restartInTime : List SpoolAction :=
  [.main (.start []), .main .ready] ++ submission 0 ++ [.client 0 .addJob, .printer .pickUp,
    .printer .updateJobno,
    .main .kill, .main (.start [1]), .main .read, .main .ready] ++ submission 1

theorem job_numbers_are_new_in_time :
    ∃ final, execute Printd.step .fresh restartInTime = some final ∧
    ∀ s c req, Takes Printd.step .fresh restartInTime s (.client c (.submit req)) →
      s.nextjob ∉ s.data ∧
      s.nextjob ∉ s.reqs := by
  have runs : (execute Printd.step .fresh restartInTime).isSome := by decide
  have passes : allTaken Printd.step (fun s action => decide (s.Ahead action)) .fresh
    restartInTime = true := by decide
  obtain ⟨final, runs⟩ := Option.isSome_iff_exists.mp runs
  have ahead (s : Printd) (action : SpoolAction) (takes : Takes Printd.step .fresh restartInTime
      s action) :
      s.Ahead action := by simpa using takes.of_allTaken passes
  refine ⟨final, runs, fun s c req takes => (job_numbers_are_new runs ?_ ?_ s c).1 req takes⟩
  · exact fun s c req takes => ahead s _ takes
  · intro s starts
    obtain ⟨entries, takes⟩ | takes := starts
    · exact ahead s _ takes
    · exact ahead s _ takes

/-- The daemon is killed before the printer thread has picked up the first job. -/
def restartTooEarly : List SpoolAction :=
  [.main (.start []), .main .ready] ++ submission 0 ++ [.main .kill, .main (.start [1]),
    .main .read, .main .ready]

/-- The restarted daemon hands out the id of the job that is still in both directories. -/
theorem job_numbers_collide : ∃ s, execute Printd.step .fresh restartTooEarly = some s ∧
    (s.step (.client 1 (.submit ⟨0, 0, [], []⟩))).isSome ∧ s.nextjob ∈ s.data ∧
    s.nextjob ∈ s.reqs := by
  have evaluates : (execute Printd.step .fresh restartTooEarly).map
      (fun s => ((s.step (.client 1 (.submit ⟨0, 0, [], []⟩))).isSome, decide (s.nextjob ∈ s.data),
        decide (s.nextjob ∈ s.reqs))) = some (true, true, true) := by decide
  obtain ⟨s, runs, facts⟩ := Option.map_eq_some_iff.mp evaluates
  simp only [Prod.mk.injEq, decide_eq_true_eq] at facts
  exact ⟨s, runs, facts⟩

end Apue.Printer
