import Apue.Printer.Ownership

/-! # Recovery of the spool directories

A client thread creates the control file after the data file is complete, and answers after the
control file is; the printer thread removes the data file first.  So a whole control file always
stands for a job whose data, if it is still there, is complete, and `build_qonstart` may put every
one of them on the queue.  The printer thread is already running then, so at the end of
`build_qonstart` a recovered job may have left the queue again.
-/

namespace Apue.Printer

open Apue.Base

namespace Printd

/-- The submission gets an id nobody has had, and the file operations of `build_qonstart`
succeed. -/
def Plain (s : Printd) : SpoolAction → Prop
  | .client _ (.submit _) => ∀ c, (c, s.nextjob) ∉ s.issued
  | .main .startBlind | .main .skip | .main .readFails => False
  | _ => True

instance (s : Printd) : (action : SpoolAction) → Decidable (s.Plain action)
  | .client _ (.submit _) => decidable_of_iff (∀ pair ∈ s.issued, pair.2 ≠ s.nextjob)
      ⟨fun all c member => all _ member rfl, fun all pair member same =>
        all pair.1 (by simpa [← same] using member)⟩
  | .main .startBlind | .main .skip | .main .readFails => .isFalse id
  | .main (.start _) | .main .read | .main (.unlinkControl _) | .main (.unlinkData _) | .main .ready | .main .kill
  | .printer _ | .client _ (.creatData _) | .client _ (.receive ..) | .client _ .endData | .client _ (.creatControl _)
  | .client _ (.writeControl _) | .client _ .respond | .client _ .addJob | .client _ (.unlinkControl _)
  | .client _ (.unlinkData _) => .isTrue trivial

/-- What the files of a client thread look like at each of its places. -/
def Stage (s : Printd) (c : Nat) : Client → Prop
  | .absent => s.received c = []
  | .numbered id _ => s.received c = [] ∧ s.reqs.lookup id = none
  | .receiving id _ _ => s.data.lookup id = some (s.received c) ∧ s.reqs.lookup id = none
  | .received id _ =>
    s.data.lookup id = some (s.received c) ∧ s.reqs.lookup id = none ∧ c ∈ s.spooled
  | .created id _ =>
    s.data.lookup id = some (s.received c) ∧ s.reqs.lookup id = some ⟨c, none⟩ ∧ c ∈ s.spooled
  | .written id req | .answered id req => s.reqs.lookup id = some ⟨c, some req⟩
  | .removing id => s.reqs.lookup id = some ⟨c, none⟩
  | .removingData id => ∀ file, s.reqs.lookup id = some file → file.req = none
  | .ended => True

structure Kept (s : Printd) : Prop where
  owned : s.Owned
  apart : ∀ c c' id, (c, id) ∈ s.issued → (c', id) ∈ s.issued → c = c'
  stage : ∀ c, s.Stage c (s.clients c)
  /-- A whole control file stands for complete data. -/
  whole : ∀ id c req, s.reqs.lookup id = some ⟨c, some req⟩ → c ∈ s.spooled ∧
    ∀ bytes, s.data.lookup id = some bytes → bytes = s.received c
  acked : ∀ c ∈ s.acked, c ∉ s.begun → ∃ id req, s.reqs.lookup id = some ⟨c, some req⟩
  memory : ∀ job ∈ s.jobs, s.reqs.lookup job.jobid = some ⟨job.owner, some job.req⟩
  distinct : (s.jobs.map Pending.owner).Nodup
  unlinking : ∀ job ∈ s.printer.unlinking, job.owner ∈ s.begun
  clearing : ∀ id entries, s.main = .clearing id entries →
    ∃ owner, s.reqs.lookup id = some ⟨owner, none⟩

/-- What `build_qonstart` has done so far, and has still to do. -/
structure Scanning (s : Printd) : Prop where
  pending : ∀ c ∈ s.acked, c ∉ s.begunBefore → c ∈ s.recovered ∨
    ∃ id ∈ s.main.entries, ∃ req, s.reqs.lookup id = some ⟨c, some req⟩
  once : s.recovered.Nodup ∧ ∀ c ∈ s.recovered, ∀ id ∈ s.main.entries, (c, id) ∉ s.issued
  tally : s.recovered.Perm (s.jobs.map Pending.owner ++ s.dropped)

theorem fresh_kept : fresh.Kept where
  owned := fresh_owned
  apart := by simp [fresh]
  stage := by simp [fresh, Stage]
  whole := by simp [fresh]
  acked := by simp [fresh]
  memory := by simp [fresh, jobs, Printing.job]
  distinct := by simp [fresh, jobs, Printing.job]
  unlinking := by simp [fresh, Printing.unlinking]
  clearing := by simp [fresh]

/-- The place of a client thread depends on the files of its own job. -/
theorem Stage.congr {s s' : Printd} {c : Nat} {client : Client} (stage : s.Stage c client)
    (data : ∀ id ∈ client.jobid, s'.data.lookup id = s.data.lookup id)
    (reqs : ∀ id ∈ client.jobid, s'.reqs.lookup id = s.reqs.lookup id)
    (received : s'.received c = s.received c)
    (spooled : c ∈ s.spooled → c ∈ s'.spooled) : s'.Stage c client := by
  cases client <;> simp_all [Stage, Client.jobid]

/-- A client thread that works on a job goes on. -/
theorem Kept.client {s s' : Printd} {c : Nat} {client : Client} {jobid : Int} (kept : s.Kept)
    (owned : s'.Owned)
    (clients : s'.clients = Function.update s.clients c client) (issued : s'.issued = s.issued)
    (main : s'.main = s.main)
    (printer : s'.printer = s.printer) (begun : s'.begun = s.begun)
    (before : (s.clients c).jobid = some jobid)
    (data : ∀ id ≠ jobid, s'.data.lookup id = s.data.lookup id)
    (reqs : ∀ id ≠ jobid, s'.reqs.lookup id = s.reqs.lookup id)
    (received : ∀ c' ≠ c, s'.received c' = s.received c')
    (spooled : ∀ c' ∈ s.spooled, c' ∈ s'.spooled)
    (stage : s'.Stage c client)
    (whole : ∀ owner req, s'.reqs.lookup jobid = some ⟨owner, some req⟩ → owner ∈ s'.spooled ∧
      ∀ bytes, s'.data.lookup jobid = some bytes → bytes = s'.received owner)
    (keeps : ∀ req, s.reqs.lookup jobid = some ⟨c, some req⟩ →
    s'.reqs.lookup jobid = some ⟨c, some req⟩)
    (acked : ∀ c' ∈ s'.acked, c' ∈ s.acked ∨ c' = c ∧
    ∃ req, s'.reqs.lookup jobid = some ⟨c, some req⟩)
    (jobs : s'.jobs = s.jobs ∨ ∃ req, s'.jobs = s.jobs ++ [⟨c, jobid, req⟩] ∧
      s'.reqs.lookup jobid = some ⟨c, some req⟩) : s'.Kept := by
  have mine : (c, jobid) ∈ s.issued := kept.owned.client c jobid before
  have accepting : s'.main = .accepting := main.trans (kept.owned.accepting before)
  have elsewhere (c' : Nat) (id : Int) (known : (c', id) ∈ s.issued) (other : c' ≠ c) :
      id ≠ jobid :=
    fun same => other (kept.apart c' c id known (same ▸ mine))
  have notMine (job : Pending) (member : job ∈ s.jobs) : job.owner ≠ c := by
    intro same
    simp [← same, (kept.owned.memory job member).2] at before
  have old (job : Pending) (member : job ∈ s.jobs) :
      s'.reqs.lookup job.jobid = some ⟨job.owner, some job.req⟩ := by
    rw [reqs _ (elsewhere _ _ (kept.owned.memory job member).1 (notMine job member))]
    exact kept.memory job member
  refine ⟨owned, by simpa [issued] using kept.apart, ?_, ?_, ?_, ?_, ?_, ?_, by simp [accepting]⟩
  · intro c'
    by_cases same : c' = c
    · subst same
      simpa [clients] using stage
    · rw [clients, Function.update_of_ne same]
      have away (id : Int) (works : id ∈ (s.clients c').jobid) : id ≠ jobid :=
        elsewhere c' id (kept.owned.client c' id works) same
      exact (kept.stage c').congr (fun id works => data id (away id works))
        (fun id works => reqs id (away id works))
        (received c' same) (spooled c')
  · intro id owner req here
    by_cases same : id = jobid
    · subst same
      exact whole owner req here
    · rw [reqs id same] at here
      have known := kept.owned.control id _ here
      have other : owner ≠ c := fun eq => same (kept.owned.once c id jobid (eq ▸ known) mine)
      obtain ⟨isSpooled, complete⟩ := kept.whole id owner req here
      rw [data id same, received owner other]
      exact ⟨spooled owner isSpooled, complete⟩
  · intro c' isAcked notBegun
    rw [begun] at notBegun
    obtain before' | ⟨rfl, req, here⟩ := acked c' isAcked
    · obtain ⟨id, req, here⟩ := kept.acked c' before' notBegun
      have known := kept.owned.control id _ here
      by_cases same : id = jobid
      · subst same
        obtain rfl : c' = c := kept.apart c' c id known mine
        exact ⟨id, req, keeps req here⟩
      · exact ⟨id, req, by rw [reqs id same]; exact here⟩
    · exact ⟨jobid, req, here⟩
  · intro job member
    obtain same | ⟨req, more, here⟩ := jobs
    · exact old job (same ▸ member)
    · rw [more] at member
      simp only [List.mem_append, List.mem_singleton] at member
      obtain inside | rfl := member
      · exact old job inside
      · exact here
  · obtain same | ⟨req, more, _⟩ := jobs
    · rw [same]
      exact kept.distinct
    · rw [more, List.map_append, List.nodup_append]
      refine ⟨kept.distinct, by simp, ?_⟩
      intro owner member last isLast
      obtain ⟨job, inside, rfl⟩ := List.mem_map.mp member
      simp only [List.map_cons, List.map_nil, List.mem_singleton] at isLast
      rw [isLast]
      exact notMine job inside
  · simpa [printer, begun] using kept.unlinking

/-- The first action of a submission. -/
theorem Kept.submit {s : Printd} {c : Nat} {req : PrintReq} (kept : s.Kept)
    (accepting : s.main = .accepting)
    (absent : s.clients c = .absent) (new : ∀ c', (c', s.nextjob) ∉ s.issued) :
    Kept ({ s with
      nextjob := nextJobno s.nextjob
      issued := s.issued ++ [(c, s.nextjob)] }.setClient c (.numbered s.nextjob req)) := by
  have noFile : s.reqs.lookup s.nextjob = none := by
    cases here : s.reqs.lookup s.nextjob with
    | none => rfl
    | some file => exact absurd (kept.owned.control _ _ here) (new _)
  refine ⟨kept.owned.submit accepting absent, ?_, ?_, kept.whole, kept.acked, kept.memory,
    kept.distinct, kept.unlinking,
    kept.clearing⟩
  · intro c₁ c₂ id first second
    simp only [setClient, List.mem_append, List.mem_singleton, Prod.mk.injEq] at first second
    obtain known | ⟨rfl, rfl⟩ := first
    · obtain known' | ⟨rfl, rfl⟩ := second
      · exact kept.apart c₁ c₂ id known known'
      · exact absurd known (new c₁)
    · obtain known' | ⟨rfl, _⟩ := second
      · exact absurd known' (new c₂)
      · rfl
  · intro c'
    by_cases same : c' = c
    · subst same
      have nothing := kept.stage c'
      rw [absent] at nothing
      simpa [setClient, Stage] using ⟨nothing, noFile⟩
    · have stage := kept.stage c'
      simp only [setClient, Function.update_of_ne same]
      exact stage.congr (fun _ _ => rfl) (fun _ _ => rfl) rfl fun member => member

theorem Kept.client_moves {s s' : Printd} {c : Nat} {action : ClientAction} (kept : s.Kept)
    (plain : s.Plain (.client c action)) (moves : ClientMoves s c action s') : s'.Kept := by
  have owned := kept.owned.client_moves moves
  have stage := kept.stage c
  cases moves with
  | submit req accepting absent => exact kept.submit accepting absent plain
  | @creatData jobid req at_ =>
    rw [at_] at stage
    refine kept.client owned rfl rfl rfl rfl rfl (by rw [at_]; rfl)
      (by simp +contextual [setClient])
      (by simp [setClient]) (by simp [setClient]) (by simp [setClient]) ?_ ?_ (by simp [setClient])
      (fun c' member => .inl member) (.inl rfl)
    · simpa [Stage, setClient, stage.1] using stage.2
    · simp [setClient, stage.2]
  | @creatDataFails jobid req at_ =>
    rw [at_] at stage
    exact kept.client owned rfl rfl rfl rfl rfl (by rw [at_]; rfl)
      (by simp [setClient]) (by simp [setClient])
      (by simp [setClient]) (by simp [setClient]) trivial (by simp [setClient, stage.2])
        (by simp [setClient])
      (fun c' member => .inl member) (.inl rfl)
  | @receive jobid req first buf nr req' at_ =>
    rw [at_] at stage
    refine kept.client owned rfl rfl rfl rfl rfl (by rw [at_]; rfl)
      (by simp +contextual [setClient, Dir.lookup_write])
      (by simp [setClient]) (by simp +contextual [setClient]) (by simp [setClient]) ?_
        (by simp [setClient, stage.2])
      (by simp [setClient]) (fun c' member => .inl member) (.inl rfl)
    simpa [Stage, setClient, Dir.lookup_write, stage.1] using stage.2
  | @receiveFails jobid req first buf nr nw at_ =>
    rw [at_] at stage
    refine kept.client owned rfl rfl rfl rfl rfl (by rw [at_]; rfl)
      (by simp +contextual [setClient, Dir.lookup_write])
      (by simp [setClient]) (by simp +contextual [setClient]) (by simp [setClient]) ?_
        (by simp [setClient, stage.2])
      (by simp [setClient]) (fun c' member => .inl member) (.inl rfl)
    simp [Stage, setClient, stage.2]
  | @endData jobid req first at_ =>
    rw [at_] at stage
    refine kept.client owned rfl rfl rfl rfl rfl (by rw [at_]; rfl)
      (by simp [setClient]) (by simp [setClient])
      (by simp [setClient]) (by simp +contextual [setClient]) ?_
        (by simp [setClient, stage.2]) (by simp [setClient])
      (fun c' member => .inl member) (.inl rfl)
    simpa [Stage, setClient] using stage
  | @creatControl jobid req at_ =>
    rw [at_] at stage
    refine kept.client owned rfl rfl rfl rfl rfl (by rw [at_]; rfl) (by simp [setClient])
      (by simp +contextual [setClient]) (by simp [setClient]) (by simp [setClient]) ?_
      (by simp [setClient]) (by simp [stage.2.1]) (fun c' member => .inl member) (.inl rfl)
    simpa [Stage, setClient] using ⟨stage.1, stage.2.2⟩
  | @creatControlFails jobid req at_ =>
    rw [at_] at stage
    exact kept.client owned rfl rfl rfl rfl rfl (by rw [at_]; rfl)
      (by simp [setClient]) (by simp [setClient])
      (by simp [setClient]) (by simp [setClient]) (by simp [Stage, setClient, stage.2.1])
        (by simp [setClient, stage.2.1])
      (by simp [setClient]) (fun c' member => .inl member) (.inl rfl)
  | @writeControl jobid req at_ =>
    rw [at_] at stage
    refine kept.client owned rfl rfl rfl rfl rfl (by rw [at_]; rfl) (by simp [setClient])
      (by simp +contextual [setClient, Dir.lookup_write]) (by simp [setClient])
        (by simp [setClient]) ?_ ?_
      (by simp [stage.2.1]) (fun c' member => .inl member) (.inl rfl)
    · simp [Stage, setClient, Dir.lookup_write, stage.2.1]
    · -- the loop has ended and its data is all there
      intro owner req' here
      simp only [setClient, Dir.lookup_write, stage.2.1, if_true, Option.map_some,
        Option.some.injEq, Control.mk.injEq] at here
      obtain ⟨rfl, _⟩ := here
      exact ⟨stage.2.2, fun bytes there => by simpa [setClient, stage.1] using there.symm⟩
  | @writeControlFails jobid req at_ =>
    rw [at_] at stage
    exact kept.client owned rfl rfl rfl rfl rfl (by rw [at_]; rfl)
      (by simp [setClient]) (by simp [setClient])
      (by simp [setClient]) (by simp [setClient]) (by simp [Stage, setClient, stage.2.1])
        (by simp [setClient, stage.2.1])
      (by simp [setClient]) (fun c' member => .inl member) (.inl rfl)
  | @respond jobid req at_ =>
    rw [at_] at stage
    refine kept.client owned rfl rfl rfl rfl rfl (by rw [at_]; rfl)
      (by simp [setClient]) (by simp [setClient])
      (by simp [setClient]) (by simp [setClient]) stage
        (fun owner req' here => kept.whole jobid owner req' here)
      (by simp [setClient]) ?_ (.inl rfl)
    intro c' member
    simp only [setClient, List.mem_append, List.mem_singleton] at member
    obtain old | rfl := member
    · exact .inl old
    · exact .inr ⟨rfl, req, stage⟩
  | @addJob jobid req at_ =>
    rw [at_] at stage
    exact kept.client owned rfl rfl rfl rfl rfl (by rw [at_]; rfl)
      (by simp [setClient]) (by simp [setClient])
      (by simp [setClient]) (by simp [setClient]) trivial (fun owner req' here =>
        kept.whole jobid owner req' here)
      (by simp [setClient]) (fun c' member =>
        .inl member) (.inr ⟨req, by simp [setClient, jobs], stage⟩)
  | @unlinkControl jobid ok at_ =>
    rw [at_] at stage
    refine kept.client owned rfl rfl rfl rfl rfl (by rw [at_]; rfl) (by simp [setClient])
      (by simp +contextual [setClient, Dir.lookup_unlink]) (by simp [setClient])
        (by simp [setClient]) ?_ ?_
      (fun req here => by rw [stage] at here; simp at here) (fun c' member =>
        .inl member) (.inl rfl)
    · intro file here
      rw [setClient] at here
      have old := lookup_of_unlink here
      rw [stage] at old
      cases old
      rfl
    · intro owner req here
      rw [setClient] at here
      have old := lookup_of_unlink here
      rw [stage] at old
      simp at old
  | @unlinkData jobid ok at_ =>
    rw [at_] at stage
    exact kept.client owned rfl rfl rfl rfl rfl (by rw [at_]; rfl)
      (by simp +contextual [setClient, Dir.lookup_unlink])
      (by simp [setClient]) (by simp [setClient]) (by simp [setClient]) trivial
      (fun owner req here => by have := stage _ here; simp at this) (by simp [setClient])
        (fun c' member => .inl member)
      (.inl rfl)

/-- A thread other than a client's goes on: what it removes is the control file of a job it has
begun to delete. -/
theorem Kept.other {s s' : Printd} (kept : s.Kept) (owned : s'.Owned)
    (clients : s'.clients = s.clients)
    (issued : s'.issued = s.issued) (received : s'.received = s.received)
    (spooled : s'.spooled = s.spooled)
    (acked : s'.acked = s.acked)
    (data : ∀ id bytes, s'.data.lookup id = some bytes → s.data.lookup id = some bytes)
    (reqs : ∀ id file, s'.reqs.lookup id = some file → s.reqs.lookup id = some file)
    (untouched : ∀ c id, (s.clients c).jobid = some id → s'.data.lookup id = s.data.lookup id ∧
      s'.reqs.lookup id = s.reqs.lookup id)
    (begun : ∀ c ∈ s.begun, c ∈ s'.begun)
    (control : ∀ id c req, s.reqs.lookup id = some ⟨c, some req⟩ →
    s'.reqs.lookup id = some ⟨c, some req⟩ ∨
      c ∈ s'.begun ∧ ∀ job ∈ s'.jobs, job.owner ≠ c)
    (jobs : s'.jobs.Sublist s.jobs) (unlinking : ∀ job ∈ s'.printer.unlinking, job.owner ∈ s'.begun)
    (clearing : ∀ id entries, s'.main = .clearing id entries →
    ∃ owner, s'.reqs.lookup id = some ⟨owner, none⟩) :
    s'.Kept := by
  refine ⟨owned, by simpa [issued] using kept.apart, ?_, ?_, ?_, ?_, kept.distinct.sublist (jobs.map _), unlinking, clearing⟩
  · intro c
    rw [clients]
    exact (kept.stage c).congr (fun id works => (untouched c id works).1)
      (fun id works => (untouched c id works).2)
      (by rw [received]) (by simp [spooled])
  · intro id c req here
    obtain ⟨isSpooled, complete⟩ := kept.whole id c req (reqs id _ here)
    rw [spooled, received]
    exact ⟨isSpooled, fun bytes there => complete bytes (data id bytes there)⟩
  · intro c isAcked notBegun
    rw [acked] at isAcked
    obtain ⟨id, req, here⟩ := kept.acked c isAcked fun isBegun => notBegun (begun c isBegun)
    obtain still | ⟨isBegun, _⟩ := control id c req here
    · exact ⟨id, req, still⟩
    · exact absurd isBegun notBegun
  · intro job member
    obtain still | ⟨_, absent⟩ := control _ _ _ (kept.memory job (jobs.subset member))
    · exact still
    · exact absurd rfl (absent job member)

theorem Kept.printer_moves {s s' : Printd} {action : PrinterAction} (kept : s.Kept)
    (moves : PrinterMoves s action s') :
    s'.Kept := by
  have owned := kept.owned.printer_moves moves
  have idle (job : Pending) (member : job ∈ s.jobs) (c : Nat) (id : Int)
      (works : (s.clients c).jobid = some id) :
      id ≠ job.jobid := by
    intro same
    obtain ⟨known, past⟩ := kept.owned.memory job member
    have mine := kept.owned.client c id works
    rw [← kept.apart c job.owner id mine (same ▸ known), works] at past
    cases past
  cases moves with
  | @unlinkData job ok at_ =>
    have member : job ∈ s.jobs := by simp [jobs, at_, Printing.job]
    refine kept.other owned rfl rfl rfl rfl rfl (fun id bytes => lookup_of_unlink)
      (fun id file here => here) ?_
      (fun c isBegun => List.mem_append_left _ isBegun)
        (fun id c req here => .inl here) (by simp [jobs, at_, Printing.job])
      (by simp [Printing.unlinking]) kept.clearing
    intro c id works
    simp [Dir.lookup_unlink, idle job member c id works]
  | @unlinkControl job ok at_ =>
    have member : job ∈ s.jobs := by simp [jobs, at_, Printing.job]
    have isBegun : job.owner ∈ s.begun := kept.unlinking job (by simp [at_, Printing.unlinking])
    have distinct := kept.distinct
    simp only [jobs, at_, Printing.job, Option.toList_some, List.singleton_append, List.map_cons,
      List.nodup_cons] at distinct
    refine kept.other owned rfl rfl rfl rfl rfl (fun id bytes here => here) (fun id file =>
      lookup_of_unlink) ?_
      (fun c isBegun => isBegun) ?_
        (by simp [jobs, at_, Printing.job]) (by simp [Printing.unlinking]) ?_
    · intro c id works
      simp [Dir.lookup_unlink, idle job member c id works]
    · intro id c req here
      by_cases same : id = job.jobid
      · -- the control file of the job itself
        obtain rfl : c = job.owner := by
          rw [same, kept.memory job member] at here
          simp_all
        refine .inr ⟨isBegun, fun job' inQueue eq => distinct.1 ?_⟩
        have queued : job' ∈ s.queue := by simpa [jobs, Printing.job] using inQueue
        exact List.mem_map.mpr ⟨job', queued, eq⟩
      · exact .inl (by simpa [Dir.lookup_unlink, same] using here)
    · intro id entries clears
      obtain ⟨owner, here⟩ := kept.clearing id entries clears
      have other : id ≠ job.jobid := by
        intro same
        rw [same, kept.memory job member] at here
        simp at here
      exact ⟨owner, by simpa [Dir.lookup_unlink, other] using here⟩
  | pickUp at_ head =>
    exact kept.other owned rfl rfl rfl rfl rfl (fun id bytes here =>
      here) (fun id file here => here)
      (fun c id works => ⟨rfl, rfl⟩) (fun c isBegun => isBegun) (fun id c req here => .inl here)
      (by simp [jobs, at_, head, Printing.job]) (by simp [Printing.unlinking]) kept.clearing
  | updateJobno at_ | cancel at_ | openData at_ _ | statusOk at_ | statusFails at_ | replaceJob at_ =>
    exact kept.other owned rfl rfl rfl rfl rfl (fun id bytes here =>
      here) (fun id file here => here)
      (fun c id works => ⟨rfl, rfl⟩) (fun c isBegun => isBegun) (fun id c req here => .inl here)
      (by simp [jobs, at_, Printing.job]) (by simp [Printing.unlinking]) kept.clearing

theorem Kept.main_moves {s s' : Printd} {action : MainAction} (kept : s.Kept)
    (plain : s.Plain (.main action))
    (moves : MainMoves s action s') : s'.Kept := by
  have owned := kept.owned.main_moves moves
  have quiet (other : s.main ≠ .accepting) (c : Nat) (id : Int) (works : (s.clients c).jobid =
      some id) : False := by
    simp [kept.owned.quiet other c] at works
  cases moves with
  | start at_ listing =>
    exact ⟨owned, kept.apart,
      fun c => (kept.stage c).congr (fun _ _ => rfl) (fun _ _ => rfl) rfl id, kept.whole,
      kept.acked,
      kept.memory, kept.distinct, kept.unlinking, by simp [started]⟩
  | startBlind at_ => exact plain.elim
  | skip at_ => exact plain.elim
  | readFails at_ present => exact plain.elim
  | kill up =>
    refine ⟨owned, kept.apart, ?_, kept.whole, kept.acked, by simp [killed, jobs, Printing.job],
      by simp [killed, jobs, Printing.job], by simp [killed, Printing.unlinking], by simp [killed]⟩
    intro c
    simp only [killed]
    split
    · rename_i isAbsent
      have nothing := kept.stage c
      rwa [isAbsent] at nothing
    · trivial
  | @read jobid entries owner req at_ file =>
    refine ⟨owned, kept.apart,
      fun c => (kept.stage c).congr (fun _ _ => rfl) (fun _ _ => rfl) rfl id, kept.whole,
      kept.acked,
      ?_, ?_, kept.unlinking, by simp⟩
    · intro job member
      simp only [jobs, List.mem_append, List.mem_singleton] at member
      obtain held | queued | rfl := member
      · exact kept.memory job (by simp [jobs, held])
      · exact kept.memory job (by simp [jobs, queued])
      · exact file
    · have fresh : owner ∉ s.jobs.map Pending.owner := by
        intro member
        obtain ⟨job, inside, rfl⟩ := List.mem_map.mp member
        have entry := kept.owned.unread.2 job inside
        rw [kept.owned.once _ _ _ (kept.owned.memory job inside).1
          (kept.owned.control jobid _ file), at_] at entry
        simp [Main.entries] at entry
      have more : (s.jobs ++ [Pending.mk owner jobid req]).map Pending.owner =
        s.jobs.map Pending.owner ++ [owner] := by simp
      have distinct : (s.jobs.map Pending.owner ++ [owner]).Nodup := by
        rw [List.nodup_append]
        refine ⟨kept.distinct, by simp, ?_⟩
        intro x inside y last same
        simp only [List.mem_singleton] at last
        exact fresh (last ▸ same ▸ inside)
      rw [← more] at distinct
      simpa [jobs] using distinct
  | @unlinkControl jobid entries ok at_ =>
    obtain ⟨owner, short⟩ := kept.clearing jobid entries at_
    refine kept.other owned rfl rfl rfl rfl rfl (fun id bytes here => here) (fun id file =>
      lookup_of_unlink)
      (fun c id works => (quiet (by simp [at_]) c id works).elim) (fun c isBegun => isBegun) ?_
        (.refl _) kept.unlinking
      (by simp)
    intro id c req here
    have other : id ≠ jobid := by
      intro same
      rw [same, short] at here
      simp at here
    exact .inl (by simpa [Dir.lookup_unlink, other] using here)
  | unlinkData at_ =>
    exact kept.other owned rfl rfl rfl rfl rfl (fun id bytes => lookup_of_unlink)
      (fun id file here => here)
      (fun c id works => (quiet (by simp [at_]) c id works).elim) (fun c isBegun => isBegun)
      (fun id c req here => .inl here) (.refl _) kept.unlinking (by simp)
  | @readShort jobid entries owner at_ file =>
    exact kept.other owned rfl rfl rfl rfl rfl (fun id bytes here =>
      here) (fun id file here => here)
      (fun c id works => ⟨rfl, rfl⟩) (fun c isBegun => isBegun) (fun id c req here =>
        .inl here) (.refl _) kept.unlinking
      (by simpa using ⟨owner, file⟩)
  | ready at_ =>
    exact kept.other owned rfl rfl rfl rfl rfl (fun id bytes here =>
      here) (fun id file here => here)
      (fun c id works => ⟨rfl, rfl⟩) (fun c isBegun => isBegun) (fun id c req here =>
        .inl here) (.refl _) kept.unlinking
      (by simp)

theorem Scanning.printer_moves {s s' : Printd} {action : PrinterAction} (kept : s.Kept)
    (scanning : s.Scanning)
    (moves : PrinterMoves s action s') : s'.Scanning := by
  cases moves with
  | @unlinkControl job ok at_ =>
    have member : job ∈ s.jobs := by simp [jobs, at_, Printing.job]
    refine ⟨?_, scanning.once, ?_⟩
    · intro c isAcked before
      obtain done | ⟨id, entry, req, here⟩ := scanning.pending c isAcked before
      · exact .inl done
      · have other : id ≠ job.jobid := fun same => kept.owned.unread.2 job member (same ▸ entry)
        exact .inr ⟨id, entry, req, by simpa [Dir.lookup_unlink, other] using here⟩
    · refine scanning.tally.trans ?_
      simp only [jobs, at_, Printing.job, Option.toList_some, Option.toList_none,
        List.singleton_append, List.nil_append,
        List.map_cons, ← List.append_assoc]
      exact (List.perm_append_singleton _ _).symm
  | @cancel job at_ =>
    refine ⟨scanning.pending, scanning.once, scanning.tally.trans ?_⟩
    simp only [jobs, at_, Printing.job, Option.toList_some, Option.toList_none,
      List.singleton_append, List.nil_append,
      List.map_cons, ← List.append_assoc]
    exact (List.perm_append_singleton _ _).symm
  | pickUp at_ head =>
    have tally := scanning.tally
    exact ⟨scanning.pending, scanning.once, by simpa [jobs, at_, head, Printing.job] using tally⟩
  | updateJobno at_ | openData at_ _ | statusOk at_ | statusFails at_ | unlinkData at_ | replaceJob at_ =>
    have tally := scanning.tally
    exact ⟨scanning.pending, scanning.once, by simpa [jobs, at_, Printing.job] using tally⟩

/-- `opendir` lists every control file. -/
theorem Kept.scanning {s : Printd} {entries : List Int} (kept : s.Kept) (down : s.main = .down)
    (listing : entries.Perm s.reqs.keys) : (s.started (.scanning entries)).Scanning := by
  have empty : (s.started (.scanning entries)).jobs = [] := kept.owned.stopped down
  refine ⟨?_, by simp [started], by rw [empty]; exact .refl _⟩
  intro c isAcked before
  obtain ⟨id, req, here⟩ := kept.acked c isAcked before
  refine .inr ⟨id, ?_, req, here⟩
  have present : id ∈ s.reqs := AList.lookup_isSome.mp (by simp [here])
  exact listing.mem_iff.mpr (AList.mem_keys.mp present)

theorem Scanning.read {s : Printd} {jobid : Int} {entries : List Int} {owner : Nat} {req : PrintReq}
    (kept : s.Kept)
    (scanning : s.Scanning) (at_ : s.main = .scanning (jobid :: entries))
    (file : s.reqs.lookup jobid = some ⟨owner, some req⟩) :
    Scanning { s with
      main := .scanning entries
      queue := s.queue ++ [⟨owner, jobid, req⟩]
      recovered := s.recovered ++ [owner] } := by
  have known := kept.owned.control jobid _ file
  have unread := kept.owned.unread.1
  obtain ⟨nodup, away⟩ := scanning.once
  simp only [at_, Main.entries, List.nodup_cons] at unread
  simp only [at_, Main.entries] at away
  refine ⟨?_, ⟨?_, ?_⟩, ?_⟩
  · intro c isAcked before
    obtain done | ⟨id, entry, req', here⟩ := scanning.pending c isAcked before
    · exact .inl (by simp [done])
    · simp only [at_, Main.entries, List.mem_cons] at entry
      obtain rfl | later := entry
      · -- this is the entry that is being read
        rw [file] at here
        simp only [Option.some.injEq, Control.mk.injEq] at here
        exact .inl (by simp [here.1])
      · exact .inr ⟨id, later, req', here⟩
  · rw [List.nodup_append]
    refine ⟨nodup, by simp, ?_⟩
    intro x inside y last same
    simp only [List.mem_singleton] at last
    exact away x inside jobid (by simp) (by rw [same, last]; exact known)
  · intro c member id entry
    simp only [List.mem_append, List.mem_singleton] at member
    obtain old | rfl := member
    · exact away c old id (List.mem_cons_of_mem _ entry)
    · intro other
      rw [kept.owned.once _ _ _ other known] at entry
      exact unread.1 entry
  · have more : Printd.jobs { s with
        main := .scanning entries
        queue := s.queue ++ [⟨owner, jobid, req⟩]
        recovered := s.recovered ++ [owner] } = s.jobs ++
          [Pending.mk owner jobid req] := by simp [jobs]
    rw [more, List.map_append, List.append_assoc]
    refine (scanning.tally.append_right [owner]).trans ?_
    rw [List.append_assoc]
    exact (List.perm_append_comm).append_left _

theorem Scanning.main_moves {s s' : Printd} {action : MainAction} (kept : s.Kept)
    (scanning : s.main ≠ .down → s.main ≠ .accepting → s.Scanning) (plain : s.Plain (.main action))
    (moves : MainMoves s action s') (up : s'.main ≠ .down) (notYet : s'.main ≠ .accepting) :
    s'.Scanning := by
  cases moves with
  | start at_ listing => exact kept.scanning at_ listing
  | startBlind at_ => exact plain.elim
  | skip at_ => exact plain.elim
  | readFails at_ present => exact plain.elim
  | kill isUp => exact absurd rfl up
  | ready at_ => exact absurd rfl notYet
  | read at_ file => exact Scanning.read kept (scanning (by simp [at_]) (by simp [at_])) at_ file
  | @readShort jobid entries owner at_ file =>
    have scans := scanning (by simp [at_]) (by simp [at_])
    refine ⟨?_, ⟨scans.once.1, ?_⟩, scans.tally⟩
    · intro c isAcked before
      obtain done | ⟨id, entry, req, here⟩ := scans.pending c isAcked before
      · exact .inl done
      · simp only [at_, Main.entries, List.mem_cons] at entry
        obtain rfl | later := entry
        · rw [file] at here
          simp at here
        · exact .inr ⟨id, later, req, here⟩
    · intro c member id entry
      exact scans.once.2 c member id (by simpa [at_, Main.entries] using Or.inr entry)
  | @unlinkControl jobid entries ok at_ =>
    have scans := scanning (by simp [at_]) (by simp [at_])
    obtain ⟨owner, short⟩ := kept.clearing jobid entries at_
    refine ⟨?_, ⟨scans.once.1, ?_⟩, scans.tally⟩
    · intro c isAcked before
      obtain done | ⟨id, entry, req, here⟩ := scans.pending c isAcked before
      · exact .inl done
      · have other : id ≠ jobid := by
          intro same
          rw [same, short] at here
          simp at here
        refine .inr ⟨id, by simpa [at_, Main.entries] using entry, req, ?_⟩
        simpa [Dir.lookup_unlink, other] using here
    · simpa [at_, Main.entries] using scans.once.2
  | unlinkData at_ =>
    have scans := scanning (by simp [at_]) (by simp [at_])
    exact ⟨by simpa [at_, Main.entries] using scans.pending, ⟨scans.once.1, by simpa [at_, Main.entries] using scans.once.2⟩,
      scans.tally⟩

/-- The invariant of a run whose ids are distinct and whose starts can read the spool
directories. -/
structure Recoverable (s : Printd) : Prop where
  kept : s.Kept
  scanning : s.main ≠ .down → s.main ≠ .accepting → s.Scanning

theorem Recoverable.step {s s' : Printd} {action : SpoolAction} (recoverable : s.Recoverable)
    (plain : s.Plain action)
    (steps : s.step action = some s') : s'.Recoverable := by
  obtain ⟨kept, scanning⟩ := recoverable
  cases action with
  | client c action =>
    have moves := stepClient_moves steps
    refine ⟨kept.client_moves plain moves, fun up notYet => ?_⟩
    have main : s'.main = s.main := by cases moves <;> rfl
    -- no client thread moves during a start
    have idle := kept.owned.quiet (main ▸ notYet) c
    cases moves <;> simp_all [Client.jobid]
  | printer action =>
    have moves := stepPrinter_moves steps
    have main : s'.main = s.main := by cases moves <;> rfl
    refine ⟨kept.printer_moves moves, fun up notYet => ?_⟩
    exact Scanning.printer_moves kept (scanning (main ▸ up) (main ▸ notYet)) moves
  | main action =>
    have moves := stepMain_moves steps
    exact ⟨kept.main_moves plain moves, Scanning.main_moves kept scanning plain moves⟩

end Printd

/-- When `build_qonstart` has finished, it has put every job that was answered and not begun to be
deleted on the queue once; what it has put there is queued, in hand or freed since; and the data of
a queued job is complete. -/
theorem spool_recovers {actions : List SpoolAction} {final s : Printd}
    (runs : execute Printd.step .fresh actions = some final)
    (distinct : ∀ s c req, Takes Printd.step .fresh actions s (.client c (.submit req)) →
    ∀ c', (c', s.nextjob) ∉ s.issued)
    (readable : ∀ s, ¬ Takes Printd.step .fresh actions s (.main .startBlind) ∧
      ¬ Takes Printd.step .fresh actions s (.main .skip) ∧
        ¬ Takes Printd.step .fresh actions s (.main .readFails))
    (finished : Takes Printd.step .fresh actions s (.main .ready)) :
    (∀ c ∈ s.acked, c ∉ s.begunBefore → s.recovered.count c = 1) ∧
      s.recovered.Perm (s.jobs.map Pending.owner ++ s.dropped) ∧
      ∀ job ∈ s.queue, job.owner ∈ s.spooled ∧
        ∀ bytes, s.data.lookup job.jobid = some bytes → bytes = s.received job.owner := by
  have plain (s : Printd) (action : SpoolAction) (takes : Takes Printd.step .fresh actions s
      action) : s.Plain action := by
    cases action with
    | client c action =>
      cases action with
      | submit req => exact distinct s c req takes
      | _ => trivial
    | printer action => trivial
    | main action =>
      cases action with
      | startBlind => exact (readable s).1 takes
      | skip => exact (readable s).2.1 takes
      | readFails => exact (readable s).2.2 takes
      | _ => trivial
  have start : Printd.fresh.Recoverable := ⟨Printd.fresh_kept, fun up => absurd rfl up⟩
  have recoverable : s.Recoverable :=
    finished.visits.invariant Printd.Recoverable Printd.Plain start
    (fun _ _ _ recoverable allowed steps => recoverable.step allowed steps) plain
  obtain ⟨s', steps, _⟩ := finished.next runs
  have at_ : s.main = .scanning [] := by
    have moves : s.MainMoves .ready s' := Printd.stepMain_moves steps
    cases moves with
    | ready at_ => exact at_
  have scanning := recoverable.scanning (by simp [at_]) (by simp [at_])
  refine ⟨?_, scanning.tally, ?_⟩
  · intro c isAcked before
    obtain done | ⟨id, entry, _⟩ := scanning.pending c isAcked before
    · exact List.count_eq_one_of_mem scanning.once.1 done
    · simp [at_, Main.entries] at entry
  · intro job queued
    exact recoverable.kept.whole _ _ _ (recoverable.kept.memory job (by simp [Printd.jobs, queued]))

/-- The daemon is killed when it has printed a job and not yet removed its files, behind another
client's answer, and restarted. -/
def killedAndRestarted : List SpoolAction :=
  [.main (.start []), .main .ready] ++ submission 0 ++ [.client 0 .addJob] ++ submission 1 ++
    [.pickUp, .updateJobno, .openData, .status true].map .printer ++
    [.main .kill, .main (.start [2, 1]), .main .read, .main .read]

theorem spool_recovers_two :
    ∃ s, execute Printd.step .fresh killedAndRestarted = some s ∧ s.acked = [0, 1] ∧
    s.printed = [0] ∧ s.begunBefore = [] ∧ ∀ c ∈ s.acked, c ∉ s.begunBefore →
      s.recovered.count c = 1 := by
  have evaluates : (execute Printd.step .fresh killedAndRestarted).map
      (fun s => (s.acked, s.printed, s.begunBefore)) =
      some ([0, 1], [0], []) := by decide
  have whole : (execute Printd.step .fresh (killedAndRestarted ++ [.main .ready])).isSome := by
    decide
  have passes : allTaken Printd.step (fun s action => decide (s.Plain action)) .fresh
      (killedAndRestarted ++ [.main .ready]) = true := by decide
  obtain ⟨s, runs, facts⟩ := Option.map_eq_some_iff.mp evaluates
  obtain ⟨final, whole⟩ := Option.isSome_iff_exists.mp whole
  simp only [Prod.mk.injEq] at facts
  have plain (s : Printd) (action : SpoolAction)
      (takes : Takes Printd.step .fresh (killedAndRestarted ++ [.main .ready]) s action) :
        s.Plain action := by
    simpa using takes.of_allTaken passes
  refine ⟨s, runs, facts.1, facts.2.1, facts.2.2,
    (spool_recovers whole (fun s c req takes => plain s _ takes) (fun s => ?_)
    ⟨killedAndRestarted, [], rfl, runs⟩).1⟩
  exact ⟨fun takes => plain s _ takes, fun takes => plain s _ takes, fun takes => plain s _ takes⟩

/-- At the end of `build_qonstart` the queue lacks an answered job: the printer thread has it in
hand, or `opendir` has failed. -/
theorem recovered_job_not_queued :
    (∃ s, execute Printd.step .fresh ([.main (.start []), .main .ready] ++ submission 0 ++
        [.main .kill, .main (.start [1]), .main .read, .printer .pickUp, .main .ready]) = some s ∧
      0 ∈ s.acked ∧ 0 ∉ s.begun ∧ s.queue = []) ∧
    ∃ s, execute Printd.step .fresh ([.main (.start []), .main .ready] ++ submission 0 ++
        [.main .kill, .main .startBlind]) = some s ∧ 0 ∈ s.acked ∧ 0 ∉ s.begun ∧ s.queue = [] := by
  have inHand : (execute Printd.step .fresh ([.main (.start []), .main .ready] ++ submission 0 ++
        [.main .kill, .main (.start [1]), .main .read, .printer .pickUp, .main .ready])).map
      (fun s => (s.acked, s.begun, s.queue)) = some ([0], [], []) := by decide
  have blind : (execute Printd.step .fresh ([.main (.start []), .main .ready] ++ submission 0 ++
        [.main .kill, .main .startBlind])).map (fun s => (s.acked, s.begun, s.queue)) =
          some ([0], [], []) := by decide
  obtain ⟨s, runs, facts⟩ := Option.map_eq_some_iff.mp inHand
  obtain ⟨s', runs', facts'⟩ := Option.map_eq_some_iff.mp blind
  simp only [Prod.mk.injEq] at facts facts'
  exact ⟨⟨s, runs, by simp [facts.1], by simp [facts.2.1], facts.2.2⟩,
    s', runs', by simp [facts'.1], by simp [facts'.2.1], facts'.2.2⟩

end Apue.Printer
