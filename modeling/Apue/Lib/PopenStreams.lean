import Apue.Lib.Popen

/-! # The bookkeeping of `popen`

Whatever fails, the streams that are open have a descriptor of their own and a child of their own
that nobody has waited for.  What a failure spoils is that nothing else is left: a `fork` or an
`fdopen` that fails leaves a descriptor open that belongs to no stream, and nothing that comes later
closes it.
-/

namespace Apue.Lib.Popen

open Apue.Base

variable {maxfd pfd0 pfd1 : Nat} {s s' : State} {type : Bytes} {outcome : Outcome}
    {popened : Popened}

/-! ## What holds in spite of failures -/

/-- What is there for a stream that is open. -/
structure State.Holds (maxfd : Nat) (s : State) (stream : Stream) : Prop where
  bound : stream.fd < maxfd
  pid : s.pidAt stream.fd = stream.child.pid
  running : stream.child ∈ s.children
  kept : ∃ d, s.table stream.fd = some d ∧ d.pipe ≠ none

structure State.Inv (maxfd : Nat) (initial : Nat → Option Nat) (status : Nat → Int)
    (s : State) : Prop where
  initially : ∀ fd file, s.table fd = some (.initial file) ↔ initial fd = some file
  made : ∀ fd d pipe, s.table fd = some d → d.pipe = some pipe → pipe < s.pipes
  unique : ∀ fd fd' d, s.table fd = some d → s.table fd' = some d → d.pipe ≠ none → fd = fd'
  holds : ∀ stream ∈ s.streams, s.Holds maxfd stream
  childpid : ∀ fd, s.pidAt fd ≠ 0 → ∃ stream ∈ s.streams, stream.fd = fd
  positive : ∀ child ∈ s.children, 0 < child.pid
  pids : (s.children.map Child.pid).Nodup
  apart : (s.streams.map Stream.fd).Nodup
  owners : (s.streams.map Stream.child).Nodup
  results : ∀ entry ∈ s.closed, entry.2 = status entry.1.serial

/-- A descriptor is open that belongs to nobody. -/
def State.Leaked (initial : Nat → Option Nat) (s : State) : Prop :=
  ∃ fd, s.table fd ≠ none ∧ initial fd = none ∧ ∀ stream ∈ s.streams, stream.fd ≠ fd

/-- Nothing is left over. -/
structure State.Clean (initial : Nat → Option Nat) (s : State) : Prop where
  descriptors : ¬s.Leaked initial
  waited : ∀ child ∈ s.children, ∃ stream ∈ s.streams, stream.child = child

variable {initial : Nat → Option Nat} {status : Nat → Int}

theorem State.start_inv : (State.start initial).Inv maxfd initial status where
  initially fd file := by simp [start]
  made fd d pipe found isEnd := by
    obtain ⟨file, -, rfl⟩ : ∃ file, initial fd = some file ∧ Description.initial file = d := by
      simpa [start] using found
    cases isEnd
  unique fd fd' d found _ isEnd := by
    obtain ⟨file, -, rfl⟩ : ∃ file, initial fd = some file ∧ Description.initial file = d := by
      simpa [start] using found
    exact absurd rfl isEnd
  holds _ member := by cases member
  childpid fd nonzero := absurd rfl nonzero
  positive _ member := by cases member
  pids := List.nodup_nil
  apart := List.nodup_nil
  owners := List.nodup_nil
  results _ member := by cases member

theorem State.start_clean : (State.start initial).Clean initial where
  descriptors := by
    rintro ⟨fd, opened, free, -⟩
    simp [start, free] at opened
  waited _ member := by cases member

namespace State.Inv

/-- A stream is told by its descriptor. -/
theorem stream_eq (inv : s.Inv maxfd initial status) {stream other : Stream}
    (member : stream ∈ s.streams)
    (member' : other ∈ s.streams) (same : stream.fd = other.fd) : stream = other :=
  List.inj_on_of_nodup_map inv.apart member member' same

theorem stream_initial (inv : s.Inv maxfd initial status) {stream : Stream}
    (member : stream ∈ s.streams) :
    initial stream.fd = none := by
  obtain ⟨d, found, isEnd⟩ := (inv.holds stream member).kept
  by_contra some
  obtain ⟨file, here⟩ := Option.ne_none_iff_exists'.mp some
  have same := (inv.initially stream.fd file).mpr here
  rw [found, Option.some.injEq] at same
  subst same
  exact isEnd rfl

/-- A free descriptor belongs to no stream. -/
theorem stream_ne (inv : s.Inv maxfd initial status) {fd : Nat} (free : s.table fd = none)
    {stream : Stream}
    (member : stream ∈ s.streams) : stream.fd ≠ fd := by
  rintro rfl
  obtain ⟨d, found, -⟩ := (inv.holds stream member).kept
  simp [free] at found

theorem renumbered (inv : s.Inv maxfd initial status) {childpid : Option (Nat → Nat)} {pipes : Nat}
    (same : ∀ fd, childpid.getD (fun _ => 0) fd = s.pidAt fd) (more : s.pipes ≤ pipes) :
    State.Inv maxfd initial status { s with childpid := childpid, pipes := pipes } where
  initially := inv.initially
  made fd d pipe found isEnd := Nat.lt_of_lt_of_le (inv.made fd d pipe found isEnd) more
  unique := inv.unique
  holds stream member := by
    obtain ⟨bound, pid, running, kept⟩ := inv.holds stream member
    exact ⟨bound, (same stream.fd).trans pid, running, kept⟩
  childpid fd nonzero := inv.childpid fd fun zero => nonzero ((same fd).trans zero)
  positive := inv.positive
  pids := inv.pids
  apart := inv.apart
  owners := inv.owners
  results := inv.results

/-- The ends of a new pipe are where they were put. -/
theorem piped_of_new (inv : s.Inv maxfd initial status) {pfd0 pfd1 fd : Nat} {d : Description}
    (new : d.pipe = some s.pipes) :
    (s.piped pfd0 pfd1).table fd = some d ↔
      fd = pfd1 ∧ d = .writeEnd s.pipes ∨ fd ≠ pfd1 ∧ fd = pfd0 ∧ d = .readEnd s.pipes := by
  rw [piped_apply]
  by_cases second : fd = pfd1
  · simp [second, eq_comm]
  · rw [if_neg second]
    by_cases first : fd = pfd0
    · simp [first, first ▸ second, eq_comm]
    · have old : s.table fd ≠ some d := fun found => Nat.lt_irrefl _ (inv.made fd d _ found new)
      simp [first, second, old]

theorem piped (inv : s.Inv maxfd initial status) {pfd0 pfd1 : Nat}
    (fresh : Fresh maxfd s pfd0 pfd1) :
    (s.piped pfd0 pfd1).Inv maxfd initial status where
  initially fd file := by
    rw [piped_apply, ← inv.initially]
    split_ifs with second first
    · simp [second, fresh.free1]
    · simp [first, fresh.free0]
    · rfl
  made fd d pipe found isEnd := by
    rw [piped_apply] at found
    simp only [State.piped]
    split_ifs at found
    · obtain rfl := Option.some.inj found
      cases isEnd
      exact Nat.lt_succ_self _
    · obtain rfl := Option.some.inj found
      cases isEnd
      exact Nat.lt_succ_self _
    · exact Nat.lt_succ_of_lt (inv.made fd d pipe found isEnd)
  unique fd fd' d found found' isEnd := by
    -- an end of the new pipe, or what was there before
    by_cases new : d.pipe = some s.pipes
    · rw [inv.piped_of_new new] at found found'
      obtain ⟨rfl, rfl⟩ | ⟨-, rfl, rfl⟩ := found
      · obtain ⟨rfl, -⟩ | ⟨-, -, impossible⟩ := found'
        · rfl
        · cases impossible
      · obtain ⟨-, impossible⟩ | ⟨-, rfl, -⟩ := found'
        · cases impossible
        · rfl
    · have old : ∀ other, (s.piped pfd0 pfd1).table other = some d → s.table other = some d := by
        intro other here
        rw [piped_apply] at here
        split_ifs at here
        · exact absurd (Option.some.inj here ▸ rfl) new
        · exact absurd (Option.some.inj here ▸ rfl) new
        · exact here
      exact inv.unique fd fd' d (old fd found) (old fd' found') isEnd
  holds stream member := by
    obtain ⟨bound, pid, running, d, found, isEnd⟩ := inv.holds stream member
    refine ⟨bound, pid, running, d, ?_, isEnd⟩
    rw [piped_apply, if_neg (inv.stream_ne fresh.free1 member),
      if_neg (inv.stream_ne fresh.free0 member), found]
  childpid := inv.childpid
  positive := inv.positive
  pids := inv.pids
  apart := inv.apart
  owners := inv.owners
  results := inv.results

/-- The parent closes an end of a pipe that no stream has. -/
theorem given (inv : s.Inv maxfd initial status) {given : Nat} {d : Description}
    (held : s.table given = some d)
    (isEnd : d.pipe ≠ none) (nobody : ∀ stream ∈ s.streams, stream.fd ≠ given) (child : Child)
    (positive : 0 < child.pid)
    (new : ∀ other ∈ s.children, other.pid ≠ child.pid) :
    (s.forked given child).Inv maxfd initial status where
  initially fd file := by
    simp only [State.forked]
    rw [close_eq_some, inv.initially]
    refine ⟨And.right, fun here => ⟨?_, here⟩⟩
    rintro rfl
    have same := (inv.initially fd file).mpr here
    rw [held, Option.some.injEq] at same
    subst same
    exact isEnd rfl
  made fd d pipe found := inv.made fd d pipe (close_eq_some.mp found).2
  unique fd fd' d found found' :=
    inv.unique fd fd' d (close_eq_some.mp found).2 (close_eq_some.mp found').2
  holds stream member := by
    obtain ⟨bound, pid, running, d, found, isEnd⟩ := inv.holds stream member
    exact ⟨bound, pid, List.mem_cons_of_mem _ running, d,
      close_eq_some.mpr ⟨nobody stream member, found⟩, isEnd⟩
  childpid := inv.childpid
  positive other member := by
    obtain rfl | old := List.mem_cons.mp member
    · exact positive
    · exact inv.positive other old
  pids := by
    simp only [State.forked]
    rw [List.map_cons, List.nodup_cons]
    refine ⟨fun member => ?_, inv.pids⟩
    obtain ⟨other, old, same⟩ := List.mem_map.mp member
    exact new other old same
  apart := inv.apart
  owners := inv.owners
  results := inv.results

theorem allocated (inv : s.Inv maxfd initial status) : s.allocated.Inv maxfd initial status :=
  inv.renumbered (fun _ => rfl) (Nat.le_refl _)

/-- The parent closes the child's end. -/
theorem forked (inv : s.Inv maxfd initial status) (fresh : Fresh maxfd s pfd0 pfd1) (mode : Mode)
    (child : Child)
    (positive : 0 < child.pid) (new : ∀ other ∈ s.children, other.pid ≠ child.pid) :
    ((s.allocated.piped pfd0 pfd1).forked (mode.ends pfd0 pfd1).2 child).Inv maxfd initial
      status := by
  obtain ⟨-, d, held, isEnd⟩ := fresh.allocated.held mode
  have nobody : ∀ stream ∈ s.streams, stream.fd ≠ (mode.ends pfd0 pfd1).2 :=
    fun stream member => inv.stream_ne (fresh.ends mode).free1 member
  exact (inv.allocated.piped fresh.allocated).given held (by simp [isEnd]) nobody child positive new

/-- A stream on the end that is kept. -/
theorem opened (inv : s.Inv maxfd initial status) (stream : Stream) (bound : stream.fd < maxfd)
    (kept : ∃ d, s.table stream.fd = some d ∧ d.pipe ≠ none) (running : stream.child ∈ s.children)
    (nobody : ∀ other ∈ s.streams, other.fd ≠ stream.fd)
    (own : ∀ other ∈ s.streams, other.child ≠ stream.child) :
    (s.opened stream).Inv maxfd initial status where
  initially := inv.initially
  made := inv.made
  unique := inv.unique
  holds other member := by
    obtain rfl | old := List.mem_cons.mp member
    · exact ⟨bound, by rw [opened_pidAt, if_pos rfl], running, kept⟩
    · obtain ⟨bound, pid, running, kept⟩ := inv.holds other old
      refine ⟨bound, ?_, running, kept⟩
      rw [opened_pidAt, if_neg (nobody other old), pid]
  childpid fd nonzero := by
    by_cases same : fd = stream.fd
    · exact ⟨stream, List.mem_cons_self, same.symm⟩
    · obtain ⟨other, old, here⟩ := inv.childpid fd (by rwa [opened_pidAt, if_neg same] at nonzero)
      exact ⟨other, List.mem_cons_of_mem _ old, here⟩
  positive := inv.positive
  pids := inv.pids
  apart := by
    simp only [State.opened]
    rw [List.map_cons, List.nodup_cons]
    refine ⟨fun member => ?_, inv.apart⟩
    obtain ⟨other, old, same⟩ := List.mem_map.mp member
    exact nobody other old same
  owners := by
    simp only [State.opened]
    rw [List.map_cons, List.nodup_cons]
    refine ⟨fun member => ?_, inv.owners⟩
    obtain ⟨other, old, same⟩ := List.mem_map.mp member
    exact own other old same
  results := inv.results

end State.Inv

/-! ## One step -/

/-- What a step does to the invariant and to what is left over. -/
structure Effect (maxfd : Nat) (initial : Nat → Option Nat) (status : Nat → Int) (s s' : State)
    (leaks : Prop) : Prop where
  inv : s'.Inv maxfd initial status
  clean : s.Clean initial → ¬leaks → s'.Clean initial
  leaked : s.Leaked initial ∨ leaks → s'.Leaked initial

/-- A state with the same descriptors, children and streams is no cleaner. -/
theorem Effect.of_same {leaks : Prop} (inv : s'.Inv maxfd initial status)
    (table : s'.table = s.table)
    (children : s'.children = s.children) (streams : s'.streams = s.streams) (none : ¬leaks) :
    Effect maxfd initial status s s' leaks := by
  have leaked : s'.Leaked initial ↔ s.Leaked initial := by simp only [State.Leaked, table, streams]
  refine ⟨inv, fun clean _ => ⟨fun lost => clean.descriptors (leaked.mp lost), ?_⟩, fun lost => ?_⟩
  · rw [children, streams]
    exact clean.waited
  · exact leaked.mpr (lost.resolve_right none)

/-- What was open and belonged to nobody still does when the ends of a new pipe have taken free
descriptors. -/
theorem State.Leaked.mono (leaked : s.Leaked initial)
    (table : ∀ fd, s.table fd ≠ none → s'.table fd = s.table fd)
    (streams : ∀ stream ∈ s'.streams, stream ∈ s.streams ∨ s.table stream.fd = none) :
    s'.Leaked initial := by
  obtain ⟨fd, opened, free, nobody⟩ := leaked
  refine ⟨fd, by rwa [table fd opened], free, fun stream member same => ?_⟩
  obtain old | new := streams stream member
  · exact nobody stream old same
  · exact opened (same ▸ new)

/-- A descriptor that is free is no initial one. -/
theorem State.Inv.initial_none (inv : s.Inv maxfd initial status) {fd : Nat}
    (free : s.table fd = none) :
    initial fd = none := by
  by_contra some
  obtain ⟨file, here⟩ := Option.ne_none_iff_exists'.mp some
  simp [(inv.initially fd file).mpr here] at free

/-- No process is left alone when the stream is there, and the descriptor of the stream is the only
new one. -/
theorem Effect.opened {leaks : Prop} (inv : s.Inv maxfd initial status)
    (fresh : Fresh maxfd s pfd0 pfd1) (mode : Mode)
    (child : Child) (positive : 0 < child.pid) (new : ∀ other ∈ s.children, other.pid ≠ child.pid)
    (fine : ¬leaks) :
    Effect maxfd initial status s
      (((s.allocated.piped pfd0 pfd1).forked (mode.ends pfd0 pfd1).2 child).opened
        ⟨(mode.ends pfd0 pfd1).1, child⟩) leaks := by
  have ends := fresh.ends mode
  obtain ⟨d, still, isEnd⟩ := fresh.allocated.kept mode
  have own : ∀ other ∈ s.streams, other.child ≠ child := by
    intro other member same
    exact new other.child (inv.holds other member).running (by rw [same])
  refine ⟨?_, fun clean _ => ⟨?_, ?_⟩, fun lost => ?_⟩
  · exact (inv.forked fresh mode child positive new).opened ⟨(mode.ends pfd0 pfd1).1,
      child⟩ ends.bound0
      ⟨d, still, by simp [isEnd]⟩ List.mem_cons_self
        (fun other member => inv.stream_ne ends.free0 member) own
  · rintro ⟨fd, opened, free, nobody⟩
    have other : fd ≠ (mode.ends pfd0 pfd1).1 := (nobody _ List.mem_cons_self).symm
    have before : s.table fd ≠ none :=
      fun closed => opened ((fresh.allocated.others mode other).trans closed)
    exact clean.descriptors ⟨fd, before, free, fun stream member =>
      nobody stream (List.mem_cons_of_mem _ member)⟩
  · intro other member
    obtain rfl | old := List.mem_cons.mp member
    · exact ⟨_, List.mem_cons_self, rfl⟩
    · obtain ⟨stream, owner, own⟩ := clean.waited other old
      exact ⟨stream, List.mem_cons_of_mem _ owner, own⟩
  · refine (lost.resolve_right fine).mono (fun fd => fresh.allocated.untouched mode)
      fun stream member => ?_
    obtain rfl | old := List.mem_cons.mp member
    · exact .inr ends.free0
    · exact .inl old

theorem State.Inv.popen (inv : s.Inv maxfd initial status)
    (answers : Popen.popen maxfd s type outcome = some popened) :
    Effect maxfd initial status s popened.state (Leaks maxfd s (.popen type outcome)) := by
  obtain ⟨none, -, -, childpid, pipes, same, more, state⟩ | ⟨mode, pfd0, pfd1, -, fresh, rest⟩ :=
    popen_cases answers
  · rw [state]
    exact .of_same (inv.renumbered same more) rfl rfl rfl none
  · obtain ⟨leaks, rfl⟩ | ⟨pid, positive, new, leaks, rfl⟩ := rest
    · -- `fork` has failed: both ends are left, with no stream on them
      have opened : (s.allocated.piped pfd0 pfd1).table pfd0 ≠ none := by
        simp [fresh.allocated.reads]
      refine ⟨inv.allocated.piped fresh.allocated, fun _ none => absurd leaks none, fun _ => ?_⟩
      exact ⟨pfd0, opened, inv.initial_none fresh.free0, fun stream member =>
        inv.stream_ne fresh.free0 member⟩
    · rw [afterFork_state _ _ _ _ _ _ _ rfl]
      split
      · rename_i fdopen
        exact .opened inv fresh mode ⟨pid, s.forks⟩ positive new (by simp [leaks, fdopen])
      · -- `fdopen` has failed: the parent's end is left
        rename_i fdopen
        have fails : Leaks maxfd s (.popen type outcome) := by simpa [leaks] using fdopen
        have ends := fresh.ends mode
        obtain ⟨d, still, -⟩ := fresh.allocated.kept mode
        refine ⟨inv.forked fresh mode _ positive new, fun _ none => absurd fails none, fun _ => ?_⟩
        refine ⟨(mode.ends pfd0 pfd1).1, ?_, inv.initial_none ends.free0, fun stream member =>
          inv.stream_ne ends.free0 member⟩
        exact Option.ne_none_iff_exists'.mpr ⟨d, still⟩

theorem find?_eq_some_of_unique {α : Type} {l : List α} {test : α → Bool} {a : α} (member : a ∈ l)
    (passes : test a = true)
    (only : ∀ b ∈ l, test b = true → b = a) : l.find? test = some a := by
  cases found : l.find? test with
  | none => simp [List.find?_eq_none.mp found a member] at passes
  | some b => rw [only b (List.mem_of_find?_eq_some found) (List.find?_some found)]

/-- After the `pclose` of an open stream. -/
def State.closedBy (status : Nat → Int) (s : State) (stream : Stream) : State :=
  { s with
    table := close s.table stream.fd
    childpid := s.childpid.map fun childpid => Function.update childpid stream.fd 0
    children := s.children.erase stream.child
    streams := s.streams.filter fun other => other.fd ≠ stream.fd
    closed := s.closed ++ [(stream.child, status stream.child.serial)] }

theorem State.closedBy_pidAt (status : Nat → Int) (s : State) (stream : Stream) (fd : Nat) :
    (s.closedBy status stream).pidAt fd = if fd = stream.fd then 0 else s.pidAt fd := by
  unfold closedBy pidAt
  cases s.childpid <;> simp [Function.update_apply]

theorem State.mem_closedBy {stream other : Stream} :
    other ∈ (s.closedBy status stream).streams ↔ other ∈ s.streams ∧ other.fd ≠ stream.fd := by
  simp [closedBy]

/-- A `pclose` does nothing, or it finds the child of the stream and waits for it. -/
theorem State.Inv.pclose_cases (inv : s.Inv maxfd initial status) {fd : Nat}
    (closes : Popen.pclose maxfd status s fd = some s') :
    s' = s ∨ ∃ stream ∈ s.streams, stream.fd = fd ∧ s' = s.closedBy status stream := by
  unfold Popen.pclose at closes
  split at closes
  · simp at closes
  · simp only at closes
    split at closes
    · exact .inl (Option.some.inj closes).symm
    · rename_i checks
      simp only [not_or] at checks
      obtain ⟨stream, member, rfl⟩ := inv.childpid fd checks.2.2
      obtain ⟨bound, pid, running, kept⟩ := inv.holds stream member
      -- the stream and the child are the only ones with this descriptor and this id
      have found : s.streams.find? (fun other => other.fd = stream.fd) = some stream := by
        refine find?_eq_some_of_unique member (by simp) fun other member' same => ?_
        exact inv.stream_eq member' member (by simpa using same)
      have waits : waitpid status s.children (s.pidAt stream.fd) =
          (status stream.child.serial, s.children.erase stream.child) := by
        have child : s.children.find? (fun child => child.pid = s.pidAt stream.fd) =
            some stream.child := by
          refine find?_eq_some_of_unique running (by simp [pid]) fun other member' same => ?_
          exact List.inj_on_of_nodup_map inv.pids member' running (by simpa [pid] using same)
        simp only [waitpid, child]
      rw [waits, found, Option.some.injEq] at closes
      exact .inr ⟨stream, member, rfl, closes.symm⟩

theorem State.Inv.closedBy (inv : s.Inv maxfd initial status) {stream : Stream}
    (member : stream ∈ s.streams) :
    (s.closedBy status stream).Inv maxfd initial status where
  initially fd file := by
    change close s.table stream.fd fd = some (.initial file) ↔ initial fd = some file
    rw [close_eq_some, inv.initially]
    refine ⟨And.right, fun here => ⟨?_, here⟩⟩
    rintro rfl
    simp [inv.stream_initial member] at here
  made fd d pipe found := inv.made fd d pipe (close_eq_some.mp found).2
  unique fd fd' d found found' :=
    inv.unique fd fd' d (close_eq_some.mp found).2 (close_eq_some.mp found').2
  holds other remains := by
    obtain ⟨member', differ⟩ := mem_closedBy.mp remains
    obtain ⟨bound, pid, running, d, found, isEnd⟩ := inv.holds other member'
    -- no two streams have one child
    have another : other.child ≠ stream.child := by
      intro same
      exact differ (congrArg Stream.fd (List.inj_on_of_nodup_map inv.owners member' member same))
    refine ⟨bound, ?_, (List.mem_erase_of_ne another).mpr running, d,
      close_eq_some.mpr ⟨differ, found⟩, isEnd⟩
    rw [closedBy_pidAt, if_neg differ, pid]
  childpid fd nonzero := by
    rw [closedBy_pidAt] at nonzero
    by_cases same : fd = stream.fd
    · exact absurd (if_pos same) nonzero
    · rw [if_neg same] at nonzero
      obtain ⟨other, member', rfl⟩ := inv.childpid fd nonzero
      exact ⟨other, mem_closedBy.mpr ⟨member', same⟩, rfl⟩
  positive child remains := inv.positive child (List.mem_of_mem_erase remains)
  pids := inv.pids.sublist ((List.erase_sublist).map _)
  apart := inv.apart.sublist ((List.filter_sublist).map _)
  owners := inv.owners.sublist ((List.filter_sublist).map _)
  results entry listed := by
    obtain old | new := List.mem_append.mp listed
    · exact inv.results entry old
    · rw [List.mem_singleton.mp new]

theorem State.Inv.pclose (inv : s.Inv maxfd initial status) {fd : Nat}
    (closes : Popen.pclose maxfd status s fd = some s') :
    Effect maxfd initial status s s' False := by
  obtain rfl | ⟨stream, member, rfl, rfl⟩ := inv.pclose_cases closes
  · exact .of_same inv rfl rfl rfl id
  · refine ⟨inv.closedBy member, fun clean _ => ⟨?_, fun child remains => ?_⟩, ?_⟩
    · rintro ⟨fd, opened, free, nobody⟩
      obtain ⟨d, found⟩ := Option.ne_none_iff_exists'.mp opened
      obtain ⟨differ, before⟩ := close_eq_some.mp found
      refine clean.descriptors ⟨fd, by simp [before], free, ?_⟩
      rintro other member' rfl
      exact nobody other (mem_closedBy.mpr ⟨member', differ⟩) rfl
    -- a child that is left is that of another stream
    · have children : s.children.Nodup := inv.pids.of_map
      obtain ⟨differ, remains⟩ := (children.mem_erase_iff).mp remains
      obtain ⟨owner, member', rfl⟩ := clean.waited child remains
      refine ⟨owner, mem_closedBy.mpr ⟨member', ?_⟩, rfl⟩
      exact fun same => differ (congrArg Stream.child (inv.stream_eq member' member same))
    · rintro (⟨fd, opened, free, nobody⟩ | impossible)
      · refine ⟨fd, fun closed => opened ?_, free, fun other remains =>
          nobody other (mem_closedBy.mp remains).1⟩
        rw [← closed]
        exact (close_other _ (nobody stream member).symm).symm
      · exact impossible.elim

theorem State.Inv.step (inv : s.Inv maxfd initial status) {action : Action}
    (steps : s.step maxfd status action = some s') :
    Effect maxfd initial status s s' (Leaks maxfd s action) := by
  cases action with
  | popen type outcome =>
    obtain ⟨popened, answers, rfl⟩ := Option.map_eq_some_iff.mp steps
    exact inv.popen answers
  | pclose fd => exact inv.pclose steps

/-! ## Every run -/

/-- What is so between the calls: one descriptor more than before for each stream, its child in
`childpid` and in no other place, no other child, and the right status from each `pclose`. -/
structure State.Sound (initial : Nat → Option Nat) (status : Nat → Int) (s : State) : Prop where
  descriptors : ∀ fd, s.table fd ≠ none ↔ initial fd ≠ none ∨ ∃ stream ∈ s.streams, stream.fd = fd
  apart : (s.streams.map Stream.fd).Nodup ∧ ∀ stream ∈ s.streams, initial stream.fd = none
  childpid : ∀ fd, s.pidAt fd ≠ 0 ↔ ∃ stream ∈ s.streams, stream.fd = fd
  pids : ∀ stream ∈ s.streams, s.pidAt stream.fd = stream.child.pid ∧ stream.child ∈ s.children
  waited : ∀ child ∈ s.children, ∃ stream ∈ s.streams, stream.child = child
  results : ∀ child value, (child, value) ∈ s.closed → value = status child.serial

/-- The part of it that needs no call to have gone well. -/
theorem State.Inv.childpid_iff (inv : s.Inv maxfd initial status) (fd : Nat) :
    s.pidAt fd ≠ 0 ↔ ∃ stream ∈ s.streams, stream.fd = fd := by
  refine ⟨inv.childpid fd, ?_⟩
  rintro ⟨stream, member, rfl⟩
  obtain ⟨bound, pid, running, kept⟩ := inv.holds stream member
  rw [pid]
  exact (inv.positive stream.child running).ne'

theorem State.Inv.sound (inv : s.Inv maxfd initial status) (clean : s.Clean initial) :
    s.Sound initial status where
  descriptors fd := by
    constructor
    · intro opened
      by_contra nobody
      push Not at nobody
      exact clean.descriptors ⟨fd, opened, nobody.1, nobody.2⟩
    · rintro (here | ⟨stream, member, rfl⟩)
      · obtain ⟨file, here⟩ := Option.ne_none_iff_exists'.mp here
        simp [(inv.initially fd file).mpr here]
      · obtain ⟨d, found, -⟩ := (inv.holds stream member).kept
        simp [found]
  apart := ⟨inv.apart, fun _ member => inv.stream_initial member⟩
  childpid := inv.childpid_iff
  pids stream member := ⟨(inv.holds stream member).pid, (inv.holds stream member).running⟩
  waited := clean.waited
  results child value listed := inv.results (child, value) listed

theorem State.Sound.not_leaked (sound : s.Sound initial status) : ¬s.Leaked initial := by
  rintro ⟨fd, opened, free, nobody⟩
  obtain here | ⟨stream, member, same⟩ := (sound.descriptors fd).mp opened
  · exact here free
  · exact nobody stream member same

theorem run_inv {actions : List Action}
    (visits : Visits (State.step maxfd status) (.start initial) actions s) :
    s.Inv maxfd initial status :=
  visits.invariant (State.Inv maxfd initial status) (fun _ _ => True) State.start_inv
    (fun _ _ _ inv _ steps => (inv.step steps).inv) (fun _ _ _ => trivial)

/-- The bookkeeping is right after a run exactly when no `fork` and no `fdopen` has failed in it. -/
theorem bookkeeping_sound_iff (maxfd : Nat) (initial : Nat → Option Nat) (status : Nat → Int)
    {actions : List Action}
    {s : State} (runs : execute (State.step maxfd status) (.start initial) actions = some s) :
    s.Sound initial status ↔
      ∀ s' action, Takes (State.step maxfd status) (.start initial) actions s' action →
        ¬Leaks maxfd s' action := by
  constructor
  · rintro sound s' action ⟨before, after, rfl, reached⟩ leaks
    have inv : s'.Inv maxfd initial status := run_inv (Visits.finish reached)
    rw [execute_append, reached, Option.bind_some, execute] at runs
    cases steps : s'.step maxfd status action with
    | none => simp [steps] at runs
    | some next =>
      simp only [steps] at runs
      have effect := inv.step steps
      -- the descriptor stays open to the end of the run
      have stays : s.Inv maxfd initial status ∧ s.Leaked initial :=
        (Visits.finish runs).invariant (fun s => s.Inv maxfd initial status ∧ s.Leaked initial)
          (fun _ _ => True)
          ⟨effect.inv, effect.leaked (.inr leaks)⟩
          (fun _ _ _ both _ steps =>
            ⟨(both.1.step steps).inv, (both.1.step steps).leaked (.inl both.2)⟩)
          (fun _ _ _ => trivial)
      exact sound.not_leaked stays.2
  · intro meets
    obtain ⟨inv, clean⟩ : s.Inv maxfd initial status ∧ s.Clean initial :=
      (Visits.finish runs).invariant (fun s => s.Inv maxfd initial status ∧ s.Clean initial)
        (fun s action => ¬Leaks maxfd s action) ⟨State.start_inv, State.start_clean⟩
        (fun _ _ _ both fine steps =>
          ⟨(both.1.step steps).inv, (both.1.step steps).clean both.2 fine⟩) meets
    exact inv.sound clean

/-- Descriptors 0 to 2 are open and others free. -/
def terminal (fd : Nat) : Option Nat := if fd < 3 then some fd else none

def opening (pfd0 pfd1 pid : Nat) : Outcome := ⟨true, some (pfd0, pfd1), some pid, true⟩

def Action.succeeds : Action → Bool
  | .popen _ outcome => outcome.fork.isSome && outcome.fdopen
  | .pclose _ => true

/-- Two streams, the first of which is closed, and its descriptor used again. -/
def reusing : List Action :=
  [.popen [114] (opening 3 4 100), .popen [119] (opening 4 5 101), .pclose 3,
    .popen [114] (opening 3 4 100), .pclose 3]

theorem bookkeeping_sound_iff_reusing :
    ∃ s, execute (State.step 256 fun n => n + 7) (.start terminal) reusing = some s ∧
    s.closed = [(⟨100, 0⟩, 7), (⟨100, 2⟩, 9)] ∧ s.Sound terminal fun n => n + 7 := by
  have evaluates : (execute (State.step 256 fun n => n + 7) (.start terminal) reusing).map
      State.closed =
      some [(⟨100, 0⟩, 7), (⟨100, 2⟩, 9)] := rfl
  obtain ⟨s, runs, closed⟩ := Option.map_eq_some_iff.mp evaluates
  refine ⟨s, runs, closed, (bookkeeping_sound_iff 256 terminal _ runs).mpr
    fun s' action takes leaks => ?_⟩
  have never : allTaken (State.step 256 fun n => (n : Int) + 7) (fun _ action => action.succeeds)
      (.start terminal)
      reusing = true := rfl
  have fine := takes.of_allTaken never
  cases action with
  | popen type outcome =>
    obtain ⟨-, -, -, failed | failed⟩ := leaks
    · simp [Action.succeeds, failed] at fine
    · simp [Action.succeeds, failed] at fine
  | pclose fd => exact leaks

/-- `fork` fails and both ends of the pipe stay open. -/
theorem fork_leaks_pipe : ∃ s,
    execute (State.step 256 fun _ => 0) (.start terminal)
      [.popen [114] ⟨true, some (3, 4), none, true⟩] = some s ∧
      s.streams = [] ∧ s.table 3 = some (.readEnd 0) ∧ s.table 4 = some (.writeEnd 0) ∧
      ¬s.Sound terminal fun _ => 0 := by
  refine ⟨_, rfl, rfl, rfl, rfl, fun sound => ?_⟩
  have opened := (sound.descriptors 3).mp (by decide)
  revert opened
  decide

end Apue.Lib.Popen
