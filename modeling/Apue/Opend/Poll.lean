import Apue.Base.Packed
import Apue.Opend.Loop

/-! # One pass of the poll loop

A client that leaves while `loop` goes through `pollfd[]` is replaced by the last entry, the index
steps back and the bound shrinks.  Here the loop keeps, next to the two arrays, the size of the
allocation and what it did in the pass so far.  A `poll`, `serv_accept` or `read` that fails ends
the server (`log_sys`), so a run has no such step.
-/

namespace Apue.Opend

open Apue.Base

variable {listenfd : Nat}

/-! ## The code -/

/-- What the loop does with an entry of `pollfd[]`: it reads from the descriptor, or finds that the
client hung up. -/
structure Served where
  fd : Nat
  /-- The result of `read`, `none` where POLLHUP goes before it. -/
  nread : Option Nat
  deriving DecidableEq, Repr

/-- The entry is of a client that sent something or left. -/
def PollFd.ready (entry : PollFd) : Bool := entry.pollhup || entry.pollin

/-- The connection is over. -/
def Served.closed (served : Served) : Bool := served.nread = none || served.nread = some 0

def PollFd.serve (entry : PollFd) (nread : Nat) : List Served :=
  if entry.pollhup then [⟨entry.fd, none⟩] else if entry.pollin then [⟨entry.fd,
    some nread⟩] else []

/-- `numfd` and `maxfd` after `grow_pollfd`, where it is called. -/
def growPollfd (numfd maxfd : Nat) : Nat := if numfd = maxfd then maxfd + nalloc else maxfd

structure Loop extends Server where
  /-- The number of entries `pollfd[]` has room for. -/
  maxfd : Nat
  served : List Served

namespace Loop

def start (listenfd : Nat) : Loop := { Server.start listenfd with maxfd := nalloc, served := [] }

/-- The entries the scan still has to look at. -/
def pending (l : Loop) : List PollFd :=
  match l.phase with
  | .scanning i => l.pollfd.drop i
  | _ => []

def step (l : Loop) (event : Event) : Option Loop :=
  (l.toServer.step event).map fun server => { server with
    maxfd :=
      match event with
      | .accept _ _ => growPollfd l.pollfd.length l.maxfd
      | _ => l.maxfd
    served :=
      match event with
      | .poll _ => []
      | .visit nread => l.served ++ l.pending.head?.elim [] fun entry => entry.serve nread
      | _ => l.served }

end Loop

/-! ## The two arrays hold the same descriptors -/

theorem clientAdd_perm (client : List Client) (fd uid : Nat) :
    ((clientAdd client fd uid).filterMap Client.fd).Perm (fd :: client.filterMap Client.fd) := by
  unfold clientAdd
  -- a free entry of `client[]` is taken, or the array grows
  cases place : client.findIdx? fun entry => entry.fd = none with
  | none =>
    have added : (client ++ List.replicate nalloc (Client.mk none 0)).set client.length
        ⟨some fd, uid⟩ =
        client ++ ⟨some fd, uid⟩ :: List.replicate (nalloc - 1) ⟨none, 0⟩ := by
      simp [nalloc, List.replicate_succ]
    simp only [added, List.filterMap_append, List.filterMap_cons, List.filterMap_replicate]
    exact List.perm_append_singleton fd _
  | some i =>
    obtain ⟨bound, free, _⟩ := List.findIdx?_eq_some_iff_getElem.mp place
    have split := Packed.eq_middle (List.getElem?_eq_getElem bound)
    have hole : client[i].fd = none := by simpa using free
    simp only [List.set_eq_take_append_cons_drop, bound, if_true]
    nth_rewrite 3 [split]
    simp only [List.filterMap_append, List.filterMap_cons, hole]
    exact List.perm_middle

theorem clientDel_perm {client : List Client} {fd : Nat}
    (present : fd ∈ client.filterMap Client.fd) :
    ∃ client', clientDel client fd = some client' ∧
      (client.filterMap Client.fd).Perm (fd :: client'.filterMap Client.fd) := by
  obtain ⟨entry, member, own⟩ := List.mem_filterMap.mp present
  cases place : client.findIdx? fun entry => entry.fd = some fd with
  | none =>
    have absent := List.findIdx?_eq_none_iff.mp place entry member
    simp [own] at absent
  | some i =>
    obtain ⟨bound, found, _⟩ := List.findIdx?_eq_some_iff_getElem.mp place
    have here : client[i].fd = some fd := by simpa using found
    have split := Packed.eq_middle (List.getElem?_eq_getElem bound)
    have length : (client.take i).length = i := by simp only [List.length_take]; omega
    have deleted := modify_middle (client.take i) (client.drop (i + 1)) client[i] fun entry =>
      { entry with fd := none }
    rw [length, ← split] at deleted
    refine ⟨_, by simp only [clientDel, place, Option.map_some]; rfl, ?_⟩
    rw [deleted]
    nth_rewrite 1 [split]
    simp only [List.filterMap_append, List.filterMap_cons, here]
    exact List.perm_middle

namespace Loop

/-- The listening descriptor comes first, `client[]` and `pollfd[]` hold the same descriptors, and
these fit. -/
structure Inv (listenfd : Nat) (l : Loop) : Prop where
  listen : l.pollfd.head?.map PollFd.fd = some listenfd
  nodup : (l.pollfd.map PollFd.fd).Nodup
  clients : (l.client.filterMap Client.fd).Perm (l.pollfd.map PollFd.fd)
  room : l.pollfd.length ≤ l.maxfd
  position : ∀ i, l.phase = .scanning i → 0 < i

theorem inv_start (listenfd : Nat) : (start listenfd).Inv listenfd where
  listen := rfl
  nodup := by simp [start, Server.start]
  clients := by
    simpa [start, Server.start] using clientAdd_perm (List.replicate nalloc ⟨none, 0⟩) listenfd 0
  room := by simp [start, Server.start, nalloc]
  position := by simp [start, Server.start]

variable {l l' : Loop} {i nread : Nat} {entry : PollFd}

theorem pending_of_polled (phase : l.phase = .scanning i) (polled : l.pollfd[i]? = some entry) :
    l.pending = entry :: l.pollfd.drop (i + 1) := by
  obtain ⟨bound, rfl⟩ := List.getElem?_eq_some_iff.mp polled
  rw [pending, phase]
  exact List.drop_eq_getElem_cons bound

theorem pending_eq_cons {rest : List PollFd} (todo : l.pending = entry :: rest) :
    ∃ i, l.phase = .scanning i ∧ l.pollfd[i]? = some entry ∧ rest = l.pollfd.drop (i + 1) := by
  cases phase : l.phase with
  | polling => simp [pending, phase] at todo
  | accepting => simp [pending, phase] at todo
  | scanning i =>
    simp only [pending, phase] at todo
    refine ⟨i, rfl, ?_, ?_⟩
    · rw [← List.head?_drop, todo]
      rfl
    · rw [← List.tail_drop, todo]
      rfl

end Loop

/-- Both ways to pack `pollfd[]` are one: the last entry goes where the client left. -/
theorem Server.hungup_eq {s : Server} {i : Nat} {entry : PollFd} {client : List Client}
    (polled : s.pollfd[i]? = some entry)
    (deleted : clientDel s.client entry.fd = some client) : s.hungup i entry = some { s with
      client := client
      pollfd := Packed.remove s.pollfd i
      phase := if i < s.pollfd.length - 1 then s.phase else .scanning (i + 1) } := by
  obtain ⟨bound, _⟩ := List.getElem?_eq_some_iff.mp polled
  obtain none | ⟨front, last, split⟩ := List.eq_nil_or_concat' s.pollfd
  · simp [none] at bound
  have final : s.pollfd.getLast? = some last := by simp [split]
  -- the code treats the last entry apart: it only shortens the array
  by_cases before : i < s.pollfd.length - 1
  · simp [Server.hungup, deleted, before, final, Packed.remove]
  · have place : i = front.length := by
      rw [split, List.length_append, List.length_singleton] at before bound
      omega
    have removed : Packed.remove s.pollfd i = s.pollfd.dropLast := by
      rw [split, place, Packed.remove_last, List.dropLast_concat]
    simp [Server.hungup, deleted, before, removed]

/-! ## One entry -/

namespace PollFd

/-- The visit ends the connection. -/
def closes (entry : PollFd) (nread : Nat) : Bool := entry.pollhup || entry.pollin && nread = 0

/-- Whether the connection is over can be read off what was done. -/
theorem filter_closed_serve (entry : PollFd) (nread : Nat) :
    ((entry.serve nread).filter Served.closed).map
      Served.fd = if entry.closes nread then [entry.fd] else [] := by
  unfold serve closes
  cases entry.pollhup with
  | true => rfl
  | false =>
    cases entry.pollin with
    | false => rfl
    | true => by_cases eof : nread = 0 <;> simp [Served.closed, eof]

theorem map_serve (entry : PollFd) (nread : Nat) :
    ((entry.serve nread).map fun served => (served.fd, served.nread.isNone)) =
    if entry.ready then [(entry.fd, entry.pollhup)] else [] := by
  unfold serve ready
  cases entry.pollhup with
  | true => rfl
  | false => cases entry.pollin <;> rfl

end PollFd

namespace Loop

variable {l l' : Loop} {i nread : Nat} {entry : PollFd}

theorem step_visit_closes {client : List Client} (phase : l.phase = .scanning i)
    (polled : l.pollfd[i]? = some entry)
    (closes : entry.closes nread = true) (deleted : clientDel l.client entry.fd = some client) :
    l.step (.visit nread) = some { l with
      client := client
      pollfd := Packed.remove l.pollfd i
      phase := if i < l.pollfd.length - 1 then l.phase else .scanning (i + 1)
      served := l.served ++ entry.serve nread } := by
  have hungup := Server.hungup_eq (s := l.toServer) polled deleted
  have first : l.pending.head? = some entry := by rw [pending_of_polled phase polled]; rfl
  simp only [step, Server.step, phase, polled, first, Option.elim_some]
  cases hup : entry.pollhup with
  | true => simp [hungup, phase]
  | false =>
    simp only [PollFd.closes, hup, Bool.false_or, Bool.and_eq_true, decide_eq_true_eq] at closes
    simp [closes, hungup, phase]

theorem step_visit_stays {client : Client} (phase : l.phase = .scanning i)
    (polled : l.pollfd[i]? = some entry)
    (stays : entry.closes nread = false) (here : l.client[i]? = some client) : ∃ requests,
    l.step (.visit nread) = some { l with
      phase := .scanning (i + 1)
      requests := requests
      served := l.served ++ entry.serve nread } := by
  have first : l.pending.head? = some entry := by rw [pending_of_polled phase polled]; rfl
  simp only [step, Server.step, phase, polled, first, Option.elim_some]
  simp only [PollFd.closes, Bool.or_eq_false_iff, Bool.and_eq_false_iff,
    decide_eq_false_iff_not] at stays
  cases pollin : entry.pollin with
  | false => exact ⟨_, by simp [stays.1]; rfl⟩
  | true =>
    have nonzero : nread ≠ 0 := by simpa [pollin] using stays.2
    exact ⟨_, by simp [stays.1, nonzero, here]; rfl⟩

/-- A visit deals with the entry at hand, keeps the others in the scan, and drops the descriptor
where the connection is over. -/
structure Visited (listenfd : Nat) (l : Loop) (entry : PollFd) (rest : List PollFd) (nread : Nat)
    (l' : Loop) : Prop where
  inv : l'.Inv listenfd
  scanning : ∃ j, l'.phase = .scanning j
  pending : l'.pending.Perm rest
  served : l'.served = l.served ++ entry.serve nread
  left : (l.pollfd.map PollFd.fd).Perm
    (l'.pollfd.map PollFd.fd ++ ((entry.serve nread).filter Served.closed).map Served.fd)

/-- No visit ends the server: the client is found in `client[]`, and `client[i]` is inside the
array. -/
theorem Inv.visit (inv : l.Inv listenfd) (phase : l.phase = .scanning i)
    (polled : l.pollfd[i]? = some entry)
    (nread : Nat) : ∃ l', l.step (.visit nread) = some l' ∧ Visited listenfd l entry
    (l.pollfd.drop (i + 1)) nread l' := by
  obtain ⟨bound, value⟩ := List.getElem?_eq_some_iff.mp polled
  -- the array is packed when the connection is over, and only then
  cases closes : entry.closes nread with
  | true =>
    have member : entry.fd ∈ l.client.filterMap Client.fd :=
      inv.clients.mem_iff.mpr (List.mem_map_of_mem (value ▸ List.getElem_mem bound))
    obtain ⟨client, deleted, others⟩ := clientDel_perm member
    have removed := (Packed.remove_perm polled).map PollFd.fd
    refine ⟨_, step_visit_closes phase polled closes deleted, ?_, ?_, ?_, rfl, ?_⟩
    · refine ⟨?_, ?_, ?_, ?_, ?_⟩
      · rw [← inv.listen, ← Packed.head?_remove polled (inv.position i phase)]
      · exact (List.nodup_cons.mp (removed.nodup_iff.mp inv.nodup)).2
      · exact List.Perm.cons_inv (others.symm.trans (inv.clients.trans removed))
      · have length := Packed.length_remove l.pollfd i
        have room := inv.room
        show (Packed.remove l.pollfd i).length ≤ l.maxfd
        omega
      · intro j position
        have old := inv.position i phase
        simp only [phase] at position
        split at position <;> cases position <;> omega
    · by_cases before : i < l.pollfd.length - 1
      · exact ⟨i, by simp [before, phase]⟩
      · exact ⟨i + 1, by simp [before]⟩
    · by_cases before : i < l.pollfd.length - 1
      · simpa [pending, before, phase] using Packed.drop_remove polled
      · -- the last entry leaves: nothing is left to look at, before the index or behind it
        have length := Packed.length_remove l.pollfd i
        have none : l.pollfd.drop (i + 1) = [] := List.drop_eq_nil_of_le (by omega)
        have none' : (Packed.remove l.pollfd i).drop (i + 1) = [] :=
          List.drop_eq_nil_of_le (by omega)
        simp [pending, before, none, none']
    · simp only [PollFd.filter_closed_serve, closes, if_true]
      exact removed.trans (List.perm_append_singleton _ _).symm
  | false =>
    -- `client[]` holds a descriptor for every entry, so it is at least as long
    have inside : i < l.client.length := by
      have same := inv.clients.length_eq
      have shorter := List.length_filterMap_le Client.fd l.client
      simp only [List.length_map] at same
      omega
    have here : l.client[i]? = some l.client[i] := List.getElem?_eq_getElem inside
    obtain ⟨requests, steps⟩ := step_visit_stays phase polled closes here
    refine ⟨_, steps, ⟨inv.listen, inv.nodup, inv.clients, inv.room, ?_⟩, ⟨i + 1, rfl⟩,
      .rfl, rfl, ?_⟩
    · intro j position
      cases position
      omega
    · simp [PollFd.filter_closed_serve, closes]

theorem Inv.poll {revents : List (Bool × Bool)} (inv : l.Inv listenfd)
    (steps : l.step (.poll revents) = some l') :
    l'.Inv listenfd := by
  obtain ⟨server, takes, rfl⟩ := Option.map_eq_some_iff.mp steps
  simp only [Server.step] at takes
  split at takes <;> try contradiction
  rename_i length
  cases takes
  have same := map_fd_revents length.2
  have listen := inv.listen
  rw [← List.head?_map, ← same, List.head?_map] at listen
  exact ⟨listen, same ▸
    inv.nodup, by simpa [same] using inv.clients, by simpa [length.2] using inv.room, by simp⟩

/-- A new client gets a descriptor that is not in use, and room for it. -/
theorem Inv.accept {fd uid : Nat} (inv : l.Inv listenfd)
    (steps : l.step (.accept fd uid) = some l') :
    l'.Inv listenfd ∧ l'.phase = .scanning 1 := by
  obtain ⟨server, takes, rfl⟩ := Option.map_eq_some_iff.mp steps
  simp only [Server.step] at takes
  split at takes <;> try contradiction
  split at takes <;> try contradiction
  rename_i nonempty fresh
  cases takes
  refine ⟨⟨?_, ?_, ?_, ?_, ?_⟩, rfl⟩
  · have listen := inv.listen
    rw [nonempty] at listen
    simpa [nonempty] using listen
  · have nodup : (fd :: l.pollfd.map PollFd.fd).Nodup := List.nodup_cons.mpr ⟨fresh.2, inv.nodup⟩
    simpa using (List.perm_append_singleton fd _).nodup_iff.mpr nodup
  · have added := (clientAdd_perm l.client fd uid).trans (inv.clients.cons fd)
    simpa using added.trans (List.perm_append_singleton fd _).symm
  · have room := inv.room
    show (l.pollfd ++ [_]).length ≤ growPollfd l.pollfd.length l.maxfd
    simp only [List.length_append, List.length_singleton, growPollfd, nalloc]
    split <;> omega
  · intro j position
    cases position
    exact Nat.one_pos

theorem Inv.noAccept (inv : l.Inv listenfd) (steps : l.step .noAccept = some l') :
    l'.Inv listenfd ∧ l'.phase = .scanning 1 := by
  obtain ⟨server, takes, rfl⟩ := Option.map_eq_some_iff.mp steps
  simp only [Server.step] at takes
  split at takes <;> try contradiction
  split at takes <;> try contradiction
  cases takes
  refine ⟨⟨inv.listen, inv.nodup, inv.clients, inv.room, ?_⟩, rfl⟩
  intro j position
  cases position
  exact Nat.one_pos

theorem step_endScan (steps : l.step .endScan = some l') :
    (∃ i, l.phase = .scanning i) ∧ l.pending = [] ∧ l' = { l with phase := .polling } := by
  obtain ⟨server, takes, rfl⟩ := Option.map_eq_some_iff.mp steps
  simp only [Server.step] at takes
  split at takes <;> try contradiction
  rename_i i phase
  split at takes <;> try contradiction
  rename_i beyond
  cases takes
  exact ⟨⟨i, phase⟩, by rw [pending, phase]; exact List.drop_eq_nil_of_le (Nat.le_of_not_lt beyond), rfl⟩

theorem endScan_steps (phase : l.phase = .scanning i) (done : l.pending = []) :
    l.step .endScan = some { l with phase := .polling } := by
  rw [pending, phase] at done
  have beyond : ¬ i < l.pollfd.length := Nat.not_lt.mpr (List.drop_eq_nil_iff.mp done)
  simp [step, Server.step, phase, beyond]

/-- There is an entry to visit. -/
theorem exists_polled (steps : l.step (.visit nread) = some l') :
    ∃ i entry, l.phase = .scanning i ∧ l.pollfd[i]? = some entry := by
  obtain ⟨server, takes, -⟩ := Option.map_eq_some_iff.mp steps
  simp only [Server.step] at takes
  split at takes <;> try contradiction
  rename_i i phase
  split at takes <;> try contradiction
  rename_i entry polled
  exact ⟨i, entry, phase, polled⟩

theorem Inv.step {event : Event} (inv : l.Inv listenfd) (steps : l.step event = some l') :
    l'.Inv listenfd := by
  cases event with
  | poll revents => exact inv.poll steps
  | accept fd uid => exact (inv.accept steps).1
  | noAccept => exact (inv.noAccept steps).1
  | endScan =>
    obtain ⟨_, _, rfl⟩ := step_endScan steps
    exact ⟨inv.listen, inv.nodup, inv.clients, inv.room, by simp⟩
  | visit nread =>
    obtain ⟨i, entry, phase, polled⟩ := exists_polled steps
    obtain ⟨next, steps', visited⟩ := inv.visit phase polled nread
    rw [steps, Option.some.injEq] at steps'
    exact steps' ▸ visited.inv

theorem inv_of_reached {events : List Event}
    (reached : execute step (start listenfd) events = some l) : l.Inv listenfd :=
  (Visits.finish reached).invariant (Inv listenfd) (fun _ _ => True) (inv_start listenfd)
    (fun _ _ _ inv _ steps => inv.step steps) fun _ _ _ => trivial

/-! ## One pass -/

/-- The scan of `pollfd[]`, with what `read` returns at each visit, should it be called. -/
def pass (results : List Nat) : List Event := results.map .visit ++ [.endScan]

/-- What one pass did, from the beginning of its scan. -/
structure Pass (listenfd : Nat) (scan after : Loop) : Prop where
  /-- Every client with POLLHUP was hung up and every other one with POLLIN was read from, once; no
  other was. -/
  served : (after.served.map fun served => (served.fd, served.nread.isNone)).Perm
    ((scan.pollfd.tail.filter PollFd.ready).map fun entry => (entry.fd, entry.pollhup))
  once : (after.served.map Served.fd).Nodup
  /-- The descriptors that are gone are those of the connections that are over. -/
  left : (scan.pollfd.map PollFd.fd).Perm
    (after.pollfd.map PollFd.fd ++ (after.served.filter Served.closed).map Served.fd)
  distinct : (after.pollfd.tail.map PollFd.fd).Nodup
  clients : ∀ fd, fd ∈ after.pollfd.tail.map PollFd.fd ↔
    (∃ client ∈ after.client, client.fd = some fd) ∧ fd ≠ listenfd
  room : after.pollfd.length ≤ after.maxfd

/-- Between two visits. -/
structure During (listenfd : Nat) (scan l : Loop) : Prop where
  inv : l.Inv listenfd
  scanning : ∃ i, l.phase = .scanning i
  left : (scan.pollfd.map PollFd.fd).Perm
    (l.pollfd.map PollFd.fd ++ (l.served.filter Served.closed).map Served.fd)

theorem During.visit {scan : Loop} {rest : List PollFd} (during : During listenfd scan l)
    (todo : l.pending = entry :: rest)
    (nread : Nat) : ∃ l', l.step (.visit nread) = some l' ∧ During listenfd scan l' ∧
    l'.pending.Perm rest ∧
      l'.served = l.served ++ entry.serve nread := by
  obtain ⟨i, phase, polled, rfl⟩ := pending_eq_cons todo
  obtain ⟨l', steps, visited⟩ := during.inv.visit phase polled nread
  refine ⟨l', steps, ⟨visited.inv, visited.scanning, ?_⟩, visited.pending, visited.served⟩
  rw [visited.served, List.filter_append, List.map_append]
  refine during.left.trans ((visited.left.append_right _).trans ?_)
  rw [List.append_assoc]
  exact List.perm_append_comm.append_left _

/-- The entries of the clients are those behind the listening one. -/
theorem Inv.mem_tail (inv : l.Inv listenfd) (fd : Nat) :
    fd ∈ l.pollfd.tail.map PollFd.fd ↔ (∃ client ∈ l.client, client.fd = some fd) ∧
      fd ≠ listenfd := by
  have members : (∃ client ∈ l.client, client.fd = some fd) ↔ fd ∈ l.pollfd.map PollFd.fd := by
    rw [← inv.clients.mem_iff, List.mem_filterMap]
  have nodup := inv.nodup
  have listen := inv.listen
  rw [members]
  cases entries : l.pollfd with
  | nil => simp [entries] at listen
  | cons first rest =>
    rw [entries, List.map_cons, List.nodup_cons] at nodup
    obtain rfl : first.fd = listenfd := by simpa [entries] using listen
    simp only [List.tail_cons, List.map_cons, List.mem_cons]
    constructor
    · intro member
      exact ⟨.inr member, fun same => nodup.1 (same ▸ member)⟩
    · intro ⟨member, other⟩
      exact member.resolve_left other

/-- After `poll` the loop looks at the listening descriptor, and the scan begins behind it. -/
theorem Inv.scan {scan : Loop} {revents : List (Bool × Bool)} {look : Event} (inv : l.Inv listenfd)
    (begins : execute Loop.step l [.poll revents, look] = some scan) :
    During listenfd scan scan ∧ scan.pending = scan.pollfd.tail ∧ scan.served = [] := by
  simp only [execute] at begins
  cases polls : l.step (.poll revents) with
  | none => simp [polls] at begins
  | some polled =>
    have looks : polled.step look = some scan := by
      cases looks : polled.step look <;> simp_all
    have kept := inv.poll polls
    have accepting : polled.phase = .accepting ∧ polled.served = [] := by
      obtain ⟨server, takes, rfl⟩ := Option.map_eq_some_iff.mp polls
      simp only [Server.step] at takes
      split at takes <;> try contradiction
      cases takes
      exact ⟨rfl, rfl⟩
    -- the listening descriptor brings a client or not; both begin the scan at 1
    have result : scan.Inv listenfd ∧ scan.phase = .scanning 1 ∧ scan.served = [] := by
      cases look with
      | accept fd uid =>
        obtain ⟨kept, phase⟩ := kept.accept looks
        obtain ⟨server, _, rfl⟩ := Option.map_eq_some_iff.mp looks
        exact ⟨kept, phase, accepting.2⟩
      | noAccept =>
        obtain ⟨kept, phase⟩ := kept.noAccept looks
        obtain ⟨server, _, rfl⟩ := Option.map_eq_some_iff.mp looks
        exact ⟨kept, phase, accepting.2⟩
      | poll revents => simp [Loop.step, Server.step, accepting.1] at looks
      | visit nread => simp [Loop.step, Server.step, accepting.1] at looks
      | endScan => simp [Loop.step, Server.step, accepting.1] at looks
    obtain ⟨kept, phase, none⟩ := result
    exact ⟨⟨kept, ⟨1, phase⟩, by simp [none]⟩, by simp [pending, phase], none⟩

/-- What a visit adds to the account of the pass. -/
def account (l : Loop) : List (Nat × Bool) :=
  l.served.map fun served => (served.fd, served.nread.isNone)

theorem During.one {scan : Loop} (s : Loop) (entry : PollFd) (rest : List PollFd) (nread : Nat)
    (during : During listenfd scan s) (todo : s.pending = entry :: rest) :
    ∃ s', s.step (.visit nread) = some s' ∧
      During listenfd scan s' ∧ s'.pending.Perm rest ∧
      s'.account = s.account ++ if entry.ready then [(entry.fd, entry.pollhup)] else [] := by
  obtain ⟨s', steps, during', others, deals⟩ := during.visit todo nread
  refine ⟨s', steps, during', others, ?_⟩
  rw [account, deals, List.map_append, PollFd.map_serve]
  rfl

theorem flatMap_ready (entries : List PollFd) :
    (entries.flatMap fun entry => if entry.ready then [(entry.fd, entry.pollhup)] else []) =
      (entries.filter PollFd.ready).map fun entry => (entry.fd, entry.pollhup) := by
  induction entries with
  | nil => rfl
  | cons entry entries inductionHypothesis =>
    cases ready : entry.ready <;> simp [ready, inductionHypothesis]

section Results

variable {scan : Loop} {results : List Nat}

theorem During.completes (during : During listenfd scan scan)
    (pending : scan.pending = scan.pollfd.tail)
    (fresh : scan.served = []) (enough : results.length = scan.pollfd.length - 1) :
    ∃ after, execute step scan (pass results) = some after ∧ Pass listenfd scan after := by
  have length : results.length = scan.pending.length := by rw [pending, List.length_tail, enough]
  obtain ⟨last, runs, final, done, accounts⟩ := Packed.sweep_all During.one during length
  obtain ⟨i, phase⟩ := final.scanning
  have empty : scan.account = [] := by simp [account, fresh]
  rw [pending, empty, List.nil_append, flatMap_ready] at accounts
  refine ⟨{ last with phase := .polling }, ?_, accounts, ?_, final.left, ?_, final.inv.mem_tail,
    final.inv.room⟩
  · simp [pass, execute_append, runs, execute, endScan_steps phase done]
  · -- the descriptors in the account are among those of the array, which are distinct
    have fds := accounts.map Prod.fst
    simp only [account, List.map_map] at fds
    have ready : ((scan.pollfd.tail.filter PollFd.ready).map PollFd.fd).Nodup :=
      during.inv.nodup.sublist ((List.filter_sublist.trans (List.tail_sublist _)).map _)
    exact (List.Perm.nodup_iff fds).mpr ready
  · exact final.inv.nodup.sublist ((List.tail_sublist _).map _)

/-- The scan ends with the last entry, neither before nor behind it. -/
theorem During.length_of_completes {after : Loop} (during : During listenfd scan scan)
    (pending : scan.pending = scan.pollfd.tail)
    (completes : execute step scan (pass results) = some after) :
    results.length = scan.pollfd.length - 1 := by
  rw [← List.length_tail, ← pending]
  -- with fewer visits an entry is left, with more there is none to visit
  obtain few | many := Nat.lt_or_ge scan.pending.length results.length |>.symm
  · obtain ⟨last, dealt, runs, _, visits, split, _⟩ := Packed.sweep During.one during few
    cases ends : last.step .endScan with
    | none => simp [pass, execute_append, runs, execute, ends] at completes
    | some next =>
      have none := (step_endScan ends).2.1
      rw [none, List.append_nil] at split
      rw [← visits, split.length_eq]
  · have less : (results.take scan.pending.length).length = scan.pending.length := by
      simp only [List.length_take]
      omega
    obtain ⟨nread, rest, more⟩ : ∃ nread rest, results.drop scan.pending.length = nread :: rest :=
      List.exists_cons_of_length_pos (by simp only [List.length_drop]; omega)
    obtain ⟨last, runs, _, done, _⟩ := Packed.sweep_all During.one during less
    rw [← List.take_append_drop scan.pending.length results, more, pass, List.map_append,
      List.append_assoc,
      execute_append, runs] at completes
    cases beyond : last.step (.visit nread) with
    | none => simp [execute, beyond] at completes
    | some next =>
      obtain ⟨i, entry, phase, polled⟩ := exists_polled beyond
      simp [pending_of_polled phase polled] at done

end Results

end Loop

/-- Whatever state the loop is in, whatever `poll` returns and whichever clients leave: the scan
ends, and by then every ready client has been served once and no other, and the two arrays hold the
same clients. -/
theorem poll_serves_once {events : List Event} {l scan : Loop} {revents : List (Bool × Bool)}
    {look : Event}
    (reached : execute Loop.step (.start listenfd) events = some l)
    (begins : execute Loop.step l [.poll revents, look] = some scan) (results : List Nat) :
    ((execute Loop.step scan (Loop.pass results)).isSome ↔
      results.length = scan.pollfd.length - 1) ∧
      ∀ after, execute Loop.step scan (Loop.pass results) = some after →
        Loop.Pass listenfd scan after := by
  obtain ⟨during, pending, fresh⟩ := (Loop.inv_of_reached reached).scan begins
  have only (after : Loop) (completes : execute Loop.step scan (Loop.pass results) = some after) :=
    during.length_of_completes pending completes
  refine ⟨⟨fun completes => ?_, fun enough => ?_⟩, fun after completes => ?_⟩
  · obtain ⟨after, completes⟩ := Option.isSome_iff_exists.mp completes
    exact only after completes
  · obtain ⟨after, completes, _⟩ := during.completes pending fresh enough
    exact Option.isSome_iff_exists.mpr ⟨after, completes⟩
  · obtain ⟨after', completes', done⟩ := during.completes pending fresh (only after completes)
    rw [completes, Option.some.injEq] at completes'
    exact completes' ▸ done

/-- Three clients connect. -/
def threeClients : List Event :=
  [.poll [(true, false)], .accept 5 100, .visit 0, .endScan, .poll [(true, false), (false, false)],
    .accept 6 200,
    .visit 0, .visit 0, .endScan, .poll [(true, false), (false, false), (false, false)],
      .accept 7 300,
    .visit 0, .visit 0, .visit 0, .endScan]

/-- The first and the last hang up, the second sends a request. -/
def twoLeave : List Event :=
  [.poll [(false, false), (false, true), (true, false), (false, true)], .noAccept]

/-- The last entry, itself hung up, moves into the gap and is dealt with there, then the second
one. -/
theorem poll_serves_once_three :
    ∃ scan after, execute Loop.step scan (Loop.pass [0, 0, 20]) = some after ∧
    after.served = [⟨5, none⟩, ⟨7, none⟩, ⟨6, some 20⟩] ∧ after.pollfd.map PollFd.fd = [3, 6] ∧
      Loop.Pass 3 scan after := by
  have evaluates : (execute Loop.step (.start 3)
      (threeClients ++ (twoLeave ++ Loop.pass [0, 0, 20]))).map
      (fun after => (after.served, after.pollfd.map PollFd.fd)) =
        some ([⟨5, none⟩, ⟨7, none⟩, ⟨6, some 20⟩], [3, 6]) := by decide
  obtain ⟨after, runs, shows⟩ := Option.map_eq_some_iff.mp evaluates
  rw [execute_append, Option.bind_eq_some_iff] at runs
  obtain ⟨l, reached, runs⟩ := runs
  rw [execute_append, Option.bind_eq_some_iff] at runs
  obtain ⟨scan, begins, completes⟩ := runs
  rw [Prod.mk.injEq] at shows
  exact ⟨scan, after, completes, shows.1, shows.2,
    (poll_serves_once reached begins [0, 0, 20]).2 after completes⟩

end Apue.Opend
