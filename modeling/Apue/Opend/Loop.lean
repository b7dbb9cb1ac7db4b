import Apue.Base.Machine
import Mathlib.Data.List.Nodup

/-! # The poll loop of the open server

`loop` of `loop.poll.c` keeps two arrays: `client[]`, where a client that leaves is a hole which the
next one fills, and `pollfd[]`, which is packed by moving its last entry into the gap.  A request
that arrives on `pollfd[i]` is handled under `client[i].uid`.  The two arrays correspond only as
long as the client that leaves is always the last of `pollfd[]`.
-/

namespace Apue.Opend

open Apue.Base

/-- `Client`; the fd is `none` for the -1 of an entry that is available. -/
structure Client where
  fd : Option Nat
  uid : Nat
  deriving DecidableEq, Repr

/-- `struct pollfd` with the two bits of `revents` the loop looks at. -/
structure PollFd where
  fd : Nat
  pollin : Bool
  pollhup : Bool
  deriving DecidableEq, Repr

def nalloc : Nat := 10

/-! ## The code -/

/-- `client_add` with the `client_alloc` it may need; the uid of a new entry is not set. -/
def clientAdd (client : List Client) (fd uid : Nat) : List Client :=
  match client.findIdx? fun entry => entry.fd = none with
  | some i => client.set i ⟨some fd, uid⟩
  | none => (client ++ List.replicate nalloc (Client.mk none 0)).set client.length ⟨some fd, uid⟩

/-- `client_del`; `none` when it ends the server. -/
def clientDel (client : List Client) (fd : Nat) : Option (List Client) :=
  (client.findIdx? fun entry => entry.fd = some fd).map fun i => client.modify i fun entry =>
    { entry with fd := none }

/-- Where the loop is. -/
inductive Phase where
  | polling
  /-- Before the look at `pollfd[0]`. -/
  | accepting
  /-- Before the test `i < numfd`. -/
  | scanning (i : Nat)
  deriving DecidableEq, Repr

/-- A call of `handle_request`: the descriptor, the uid that is passed, and the one `serv_accept`
returned for it. -/
structure Request where
  fd : Nat
  uid : Nat
  accepted : Nat
  deriving DecidableEq, Repr

structure Server where
  client : List Client
  /-- The first `numfd` entries. -/
  pollfd : List PollFd
  phase : Phase
  /-- The uid of the last `serv_accept` that returned a descriptor. -/
  accepted : Nat → Nat
  requests : List Request

def Server.start (listenfd : Nat) : Server where
  client := clientAdd (List.replicate nalloc ⟨none, 0⟩) listenfd 0
  pollfd := [⟨listenfd, false, false⟩]
  phase := .polling
  accepted := fun _ => 0
  requests := []

inductive Event where
  /-- `poll` returns these `revents`. -/
  | poll (revents : List (Bool × Bool))
  /-- `serv_accept` returns a descriptor that is not open. -/
  | accept (fd uid : Nat)
  | noAccept
  /-- The next entry is looked at; `nread` is what `read` returns, should it be called. -/
  | visit (nread : Nat)
  | endScan
  deriving DecidableEq, Repr

/-- The label `hungup`. -/
def Server.hungup (s : Server) (i : Nat) (entry : PollFd) : Option Server :=
  match clientDel s.client entry.fd with
  | none => none
  | some client =>
    if i < s.pollfd.length - 1 then
      match s.pollfd.getLast? with
      | none => none
      | some last => some { s with client := client, pollfd := (s.pollfd.set i last).dropLast }
    else some { s with client := client, pollfd := s.pollfd.dropLast, phase := .scanning (i + 1) }

def Server.step (s : Server) : Event → Option Server
  | .poll revents =>
    if s.phase = .polling ∧ revents.length = s.pollfd.length then
      some { s with
        pollfd := s.pollfd.zipWith (fun entry (r : Bool × Bool) => ⟨entry.fd, r.1, r.2⟩) revents
        phase := .accepting }
    else none
  | .accept fd uid =>
    match s.phase, s.pollfd with
    | .accepting, listen :: _ =>
      if listen.pollin ∧ fd ∉ s.pollfd.map PollFd.fd then
        some { s with
          client := clientAdd s.client fd uid
          pollfd := s.pollfd ++ [⟨fd, false, false⟩]
          phase := .scanning 1
          accepted := Function.update s.accepted fd uid }
      else none
    | _, _ => none
  | .noAccept =>
    match s.phase, s.pollfd with
    | .accepting, listen :: _ =>
      if listen.pollin then none else some { s with phase := .scanning 1 }
    | _, _ => none
  | .visit nread =>
    match s.phase with
    | .scanning i =>
      match s.pollfd[i]? with
      | none => none
      | some entry =>
        if entry.pollhup then s.hungup i entry
        else if entry.pollin then
          if nread = 0 then s.hungup i entry
          else
            match s.client[i]? with
            | none => none
            | some client =>
              some { s with
                phase := .scanning (i + 1)
                requests := s.requests ++ [⟨entry.fd, client.uid, s.accepted entry.fd⟩] }
        else some { s with phase := .scanning (i + 1) }
    | _ => none
  | .endScan =>
    match s.phase with
    | .scanning i => if i < s.pollfd.length then none else some { s with phase := .polling }
    | _ => none

/-! ## The two arrays -/

/-- `poll` leaves the descriptors alone and sets their bits. -/
theorem map_fd_revents {entries : List PollFd} {revents : List (Bool × Bool)}
    (same : revents.length = entries.length) :
    (entries.zipWith (fun entry (r : Bool × Bool) => (⟨entry.fd, r.1, r.2⟩ : PollFd)) revents).map
    PollFd.fd =
      entries.map PollFd.fd := by
  induction entries generalizing revents with
  | nil => simp
  | cons entry entries inductionHypothesis =>
    cases revents with
    | nil => simp at same
    | cons bits revents => simp [inductionHypothesis (by simpa using same)]

/-- The entries of `client[]` are those of `pollfd[]` in the same order, then holes. -/
structure Server.Aligned (s : Server) : Prop where
  arrays : ∃ holes, s.client =
    s.pollfd.map (fun entry => ⟨some entry.fd, s.accepted entry.fd⟩) ++ holes ∧
    ∀ hole ∈ holes, hole.fd = none
  nodup : (s.pollfd.map PollFd.fd).Nodup
  requests : ∀ request ∈ s.requests, request.uid = request.accepted

/-- The event is not the end of a connection before the last of `pollfd[]`. -/
def Server.LastLeaves (s : Server) : Event → Prop
  | .visit nread => ∀ i entry, s.phase = .scanning i → s.pollfd[i]? = some entry →
      entry.pollhup = true ∨ entry.pollin = true ∧ nread = 0 → i + 1 = s.pollfd.length
  | _ => True

theorem Server.lastLeaves_visit {s : Server} {i nread : Nat} {entry : PollFd}
    (phase : s.phase = .scanning i)
    (polled : s.pollfd[i]? = some entry) : (entry.pollhup = true ∨ entry.pollin = true ∧ nread = 0 →
      i + 1 = s.pollfd.length) ↔ s.LastLeaves (.visit nread) := by
  constructor
  · intro last j other phase' polled' leaves
    rw [phase] at phase'
    cases phase'
    rw [polled] at polled'
    cases polled'
    exact last leaves
  · intro lastLeaves
    exact lastLeaves i entry phase polled

instance (s : Server) : (event : Event) → Decidable (s.LastLeaves event)
  | .visit nread =>
    match phase : s.phase with
    | .scanning i =>
      match polled : s.pollfd[i]? with
      | some entry =>
        decidable_of_iff (entry.pollhup = true ∨ entry.pollin = true ∧ nread = 0 →
          i + 1 = s.pollfd.length)
          (s.lastLeaves_visit phase polled)
      | none => .isTrue fun j _ phase' polled' => by
        rw [phase] at phase'
        cases phase'
        rw [polled] at polled'
        cases polled'
    | .polling => .isTrue (by simp [Server.LastLeaves, phase])
    | .accepting => .isTrue (by simp [Server.LastLeaves, phase])
  | .poll _ | .accept _ _ | .noAccept | .endScan => .isTrue trivial

theorem findIdx?_occupied {occupied holes : List Client}
    (full : ∀ entry ∈ occupied, entry.fd ≠ none)
    (empty : ∀ hole ∈ holes, hole.fd = none) :
    (occupied ++ holes).findIdx? (fun entry => entry.fd = none) = if holes =
    [] then none else some occupied.length := by
  have none : occupied.findIdx? (fun entry => entry.fd = none) = none := by
    rw [List.findIdx?_eq_none_iff]
    intro entry member
    simpa using full entry member
  rw [List.findIdx?_append, none]
  cases holes with
  | nil => simp
  | cons hole holes => simp [List.findIdx?_cons, empty hole]

/-- A new client goes behind the others. -/
theorem clientAdd_aligned {occupied holes : List Client}
    (full : ∀ entry ∈ occupied, entry.fd ≠ none)
    (empty : ∀ hole ∈ holes, hole.fd = none) (fd uid : Nat) :
    ∃ holes', clientAdd (occupied ++ holes) fd uid = occupied ++ ⟨some fd, uid⟩ :: holes' ∧
      ∀ hole ∈ holes', hole.fd = none := by
  unfold clientAdd
  rw [findIdx?_occupied full empty]
  cases holes with
  | nil =>
    refine ⟨List.replicate (nalloc - 1) ⟨none, 0⟩, ?_, by simp⟩
    simp [nalloc, List.replicate_succ]
  | cons hole holes => exact ⟨holes, by simp, fun other member => empty other (by simp [member])⟩

theorem modify_middle (front back : List Client) (entry : Client) (change : Client → Client) :
    (front ++ entry :: back).modify front.length change = front ++ change entry :: back := by
  induction front with
  | nil => rfl
  | cons other front inductionHypothesis => simp [inductionHypothesis]

/-- The last client is found at its own place. -/
theorem clientDel_last {occupied holes : List Client} {fd uid : Nat}
    (fresh : ∀ entry ∈ occupied, entry.fd ≠ some fd) :
    clientDel (occupied ++ ⟨some fd, uid⟩ :: holes) fd =
      some (occupied ++ ⟨none, uid⟩ :: holes) := by
  have none : occupied.findIdx? (fun entry => entry.fd = some fd) = none := by
    rw [List.findIdx?_eq_none_iff]
    intro entry member
    simpa using fresh entry member
  have found : (occupied ++ ⟨some fd, uid⟩ :: holes).findIdx? (fun entry => entry.fd = some fd) =
      some occupied.length := by
    simp [List.findIdx?_append, none, List.findIdx?_cons]
  simp [clientDel, found, modify_middle]

theorem Server.start_aligned (listenfd : Nat) : (Server.start listenfd).Aligned where
  arrays := ⟨List.replicate (nalloc - 1) ⟨none, 0⟩, by
    simp [start, clientAdd, nalloc, List.replicate_succ, List.findIdx?_cons], by simp⟩
  nodup := by simp [start]
  requests := by simp [start]

namespace Server.Aligned

variable {s s' : Server}

/-- The entry of a client in `client[]` has the uid it was accepted with. -/
theorem uid (aligned : s.Aligned) {i : Nat} {entry : PollFd} {client : Client}
    (polled : s.pollfd[i]? = some entry)
    (here : s.client[i]? = some client) : client.uid = s.accepted entry.fd := by
  obtain ⟨holes, arrays, _⟩ := aligned.arrays
  obtain ⟨bound, value⟩ := List.getElem?_eq_some_iff.mp polled
  rw [arrays, List.getElem?_append_left (by simpa using bound), List.getElem?_map, polled] at here
  simp only [Option.map_some, Option.some.injEq] at here
  rw [← here]

theorem accept (aligned : s.Aligned) {fd uid : Nat} (fresh : fd ∉ s.pollfd.map PollFd.fd) :
    Aligned { s with
      client := clientAdd s.client fd uid
      pollfd := s.pollfd ++ [⟨fd, false, false⟩]
      phase := .scanning 1
      accepted := Function.update s.accepted fd uid } := by
  obtain ⟨holes, arrays, empty⟩ := aligned.arrays
  have full : ∀ entry ∈ s.pollfd.map (fun entry => (⟨some entry.fd, s.accepted entry.fd⟩ : Client)),
      entry.fd ≠ none := by
    simp
  obtain ⟨holes', added, empty'⟩ := clientAdd_aligned full empty fd uid
  have others : s.pollfd.map (fun entry =>
      (⟨some entry.fd, Function.update s.accepted fd uid entry.fd⟩ : Client)) =
      s.pollfd.map fun entry => ⟨some entry.fd, s.accepted entry.fd⟩ := by
    refine List.map_congr_left fun entry member => ?_
    have other : entry.fd ≠ fd := fun same => fresh (List.mem_map.mpr ⟨entry, member, same⟩)
    simp [other]
  refine ⟨⟨holes', ?_, empty'⟩, ?_, aligned.requests⟩
  · rw [← arrays] at added
    simp [added, others]
  · simp only [List.map_append, List.map_cons, List.map_nil, List.nodup_append,
      List.nodup_singleton, List.mem_singleton]
    exact ⟨aligned.nodup, trivial, fun x inside y same eq => fresh (by rwa [← same, ← eq])⟩

/-- The last client leaves: its entry becomes the first hole. -/
theorem hungup (aligned : s.Aligned) {i : Nat} {entry : PollFd} (polled : s.pollfd[i]? = some entry)
    (last : i + 1 = s.pollfd.length) (steps : s.hungup i entry = some s') : s'.Aligned := by
  obtain ⟨holes, arrays, empty⟩ := aligned.arrays
  obtain none | ⟨front, final, split⟩ := List.eq_nil_or_concat' s.pollfd
  · simp [none] at polled
  have place : i = front.length := by
    rw [split] at last
    simpa using last
  obtain rfl : final = entry := by
    rw [split, place] at polled
    simpa using polled
  have nodup := aligned.nodup
  rw [split, List.map_append, List.nodup_append] at nodup
  have fresh : ∀ client ∈ front.map (fun entry => (⟨some entry.fd, s.accepted entry.fd⟩ : Client)),
      client.fd ≠ some final.fd := by
    intro client member same
    obtain ⟨other, inFront, rfl⟩ := List.mem_map.mp member
    exact nodup.2.2 other.fd (List.mem_map.mpr ⟨other, inFront, rfl⟩) final.fd (by simp)
      (by simpa using same)
  have deleted : clientDel s.client final.fd =
      some (front.map (fun entry => ⟨some entry.fd, s.accepted entry.fd⟩) ++
        ⟨none, s.accepted final.fd⟩ :: holes) := by
    rw [arrays, split, List.map_append, List.append_assoc]
    exact clientDel_last fresh
  have notBefore : ¬ i < s.pollfd.length - 1 := by omega
  simp only [Server.hungup, deleted, notBefore, if_false, Option.some.injEq] at steps
  subst steps
  refine ⟨⟨_ :: holes, by simp [split]; rfl, ?_⟩, by simpa [split] using nodup.1, aligned.requests⟩
  intro hole member
  simp only [List.mem_cons] at member
  obtain rfl | inside := member
  · rfl
  · exact empty hole inside

theorem step (aligned : s.Aligned) {event : Event} (lastLeaves : s.LastLeaves event)
    (steps : s.step event = some s') :
    s'.Aligned := by
  cases event with
  | poll revents =>
    simp only [Server.step] at steps
    split at steps <;> try contradiction
    rename_i lengths
    cases steps
    have kept := map_fd_revents lengths.2
    obtain ⟨holes, arrays, empty⟩ := aligned.arrays
    have entries (entries : List PollFd) :
        entries.map (fun entry => (⟨some entry.fd, s.accepted entry.fd⟩ : Client)) =
        (entries.map PollFd.fd).map fun fd => ⟨some fd, s.accepted fd⟩ := by simp
    refine ⟨⟨holes, ?_, empty⟩, by rw [kept]; exact aligned.nodup, aligned.requests⟩
    rw [entries] at arrays ⊢
    rw [kept]
    exact arrays
  | accept fd uid =>
    simp only [Server.step] at steps
    split at steps <;> try contradiction
    split at steps <;> try contradiction
    rename_i ready
    cases steps
    exact aligned.accept ready.2
  | noAccept =>
    simp only [Server.step] at steps
    split at steps <;> try contradiction
    split at steps <;> try contradiction
    cases steps
    exact ⟨aligned.arrays, aligned.nodup, aligned.requests⟩
  | endScan =>
    simp only [Server.step] at steps
    split at steps <;> try contradiction
    split at steps <;> try contradiction
    cases steps
    exact ⟨aligned.arrays, aligned.nodup, aligned.requests⟩
  | visit nread =>
    simp only [Server.step] at steps
    split at steps <;> try contradiction
    rename_i i phase
    split at steps <;> try contradiction
    rename_i entry polled
    split at steps
    · rename_i hup
      exact aligned.hungup polled (lastLeaves i entry phase polled (.inl hup)) steps
    · split at steps
      · rename_i pollin
        split at steps
        · rename_i eof
          exact aligned.hungup polled (lastLeaves i entry phase polled (.inr ⟨pollin, eof⟩)) steps
        · split at steps <;> try contradiction
          rename_i client here
          cases steps
          refine ⟨aligned.arrays, aligned.nodup, fun request member => ?_⟩
          simp only [List.mem_append, List.mem_singleton] at member
          obtain old | rfl := member
          · exact aligned.requests request old
          · exact aligned.uid polled here
      · cases steps
        exact ⟨aligned.arrays, aligned.nodup, aligned.requests⟩

end Server.Aligned

/-- Every request is handled under the uid its descriptor was accepted with, in every run in which
only the last client of `pollfd[]` leaves. -/
theorem requests_under_own_uid {listenfd : Nat} {events : List Event} {s : Server}
    (runs : execute Server.step (.start listenfd) events = some s)
    (lastLeaves : ∀ s' event, Takes Server.step (.start listenfd) events s' event →
    s'.LastLeaves event) :
    ∀ request ∈ s.requests, request.uid = request.accepted := by
  have aligned : s.Aligned := (Visits.finish runs).invariant Server.Aligned Server.LastLeaves
    (Server.start_aligned listenfd) (fun _ _ _ aligned allowed steps => aligned.step allowed
      steps) lastLeaves
  exact aligned.requests

/-- Two clients connect, and the second leaves before the first asks.  A third gets the descriptor
of the second; it and the first ask in one turn. -/
def lastLeavesFirst : List Event :=
  [.poll [(true, false)], .accept 5 100, .visit 0, .endScan, .poll [(true, false), (false, false)],
    .accept 6 200, .visit 0,
    .visit 0, .endScan, .poll [(false, false), (false, false), (false, true)], .noAccept, .visit 0,
      .visit 0, .endScan,
    .poll [(true, false), (true, false)], .accept 6 300, .visit 20, .visit 0, .endScan,
    .poll [(false, false), (true, false), (true, false)], .noAccept, .visit 20, .visit 20, .endScan]

theorem requests_under_own_uid_again :
    ∃ s, execute Server.step (.start 3) lastLeavesFirst = some s ∧
    s.requests = [⟨5, 100, 100⟩, ⟨5, 100, 100⟩, ⟨6, 300, 300⟩] ∧ ∀ request ∈ s.requests,
      request.uid = request.accepted := by
  have evaluates : (execute Server.step (.start 3) lastLeavesFirst).map Server.requests =
      some [⟨5, 100, 100⟩, ⟨5, 100, 100⟩, ⟨6, 300, 300⟩] := by
    decide
  have passes : allTaken Server.step (fun s event => decide (s.LastLeaves event)) (.start 3)
    lastLeavesFirst = true := by decide
  obtain ⟨s, runs, requests⟩ := Option.map_eq_some_iff.mp evaluates
  refine ⟨s, runs, requests, requests_under_own_uid runs fun s' event takes => ?_⟩
  simpa using takes.of_allTaken passes

/-- Two clients connect; the first one hangs up while the second sends a request. -/
def firstLeaves : List Event :=
  [.poll [(true, false)], .accept 5 100, .visit 0, .endScan, .poll [(true, false), (false, false)],
    .accept 6 200, .visit 0,
    .visit 0, .endScan, .poll [(false, false), (false, true), (true, false)], .noAccept,
      .visit 0, .visit 20]

/-- The request of the second client is handled under the uid of the first. -/
theorem request_under_foreign_uid : ∃ s, execute Server.step (.start 3) firstLeaves = some s ∧
    s.requests = [⟨6, 100, 200⟩] := by
  have evaluates : (execute Server.step (.start 3) firstLeaves).map Server.requests =
    some [⟨6, 100, 200⟩] := by decide
  obtain ⟨s, runs, requests⟩ := Option.map_eq_some_iff.mp evaluates
  exact ⟨s, runs, requests⟩

end Apue.Opend
