import Apue.Base.Machine
import Apue.Opend.Loop
import Mathlib.Data.Finset.Card
import Mathlib.Data.Finset.Range

/-! # The select loops of the open servers

`loop` of `open_server/loop.c` and of `opend/loop.select.c` differ in one test: after `select` the
first stops its scan of `client[]` when it has handled as many clients as `select` counted, the
second goes on to the largest index in use.  The two functions `client_add` and `client_del` are the
same in both servers, and the same as in the poll loop.

A server is modelled from one system call to the next: an outcome is what the call it is in returns,
and the server runs on to the next call.  An `fd_set` is a set of any size.  The two loops do the
same exactly because every ready descriptor stands in one slot of `client[]` that the scan reaches,
so that `n` is 0 only when no ready slot is left.
-/

namespace Apue.Opend.Select

open Apue.Base

/-! ## The code -/

/-- The index that `client_add` returns. -/
def clientIndex (client : List Client) : Nat :=
  (client.findIdx? fun entry => entry.fd = none).getD client.length

inductive Call where
  | clientAdd (fd uid : Nat)
  | clientDel (fd : Nat)
  | handleRequest (size fd uid : Nat)
  deriving DecidableEq, Repr

/-- The system call the loop is in. -/
inductive Phase where
  | selecting
  | accepting
  /-- In `read` of `client[i].fd`; `n` is what `select` returned, less the descriptors handled
  since.  Only `open_server` looks at it again. -/
  | reading (i fd : Nat) (readSet : Finset Nat) (n : Nat)
  | exited
  /-- The scan has left the array. -/
  | faulted
  deriving DecidableEq

structure Server where
  listenFd : Nat
  client : List Client
  originSet : Finset Nat
  maxFd : Nat
  maxIndex : Int
  phase : Phase
  /-- The calls that have been made. -/
  calls : List Call
  deriving DecidableEq

def Server.start (listenFd : Nat) : Server where
  listenFd := listenFd
  client := []
  originSet := {listenFd}
  maxFd := listenFd
  maxIndex := -1
  phase := .selecting
  calls := []

/-- The scan from index `i` up to the next `read`, or back to `select`; `early` is the test `n !=
0`. -/
def scan (early : Bool) (client : List Client) (readSet : Finset Nat) (n : Nat) : Nat → Nat → Phase
  | 0, _ => .selecting
  | turns + 1, i =>
    if early ∧ n = 0 then .selecting
    else
      match client[i]? with
      | none => .faulted
      | some entry =>
        match entry.fd with
        | none => scan early client readSet n turns (i + 1)
        | some fd =>
          if fd ∈ readSet then .reading i fd readSet n else scan early client readSet n
            turns (i + 1)

/-- The scan goes on at index `i`. -/
def Server.scanOn (s : Server) (early : Bool) (readSet : Finset Nat) (n i : Nat) : Server :=
  { s with phase := scan early s.client readSet n (s.maxIndex + 1 - i).toNat i }

/-- What a system call returns. -/
inductive Outcome where
  /-- The set that `select` leaves. -/
  | select (readSet : Finset Nat)
  | accept (fd uid : Nat)
  /-- `read` returns `nread`; `returns` says that the `handle_request` after it does not end the
  server. -/
  | read (nread : Nat) (returns : Bool)
  /-- The call fails. -/
  | error
  deriving DecidableEq

def Server.step (early : Bool) (s : Server) : Outcome → Option Server
  | .select readSet =>
    if s.phase = .selecting ∧ readSet ⊆ s.originSet then
      if s.listenFd ∈ readSet then some { s with phase := .accepting }
      else some (s.scanOn early readSet readSet.card 0)
    else none
  | .accept fd uid =>
    if s.phase = .accepting ∧ fd ∉ s.originSet then
      some { s with
        client := Opend.clientAdd s.client fd uid
        originSet := insert fd s.originSet
        maxFd := max s.maxFd fd
        maxIndex := max s.maxIndex (clientIndex s.client)
        phase := .selecting
        calls := s.calls ++ [.clientAdd fd uid] }
    else none
  | .read nread returns =>
    match s.phase with
    | .reading i fd readSet n =>
      if nread = 0 then
        let calls := s.calls ++ [.clientDel fd]
        match Opend.clientDel s.client fd with
        | none => some { s with calls := calls, phase := .exited }
        | some client =>
          some (Server.scanOn { s with client := client, originSet := s.originSet.erase fd, calls := calls }
            early readSet (n - 1) (i + 1))
      else
        match s.client[i]? with
        | none => some { s with phase := .faulted }
        | some entry =>
          let calls := s.calls ++ [.handleRequest nread fd entry.uid]
          if returns then some (Server.scanOn { s with calls := calls } early readSet
            (n - 1) (i + 1))
          else some { s with calls := calls, phase := .exited }
    | _ => none
  | .error =>
    match s.phase with
    | .exited | .faulted => none
    | _ => some { s with phase := .exited }

/-- `loop` of `open_server/loop.c`. -/
def openServerLoop : Server → Outcome → Option Server := Server.step true

/-- `loop` of `opend/loop.select.c`. -/
def opendLoop : Server → Outcome → Option Server := Server.step false

/-! ## What holds of both -/

/-- What one call does to the table of the clients' uids. -/
def register (table : Nat → Option Nat) : Call → Nat → Option Nat
  | .clientAdd fd uid => Function.update table fd (some uid)
  | .clientDel fd => Function.update table fd none
  | .handleRequest _ _ _ => table

/-- The uid recorded for a descriptor that was accepted and not closed since. -/
def recorded (calls : List Call) : Nat → Option Nat := calls.foldl register fun _ => none

/-- Every request is handled under the uid recorded when its descriptor was accepted. -/
def OwnUids (calls : List Call) : Prop :=
  ∀ before after size fd uid, calls = before ++ .handleRequest size fd uid :: after →
    recorded before fd = some uid

/-- The descriptor in a slot of `client[]`. -/
def fdAt (client : List Client) (i : Nat) : Option Nat := client[i]?.bind Client.fd

structure Server.Sound (s : Server) : Prop where
  watched : ∀ fd, fd ∈ s.originSet ↔ fd = s.listenFd ∨ ∃ i, fdAt s.client i = some fd
  bounds : ∀ i fd, fdAt s.client i = some fd → (i : Int) ≤ s.maxIndex ∧ fd ≤ s.maxFd
  listen : s.listenFd ≤ s.maxFd
  once : ∀ i j fd, fdAt s.client i = some fd → fdAt s.client j = some fd → i = j
  requests : OwnUids s.calls
  inside : s.phase ≠ .faulted

/-- The slots from `i` on that hold a ready descriptor. -/
def readySlots (client : List Client) (readSet : Finset Nat) (i : Nat) : Finset Nat :=
  (Finset.range client.length).filter fun j => i ≤ j ∧ (fdAt client j).any (· ∈ readSet)

/-- In the scan, `n` counts the ready slots that have not been handled. -/
def Phase.Counts (client : List Client) : Phase → Prop
  | .reading i fd readSet n =>
    fdAt client i = some fd ∧ fd ∈ readSet ∧ n = (readySlots client readSet i).card
  | .faulted => False
  | _ => True

/-- The invariant, less what it says about the phase. -/
structure Server.Kept (s : Server) : Prop where
  watched : ∀ fd, fd ∈ s.originSet ↔ fd = s.listenFd ∨ ∃ i, fdAt s.client i = some fd
  bounds : ∀ i fd, fdAt s.client i = some fd → (i : Int) ≤ s.maxIndex ∧ fd ≤ s.maxFd
  listen : s.listenFd ≤ s.maxFd
  once : ∀ i j fd, fdAt s.client i = some fd → fdAt s.client j = some fd → i = j
  requests : OwnUids s.calls
  fresh : ∀ i, fdAt s.client i ≠ some s.listenFd
  extent : -1 ≤ s.maxIndex ∧ s.maxIndex < s.client.length
  uids : ∀ (i : Nat) (entry : Client) (fd : Nat), s.client[i]? = some entry → entry.fd = some fd →
    recorded s.calls fd = some entry.uid

structure Server.Inv (s : Server) : Prop where
  kept : s.Kept
  counts : s.phase.Counts s.client

/-! ## The slots of `client[]` -/

section Slots

variable {client : List Client} {fd uid : Nat}

theorem fdAt_eq_some {i : Nat} :
    fdAt client i = some fd ↔ ∃ entry, client[i]? = some entry ∧ entry.fd = some fd := by
  simp [fdAt, Option.bind_eq_some_iff]

/-- Where `client_add` puts a client: in a hole, or behind the array. -/
theorem clientIndex_cases (client : List Client) :
    (∃ uid, client[clientIndex client]? = some ⟨none, uid⟩ ∧
      ∀ fd uid, clientAdd client fd uid = client.set (clientIndex client) ⟨some fd, uid⟩) ∨
    clientIndex client = client.length ∧ ∀ fd uid, clientAdd client fd uid =
      client ++ ⟨some fd, uid⟩ :: List.replicate (nalloc - 1) ⟨none, 0⟩ := by
  cases hole : client.findIdx? fun entry => entry.fd = none with
  | none =>
    refine .inr ⟨by simp [clientIndex, hole], fun fd uid => ?_⟩
    simp [clientAdd, hole, nalloc, List.replicate_succ]
  | some i =>
    obtain ⟨inside, empty, _⟩ := List.findIdx?_eq_some_iff_getElem.mp hole
    have here : client[i] = ⟨none, client[i].uid⟩ := by
      have free : client[i].fd = none := by simpa using empty
      rw [← free]
    refine .inl ⟨client[i].uid, ?_, fun fd uid => by simp [clientAdd, clientIndex, hole]⟩
    simp only [clientIndex, hole, Option.getD_some]
    rw [List.getElem?_eq_getElem inside, ← here]

theorem clientIndex_lt (client : List Client) (fd uid : Nat) :
    clientIndex client < (clientAdd client fd uid).length ∧
      client.length ≤ (clientAdd client fd uid).length := by
  obtain ⟨_, hole, added⟩ | ⟨behind, added⟩ := clientIndex_cases client
  · have inside := (List.getElem?_eq_some_iff.mp hole).1
    simp [added, inside]
  · simp [added, behind]

/-- The slot of a new client. -/
theorem clientAdd_self (client : List Client) (fd uid : Nat) :
    (clientAdd client fd uid)[clientIndex client]? = some ⟨some fd, uid⟩ := by
  obtain ⟨_, hole, added⟩ | ⟨behind, added⟩ := clientIndex_cases client
  · have inside := (List.getElem?_eq_some_iff.mp hole).1
    simp [added, inside]
  · simp [added, behind]

/-- The slots of the others. -/
theorem clientAdd_other {i : Nat} {entry : Client} (other : i ≠ clientIndex client)
    (live : entry.fd ≠ none) :
    (clientAdd client fd uid)[i]? = some entry ↔ client[i]? = some entry := by
  obtain ⟨_, _, added⟩ | ⟨behind, added⟩ := clientIndex_cases client
  · rw [added, List.getElem?_set_ne (Ne.symm other)]
  · rw [added, List.getElem?_append]
    split
    · rfl
    · rename_i outside
      have beyond : client[i]? = none := List.getElem?_eq_none (by omega)
      rw [beyond, List.getElem?_cons, if_neg (by omega)]
      simp only [reduceCtorEq, iff_false]
      intro hole
      have empty := List.eq_of_mem_replicate (List.mem_of_getElem? hole)
      exact live (by rw [empty])

/-- `client_add` changes no slot of a client. -/
theorem fdAt_clientAdd (client : List Client) (fd uid i : Nat) :
    fdAt (clientAdd client fd uid) i = if i =
      clientIndex client then some fd else fdAt client i := by
  split
  · rename_i same
    rw [same, fdAt, clientAdd_self]
    rfl
  · rename_i other
    ext f
    simp only [fdAt_eq_some]
    constructor
    all_goals
      rintro ⟨entry, here, live⟩
      have occupied : entry.fd ≠ none := by simp [live]
    · exact ⟨entry, (clientAdd_other other occupied).mp here, live⟩
    · exact ⟨entry, (clientAdd_other other occupied).mpr here, live⟩

theorem fdAt_clientIndex (client : List Client) : fdAt client (clientIndex client) = none := by
  obtain ⟨_, hole, _⟩ | ⟨behind, _⟩ := clientIndex_cases client
  · simp [fdAt, hole]
  · simp [fdAt, behind]

/-- `client_del` empties the one slot of the descriptor. -/
theorem clientDel_at
    (once : ∀ i j fd, fdAt client i = some fd → fdAt client j = some fd → i = j) {i : Nat}
    (here : fdAt client i = some fd) :
    clientDel client fd = some (client.modify i fun entry => { entry with fd := none }) := by
  have found : (client.findIdx? fun entry => entry.fd = some fd) = some i := by
    obtain ⟨entry, place, live⟩ := fdAt_eq_some.mp here
    obtain ⟨inside, value⟩ := List.getElem?_eq_some_iff.mp place
    rw [List.findIdx?_eq_some_iff_getElem]
    refine ⟨inside, by simp [value, live], fun j before => ?_⟩
    have elsewhere : fdAt client j ≠ some fd := fun same => by
      have := once i j fd here same
      omega
    have stored : client[j]? = some client[j] := List.getElem?_eq_getElem (by omega)
    simpa [fdAt, stored] using elsewhere
  simp [clientDel, found]

theorem fdAt_modify (client : List Client) (i j : Nat) :
    fdAt (client.modify i fun entry => { entry with fd := none }) j = if i =
      j then none else fdAt client j := by
  rw [fdAt, fdAt, List.getElem?_modify]
  cases client[j]? <;> split <;> simp_all

end Slots

/-! ## The scan -/

section Scan

variable {client : List Client} {readSet : Finset Nat} {i : Nat}

theorem mem_readySlots {j : Nat} :
    j ∈ readySlots client readSet i ↔ i ≤ j ∧ ∃ fd, fdAt client j = some fd ∧ fd ∈ readSet := by
  simp only [readySlots, Finset.mem_filter, Finset.mem_range, Option.any_eq_true, decide_eq_true_eq]
  constructor
  · rintro ⟨_, after, fd, live, ready⟩
    exact ⟨after, fd, live, ready⟩
  · rintro ⟨after, fd, live, ready⟩
    obtain ⟨entry, here, _⟩ := fdAt_eq_some.mp live
    exact ⟨(List.getElem?_eq_some_iff.mp here).1, after, fd, live, ready⟩

/-- A slot that is not ready is not missed. -/
theorem readySlots_skip (idle : ∀ fd, fdAt client i = some fd → fd ∉ readSet) :
    readySlots client readSet i = readySlots client readSet (i + 1) := by
  ext j
  rw [mem_readySlots, mem_readySlots]
  constructor
  · rintro ⟨after, fd, live, ready⟩
    have other : i ≠ j := by
      rintro rfl
      exact idle fd live ready
    exact ⟨by omega, fd, live, ready⟩
  · rintro ⟨after, rest⟩
    exact ⟨by omega, rest⟩

theorem card_readySlots {fd : Nat} (live : fdAt client i = some fd) (ready : fd ∈ readSet) :
    (readySlots client readSet i).card = (readySlots client readSet (i + 1)).card + 1 := by
  have split : readySlots client readSet i = insert i (readySlots client readSet (i + 1)) := by
    ext j
    rw [Finset.mem_insert, mem_readySlots, mem_readySlots]
    constructor
    · rintro ⟨after, rest⟩
      by_cases same : j = i
      · exact .inl same
      · exact .inr ⟨by omega, rest⟩
    · rintro (rfl | ⟨after, rest⟩)
      · exact ⟨Nat.le_refl _, fd, live, ready⟩
      · exact ⟨by omega, rest⟩
  rw [split, Finset.card_insert_of_notMem (by simp [mem_readySlots])]

/-- When `n` counts the ready slots that are left, both scans stop at the next of them, or at the
end. -/
theorem scan_eq {turns : Nat} (inside : i + turns ≤ client.length)
    (reached : ∀ j fd, fdAt client j = some fd → j < i + turns) :
    let n := (readySlots client readSet i).card
    scan true client readSet n turns i = scan false client readSet n turns i ∧
      (scan false client readSet n turns i).Counts client := by
  induction turns generalizing i with
  | zero => simp [scan, Phase.Counts]
  | succ turns inductionHypothesis =>
    intro n
    have present : client[i]? = some client[i] := List.getElem?_eq_getElem (by omega)
    have skip (idle : ∀ fd, fdAt client i = some fd → fd ∉ readSet) :
        scan true client readSet n turns (i + 1) = scan false client readSet n turns (i + 1) ∧
          (scan false client readSet n turns (i + 1)).Counts client := by
      simp only [n, readySlots_skip idle]
      exact inductionHypothesis (by omega) fun j fd live => by have := reached j fd live; omega
    -- with nothing left to count, the loop of `open_server` stops here; so would one more turn of it
    have stops : n = 0 → scan true client readSet n turns (i + 1) = .selecting := by
      intro zero
      cases turns <;> simp [scan, zero]
    simp only [scan, present, Bool.false_eq_true, false_and, if_false, true_and]
    cases live : client[i].fd with
    | none =>
      have next := skip fun fd occupied => by simp [fdAt, present, live] at occupied
      refine ⟨?_, next.2⟩
      split
      · rename_i zero
        rw [← next.1, stops zero]
      · exact next.1
    | some fd =>
      have here : fdAt client i = some fd := by simp [fdAt, present, live]
      by_cases ready : fd ∈ readSet
      · have positive : n ≠ 0 := by
          have := card_readySlots here ready
          omega
        simp only [ready, positive, if_true, if_false, true_and]
        exact ⟨here, ready, rfl⟩
      · have next := skip fun other occupied => by
          rw [here, Option.some.injEq] at occupied
          rwa [← occupied]
        simp only [ready, if_false]
        refine ⟨?_, next.2⟩
        split
        · rename_i zero
          rw [← next.1, stops zero]
        · exact next.1

/-- Every ready descriptor stands in one slot. -/
theorem card_readSet (once : ∀ i j fd, fdAt client i = some fd → fdAt client j = some fd → i = j)
    (known : ∀ fd ∈ readSet, ∃ i, fdAt client i = some fd) :
    readSet.card = (readySlots client readSet 0).card := by
  refine (Finset.card_bij (fun j _ => (fdAt client j).getD 0) ?_ ?_ ?_).symm
  · intro j member
    obtain ⟨_, fd, live, ready⟩ := mem_readySlots.mp member
    simpa [live] using ready
  · intro j member k member' same
    obtain ⟨_, fd, live, _⟩ := mem_readySlots.mp member
    obtain ⟨_, fd', live', _⟩ := mem_readySlots.mp member'
    simp only [live, live', Option.getD_some] at same
    exact once j k fd live (same ▸ live')
  · intro fd ready
    obtain ⟨j, live⟩ := known fd ready
    exact ⟨j, mem_readySlots.mpr ⟨Nat.zero_le j, fd, live, ready⟩, by simp [live]⟩

end Scan

/-! ## Both loops step by step -/

@[simp] theorem recorded_append (calls : List Call) (call : Call) :
    recorded (calls ++ [call]) = register (recorded calls) call := by
      simp [recorded, List.foldl_append]

theorem OwnUids.append {calls : List Call} (own : OwnUids calls) {call : Call}
    (last : ∀ size fd uid, call = .handleRequest size fd uid → recorded calls fd = some uid) :
    OwnUids (calls ++ [call]) := by
  intro before after size fd uid split
  obtain rfl | ⟨after, final, rfl⟩ := List.eq_nil_or_concat' after
  · obtain ⟨rfl, same⟩ := List.append_inj' split rfl
    exact last size fd uid (by simpa using same)
  · rw [← List.cons_append, ← List.append_assoc] at split
    obtain ⟨earlier, _⟩ := List.append_inj' split rfl
    exact own before after size fd uid earlier

namespace Server.Kept

variable {s : Server}

theorem withPhase (kept : s.Kept) (phase : Phase) : Kept { s with phase := phase } :=
  ⟨kept.watched, kept.bounds, kept.listen, kept.once, kept.requests, kept.fresh,
    kept.extent, kept.uids⟩

theorem accept (kept : s.Kept) {fd uid : Nat} (unused : fd ∉ s.originSet) (phase : Phase) :
    Kept { s with
      client := clientAdd s.client fd uid
      originSet := insert fd s.originSet
      maxFd := max s.maxFd fd
      maxIndex := max s.maxIndex (clientIndex s.client)
      phase := phase
      calls := s.calls ++ [.clientAdd fd uid] } := by
  have notWatched := unused
  rw [kept.watched, not_or, not_exists] at notWatched
  have hole := fdAt_clientIndex s.client
  have extent := kept.extent
  have inside := clientIndex_lt s.client fd uid
  refine ⟨fun f => ?_, fun i f live => ?_, ?_, fun i j f => ?_, kept.requests.append (by simp),
    fun i => ?_, ?_,
    fun i entry f here live => ?_⟩
  · -- the old slots keep their clients, the hole has the new one
    simp only [Finset.mem_insert, kept.watched, fdAt_clientAdd]
    constructor
    · rintro (rfl | listens | ⟨i, live⟩)
      · exact .inr ⟨clientIndex s.client, by simp⟩
      · exact .inl listens
      · have other : i ≠ clientIndex s.client := by
          rintro rfl
          simp [hole] at live
        exact .inr ⟨i, by simp [other, live]⟩
    · rintro (listens | ⟨i, live⟩)
      · exact .inr (.inl listens)
      · split at live
        · exact .inl (by simpa using live.symm)
        · exact .inr (.inr ⟨i, live⟩)
  · simp only [fdAt_clientAdd] at live
    dsimp only
    split at live
    · obtain rfl : fd = f := by simpa using live
      omega
    · have := kept.bounds i f live
      omega
  · have := kept.listen
    dsimp only
    omega
  · simp only [fdAt_clientAdd]
    intro first second
    split at first <;> split at second
    · omega
    · exact absurd (by simpa using first) fun same : fd = f => notWatched.2 j (same ▸ second)
    · exact absurd (by simpa using second) fun same : fd = f => notWatched.2 i (same ▸ first)
    · exact kept.once i j f first second
  · simp only [fdAt_clientAdd]
    split
    · simpa using notWatched.1
    · exact kept.fresh i
  · dsimp only
    omega
  · simp only [recorded_append, register]
    by_cases new : i = clientIndex s.client
    · dsimp only at here
      rw [new, clientAdd_self, Option.some.injEq] at here
      subst here
      obtain rfl : fd = f := by simpa using live
      simp
    · have old : s.client[i]? = some entry := (clientAdd_other new (by simp [live])).mp here
      have other : f ≠ fd := fun same => notWatched.2 i (fdAt_eq_some.mpr ⟨entry, old, same ▸ live⟩)
      rw [Function.update_of_ne other]
      exact kept.uids i entry f old live

theorem delete (kept : s.Kept) {i fd : Nat} (here : fdAt s.client i = some fd) (phase : Phase) :
    Kept { s with
      client := s.client.modify i fun entry => { entry with fd := none }
      originSet := s.originSet.erase fd
      phase := phase
      calls := s.calls ++ [.clientDel fd] } := by
  have remains {j f : Nat} (live : fdAt (s.client.modify i fun entry => { entry with fd := none })
      j = some f) :
      fdAt s.client j = some f ∧ f ≠ fd := by
    rw [fdAt_modify] at live
    split at live
    · simp at live
    · rename_i other
      exact ⟨live, fun same => other (kept.once i j fd here (same ▸ live))⟩
  refine ⟨fun f => ?_, fun j f live => kept.bounds j f (remains live).1, kept.listen,
    fun j k f first second => kept.once j k f (remains first).1 (remains second).1,
      kept.requests.append (by simp),
    fun j live => kept.fresh j
      (remains live).1, by simpa using kept.extent, fun j entry f stored live => ?_⟩
  · simp only [Finset.mem_erase, kept.watched]
    constructor
    · rintro ⟨other, listens | ⟨j, live⟩⟩
      · exact .inl listens
      · have elsewhere : i ≠ j := by
          rintro rfl
          rw [here, Option.some.injEq] at live
          exact other live.symm
        exact .inr ⟨j, by rw [fdAt_modify, if_neg elsewhere, live]⟩
    · rintro (rfl | ⟨j, live⟩)
      · exact ⟨fun same => kept.fresh i (same ▸ here), .inl rfl⟩
      · exact ⟨(remains live).2, .inr ⟨j, (remains live).1⟩⟩
  · have old := remains (fdAt_eq_some.mpr ⟨entry, stored, live⟩)
    have elsewhere : i ≠ j := by
      rintro rfl
      rw [here, Option.some.injEq] at old
      exact old.2 old.1.symm
    simp only [List.getElem?_modify, elsewhere, if_false, Option.map_eq_map,
      Option.map_id'] at stored
    rw [recorded_append, register, Function.update_of_ne old.2]
    exact kept.uids j entry f stored live

/-- A request is handled under the uid in the slot. -/
theorem request (kept : s.Kept) {i fd : Nat} {entry : Client} (stored : s.client[i]? = some entry)
    (here : entry.fd = some fd) (size : Nat) (phase : Phase) :
    Kept { s with phase := phase, calls := s.calls ++ [.handleRequest size fd entry.uid] } := by
  refine ⟨kept.watched, kept.bounds, kept.listen, kept.once, kept.requests.append ?_, kept.fresh,
    kept.extent,
    fun j other f there live => ?_⟩
  · intro size' fd' uid' same
    simp only [Call.handleRequest.injEq] at same
    obtain ⟨_, rfl, rfl⟩ := same
    exact kept.uids i entry fd stored here
  · rw [recorded_append]
    exact kept.uids j other f there live

/-- From the same place with the right count the two scans go on alike. -/
theorem scanOn (kept : s.Kept) {readSet : Finset Nat} {n i : Nat} (early : Bool)
    (counted : n = (readySlots s.client readSet i).card) (place : (i : Int) ≤ s.maxIndex + 1) :
    s.scanOn early readSet n i = s.scanOn false readSet n i ∧ (s.scanOn false readSet n i).Inv := by
  have extent := kept.extent
  have reached (j fd : Nat) (live : fdAt s.client j = some fd) :
      j < i + (s.maxIndex + 1 - i).toNat := by
    have := (kept.bounds j fd live).1
    omega
  have scans := @scan_eq s.client readSet i _ (show i + (s.maxIndex + 1 - i).toNat ≤
    s.client.length by omega) reached
  rw [← counted] at scans
  refine ⟨?_, kept.withPhase _, scans.2⟩
  cases early with
  | false => rfl
  | true => simp only [Server.scanOn, scans.1]

end Server.Kept

theorem Server.start_inv (listenFd : Nat) : (Server.start listenFd).Inv := by
  refine ⟨⟨?_, ?_, Nat.le_refl _, ?_, ?_, ?_, ?_, ?_⟩, trivial⟩ <;> simp [start, fdAt, OwnUids]

/-- In a state of the invariant a system call has the same effect on both servers, and keeps the
invariant. -/
theorem Server.Inv.step {s : Server} (inv : s.Inv) (early : Bool) (outcome : Outcome) :
    s.step early outcome = s.step false outcome ∧ ∀ s', s.step false outcome = some s' →
      s'.Inv := by
  obtain ⟨kept, counts⟩ := inv
  have extent := kept.extent
  cases outcome with
  | select readSet =>
    simp only [Server.step]
    split
    · rename_i ready
      split
      · simpa using ⟨kept.withPhase .accepting, trivial⟩
      · rename_i listens
        have known (fd : Nat) (member : fd ∈ readSet) : ∃ i, fdAt s.client i = some fd := by
          obtain rfl | live := (kept.watched fd).mp (ready.2 member)
          · exact absurd member listens
          · exact live
        have next := kept.scanOn early (card_readSet kept.once known)
          (show ((0 : Nat) : Int) ≤ s.maxIndex + 1 by omega)
        simpa [next.1] using next.2
    · simp
  | accept fd uid =>
    simp only [Server.step]
    split
    · rename_i allowed
      simpa using ⟨kept.accept allowed.2 .selecting, trivial⟩
    · simp
  | error =>
    simp only [Server.step]
    split
    · simp
    · simp
    · simpa using ⟨kept.withPhase .exited, trivial⟩
  | read nread returns =>
    simp only [Server.step]
    split
    · rename_i i fd readSet n phase
      rw [phase] at counts
      obtain ⟨here, ready, counted⟩ := counts
      rw [card_readySlots here ready] at counted
      have place : ((i + 1 : Nat) : Int) ≤ s.maxIndex + 1 := by
        have := (kept.bounds i fd here).1
        omega
      split
      · -- the slot that becomes free is behind the scan
        have later : readySlots (s.client.modify i fun entry => { entry with fd := none })
            readSet (i + 1) =
            readySlots s.client readSet (i + 1) := by
          ext j
          simp only [mem_readySlots, fdAt_modify]
          constructor
          · rintro ⟨after, rest⟩
            rw [if_neg (by omega)] at rest
            exact ⟨after, rest⟩
          · rintro ⟨after, rest⟩
            rw [if_neg (by omega)]
            exact ⟨after, rest⟩
        rw [clientDel_at kept.once here]
        have next := (kept.delete here s.phase).scanOn early
          (show n - 1 = _ by rw [later, counted, Nat.add_sub_cancel]) place
        simpa [next.1] using next.2
      · obtain ⟨entry, stored, live⟩ := fdAt_eq_some.mp here
        simp only [stored]
        have next := (kept.request stored live nread s.phase).scanOn early
          (show n - 1 = (readySlots s.client readSet (i + 1)).card by omega) place
        split
        · simpa [next.1] using next.2
        · simpa using ⟨kept.request stored live nread .exited, trivial⟩
    · simp

theorem Server.Inv.sound {s : Server} (inv : s.Inv) : s.Sound where
  watched := inv.kept.watched
  bounds := inv.kept.bounds
  listen := inv.kept.listen
  once := inv.kept.once
  requests := inv.kept.requests
  inside := by
    intro faulted
    have counts := inv.counts
    rw [faulted] at counts
    exact counts

theorem Server.Inv.run {s : Server} (inv : s.Inv) (outcomes : List Outcome) :
    execute openServerLoop s outcomes = execute opendLoop s outcomes ∧
      ∀ s', execute opendLoop s outcomes = some s' → s'.Inv := by
  induction outcomes generalizing s with
  | nil => simpa [execute] using inv
  | cons outcome outcomes inductionHypothesis =>
    obtain ⟨same, keeps⟩ := inv.step true outcome
    simp only [execute, openServerLoop, opendLoop, same]
    cases next : s.step false outcome with
    | none => simp
    | some s' => exact inductionHypothesis (keeps s' next)

/-- The two servers go through the same states with the same calls, whatever the system calls
return, and in all of these states the descriptor sets and `client[]` fit together. -/
theorem loops_equivalent (listenFd : Nat) (outcomes : List Outcome) :
    execute openServerLoop (.start listenFd) outcomes =
      execute opendLoop (.start listenFd) outcomes ∧
      (∀ s, execute openServerLoop (.start listenFd) outcomes = some s → s.Sound) ∧
      ∀ s, execute opendLoop (.start listenFd) outcomes = some s → s.Sound := by
  obtain ⟨same, keeps⟩ := (Server.start_inv listenFd).run outcomes
  refine ⟨same, fun s runs => (keeps s ?_).sound, fun s runs => (keeps s runs).sound⟩
  rwa [← same]

/-- Two clients; the first leaves while the second asks, and a third one takes its slot. -/
def threeClients : List Outcome :=
  [.select {3}, .accept 5 100, .select {3, 5}, .accept 6 200, .select {5, 6}, .read 0 true,
    .read 9 true, .select {3},
    .accept 5 300, .select {5}, .read 4 true]

theorem loops_equivalent_three : ∃ s, execute openServerLoop (.start 3) threeClients = some s ∧
    s.calls = [.clientAdd 5 100, .clientAdd 6 200, .clientDel 5, .handleRequest 9 6 200,
      .clientAdd 5 300,
      .handleRequest 4 5 300] ∧ s.Sound := by
  have evaluates : (execute openServerLoop (.start 3) threeClients).map Server.calls =
      some [.clientAdd 5 100, .clientAdd 6 200, .clientDel 5, .handleRequest 9 6 200,
        .clientAdd 5 300,
        .handleRequest 4 5 300] := by decide +kernel
  obtain ⟨s, runs, calls⟩ := Option.map_eq_some_iff.mp evaluates
  exact ⟨s, runs, calls, (loops_equivalent 3 threeClients).2.1 s runs⟩

end Apue.Opend.Select
