import Apue.Printer.Client
import Apue.Printer.Recovery

/-! # From `print` to the printer

The whole way of a document: `submit_file` writes it to a connection, `client_thread` spools what
the reads return, a start of the daemon may find the job in the spool directories, and
`printer_thread` sends it on.  The daemon as a machine says which thread acts when; here each client
thread of that machine runs the code of `client_thread`, on a connection of its own.
-/

namespace Apue.Printer

open Apue.Base

/-! ## The code of a client thread as actions -/

/-- The actions of one client thread among those of the daemon. -/
def ownActions (c : Nat) (actions : List SpoolAction) : List ClientAction :=
  actions.filterMap fun
    | .client c' action => if c' = c then some action else none
    | _ => none

/-! ## What a thread has done -/

/-- What its reads have returned. -/
def receivedBy (done : List ClientAction) : Bytes :=
  done.flatMap fun
    | .receive buf nr _ => buf.take nr
    | _ => []

def requestStep : Option (PrintReq × Bool) → ClientAction → Option (PrintReq × Bool)
  | _, .submit req => some (req, true)
  | some (req, first), .receive buf _ _ => some (if first then markText buf req else req, false)
  | known, _ => known

/-- The request as it is now, and whether the first read is still to come. -/
def requestBy (done : List ClientAction) : Option (PrintReq × Bool) := done.foldl requestStep none

theorem requestBy_concat (done : List ClientAction) (action : ClientAction) :
    requestBy (done ++ [action]) = requestStep (requestBy done) action := by simp [requestBy]

theorem receivedBy_append (done later : List ClientAction) :
    receivedBy (done ++ later) = receivedBy done ++ receivedBy later := by
  simp [receivedBy]

/-- The request a thread works on, and whether the first read is still to come where that
matters. -/
def Client.carries : Client → PrintReq → Bool → Prop
  | .numbered _ req, req', first' => req' = req ∧ first' = true
  | .receiving _ req first, req', first' => req' = req ∧ first' = first
  | .received _ req, req', _ | .created _ req, req', _ | .written _ req, req', _ | .answered _ req, req', _ => req' = req
  | _, _, _ => True

/-- The thread has written its control file, or is gone. -/
def Client.settled : Client → Prop
  | .written .. | .answered .. | .ended => True
  | _ => False

namespace Printd

/-- What the state of the daemon says about a client thread is what the thread has done. -/
structure Traced (s : Printd) (c : Nat) (done : List ClientAction) : Prop where
  received : s.received c = receivedBy done
  spooled : c ∈ s.spooled → .endData ∈ done
  carries : (s.clients c).jobid.isSome → ∃ req first, requestBy done = some (req, first) ∧
    (s.clients c).carries req first
  control : ∀ id req, s.reqs.lookup id = some ⟨c, some req⟩ →
    (s.clients c).settled ∧ ∃ first, requestBy done = some (req, first)

/-- Somebody else goes on. -/
theorem Traced.other {s s' : Printd} {c : Nat} {done : List ClientAction} (traced : s.Traced c done)
    (received : s'.received c = s.received c) (spooled : c ∈ s'.spooled → c ∈ s.spooled)
    (clients : s'.clients c = s.clients c ∨ s'.clients c = .ended)
    (control : ∀ id req, s'.reqs.lookup id = some ⟨c, some req⟩ →
    s.reqs.lookup id = some ⟨c, some req⟩) : s'.Traced c done where
  received := received.trans traced.received
  spooled isSpooled := traced.spooled (spooled isSpooled)
  carries works := by
    obtain same | ended := clients
    · rw [same] at works ⊢
      exact traced.carries works
    · simp [ended, Client.jobid] at works
  control id req here := by
    obtain ⟨settled, known⟩ := traced.control id req (control id req here)
    refine ⟨?_, known⟩
    obtain same | ended := clients
    · rwa [same]
    · rw [ended]
      trivial

/-- The thread itself goes on. -/
theorem Traced.advance {s s' : Printd} {c : Nat} {client : Client} {done : List ClientAction}
    {action : ClientAction}
    (clients : s'.clients = Function.update s.clients c client)
    (received : s'.received c = receivedBy (done ++ [action]))
    (spooled : c ∈ s'.spooled → .endData ∈ done ++ [action])
    (carries : client.jobid.isSome → ∃ req first, requestBy (done ++ [action]) = some (req, first) ∧
    client.carries req first)
    (control : ∀ id req, s'.reqs.lookup id = some ⟨c, some req⟩ →
      client.settled ∧ ∃ first, requestBy (done ++ [action]) = some (req, first)) :
        s'.Traced c (done ++ [action]) where
  received := received
  spooled := spooled
  carries := by simpa [clients] using carries
  control := by simpa [clients] using control

/-- `client_thread` marks the request at the first read. -/
theorem stepClient_receive {s s' : Printd} {c : Nat} {buf : Bytes} {nr : Nat} {nw : Option Nat}
    (steps : s.stepClient c (.receive buf nr nw) = some s') :
    ∃ jobid req first, s.clients c = .receiving jobid req first ∧
      ∃ client, s'.clients = Function.update s.clients c client ∧
        (client = .receiving jobid (if first then markText buf req else req) false ∨
          client = .removingData jobid) ∧
        s'.received c = s.received c ++ buf.take nr ∧ s'.spooled = s.spooled ∧
          s'.reqs = s.reqs := by
  cases at_ : s.clients c <;> simp only [stepClient, at_] at steps <;> try contradiction
  rename_i jobid req first
  refine ⟨jobid, req, first, rfl, ?_⟩
  split at steps <;> try contradiction
  split at steps
  · cases steps
    exact ⟨_, rfl, .inl rfl, by simp [setClient], rfl, rfl⟩
  · cases steps
    exact ⟨_, rfl, .inr rfl, by simp [setClient], rfl, rfl⟩

/-- An action that reads nothing and leaves the request as it is. -/
theorem Traced.quiet {s s' : Printd} {c : Nat} {client : Client} {done : List ClientAction}
    {action : ClientAction}
    (traced : s.Traced c done) (clients : s'.clients = Function.update s.clients c client)
    (received : s'.received = s.received)
    (spooled : c ∈ s'.spooled → c ∈ s.spooled ∨ action = .endData)
    (control : ∀ id req, s'.reqs.lookup id = some ⟨c, some req⟩ →
    s.reqs.lookup id = some ⟨c, some req⟩)
    (silent : receivedBy [action] = [] ∧ ∀ known, requestStep known action = known)
    (works : client.jobid.isSome → (s.clients c).jobid.isSome)
    (settled : (s.clients c).settled → client.settled)
    (carries : ∀ req first, (s.clients c).carries req first → client.carries req first) :
    s'.Traced c (done ++ [action]) := by
  have request : requestBy (done ++ [action]) = requestBy done := by rw [requestBy_concat, silent.2]
  refine advance clients
    (by rw [received, traced.received, receivedBy_append, silent.1, List.append_nil]) ?_ ?_ ?_
  · intro isSpooled
    obtain before | rfl := spooled isSpooled
    · exact List.mem_append_left _ (traced.spooled before)
    · exact List.mem_append_right _ List.mem_cons_self
  · intro isWorking
    obtain ⟨req, first, known, carried⟩ := traced.carries (works isWorking)
    exact ⟨req, first, request.trans known, carries req first carried⟩
  · intro id req found
    obtain ⟨isSettled, first, known⟩ := traced.control id req (control id req found)
    exact ⟨settled isSettled, first, request.trans known⟩

theorem Traced.own {s s' : Printd} {c : Nat} {action : ClientAction} {done : List ClientAction}
    (traced : s.Traced c done)
    (steps : s.stepClient c action = some s') : s'.Traced c (done ++ [action]) := by
  have moves : ClientMoves s c action s' := stepClient_moves steps
  -- before the control file is written there is none with a request
  have unsettled {client : Client} (at_ : s.clients c = client) (here : ¬client.settled) (id : Int)
      (req : PrintReq) :
      s.reqs.lookup id ≠ some ⟨c, some req⟩ :=
        fun found => here (at_ ▸ (traced.control id req found).1)
  have known {client : Client} (at_ : s.clients c = client) (works : client.jobid.isSome) :
      ∃ req first, requestBy done = some (req, first) ∧ client.carries req first :=
        at_ ▸ traced.carries (at_ ▸ works)
  cases moves with
  | submit req accepting absent =>
    refine advance rfl (by simpa [receivedBy, setClient] using traced.received)
      (fun isSpooled => List.mem_append_left _ (traced.spooled isSpooled))
        (fun _ => ⟨req, true, requestBy_concat _ _, rfl, rfl⟩) ?_
    exact fun id req found => absurd found (unsettled absent not_false id req)
  | receive req' at_ | receiveFails at_ =>
    obtain ⟨jobid, req, first, at_, client, clients, which, more, same, reqs⟩ :=
      stepClient_receive steps
    obtain ⟨_, _, isKnown, rfl, rfl⟩ := known at_ rfl
    refine advance clients (by rw [more, traced.received, receivedBy_append]; simp [receivedBy])
      (fun isSpooled => List.mem_append_left _ (traced.spooled (same ▸ isSpooled))) ?_ ?_
    · intro _
      refine ⟨_, _, by rw [requestBy_concat, isKnown]; rfl, ?_⟩
      obtain rfl | rfl := which
      · exact ⟨rfl, rfl⟩
      · trivial
    · intro id req found
      rw [reqs] at found
      exact absurd found (unsettled at_ not_false id req)
  | @writeControl jobid req at_ =>
    obtain ⟨req', first, isKnown, rfl⟩ := known at_ rfl
    have request : requestBy (done ++ [ClientAction.writeControl true]) = some (req', first) := by
      rw [requestBy_concat, isKnown]
      rfl
    refine advance rfl (by simpa [receivedBy, setClient] using traced.received)
      (fun isSpooled => List.mem_append_left _ (traced.spooled isSpooled))
        (fun _ => ⟨req', first, request, rfl⟩) ?_
    intro id req found
    refine ⟨trivial, first, ?_⟩
    simp only [setClient, Dir.lookup_write] at found
    split at found
    · obtain ⟨_, -, same⟩ := Option.map_eq_some_iff.1 found
      cases same
      exact request
    · exact absurd found (unsettled at_ not_false id req)
  | creatData at_ =>
    exact traced.quiet rfl rfl .inl (fun _ _ => id) ⟨rfl, fun known => by cases known <;> rfl⟩
      (fun _ => by rw [at_]; rfl)
      (by rw [at_]; exact False.elim) (by rw [at_]; exact fun _ _ => id)
  | endData at_ =>
    refine traced.quiet rfl rfl (fun _ => .inr rfl) (fun _ _ => id) ⟨rfl,
      fun known => by cases known <;> rfl⟩
      (fun _ => by rw [at_]; rfl)
        (by rw [at_]; exact False.elim) (by rw [at_]; exact fun _ _ => And.left)
  | creatControl at_ =>
    refine traced.quiet rfl rfl .inl ?_ ⟨rfl, fun known => by cases known <;> rfl⟩
      (fun _ => by rw [at_]; rfl)
      (by rw [at_]; exact False.elim) (by rw [at_]; exact fun _ _ => id)
    intro id req found
    simp only [setClient, Dir.lookup_insert] at found
    split at found
    · cases found
    · exact found
  | respond at_ =>
    exact traced.quiet rfl rfl .inl (fun _ _ => id) ⟨rfl, fun known => by cases known <;> rfl⟩
      (fun _ => by rw [at_]; rfl)
      (fun _ => trivial) (by rw [at_]; exact fun _ _ => id)
  | addJob at_ =>
    exact traced.quiet rfl rfl .inl (fun _ _ => id) ⟨rfl, fun known => by cases known <;> rfl⟩
      (fun _ => by rw [at_]; rfl)
      (fun _ => trivial) (fun _ _ _ => trivial)
  | unlinkControl at_ =>
    exact traced.quiet rfl rfl .inl (fun _ _ => lookup_of_unlink) ⟨rfl,
      fun known => by cases known <;> rfl⟩
      (fun _ => by rw [at_]; rfl) (by rw [at_]; exact False.elim) (fun _ _ _ => trivial)
  | creatDataFails at_ | creatControlFails at_ | writeControlFails at_ | unlinkData at_ =>
    exact traced.quiet rfl rfl .inl (fun _ _ => id) ⟨rfl, fun known => by cases known <;> rfl⟩
      (fun _ => by rw [at_]; rfl)
      (by rw [at_]; exact False.elim) (fun _ _ _ => trivial)

theorem Traced.step {s s' : Printd} {c : Nat} {action : SpoolAction} {done : List ClientAction}
    (traced : s.Traced c done)
    (steps : s.step action = some s') : s'.Traced c (done ++ ownActions c [action]) := by
  cases action with
  | client c' action =>
    by_cases same : c' = c
    · subst same
      simpa [ownActions] using traced.own steps
    · have moves : ClientMoves s c' action s' := stepClient_moves steps
      have others : c ≠ c' := Ne.symm same
      simp only [ownActions, List.filterMap_cons, if_neg same, List.filterMap_nil, List.append_nil]
      cases moves
      case creatControl at_ =>
        refine traced.other rfl id (.inl (by simp [setClient, others])) fun id req found => ?_
        simp only [setClient, Dir.lookup_insert] at found
        split at found
        · cases found
        · exact found
      case writeControl at_ =>
        refine traced.other rfl id (.inl (by simp [setClient, others])) fun id req found => ?_
        simp only [setClient, Dir.lookup_write] at found
        split at found
        · obtain ⟨_, -, same⟩ := Option.map_eq_some_iff.1 found
          cases same
          exact absurd rfl others
        · exact found
      case unlinkControl at_ =>
        exact traced.other rfl id (.inl (by simp [setClient, others])) fun _ _ => lookup_of_unlink
      case endData at_ =>
        refine traced.other rfl (fun isSpooled => ?_) (.inl (by simp [setClient, others]))
          fun _ _ => id
        simpa [setClient, others] using isSpooled
      all_goals exact traced.other (by simp [setClient, others]) id (.inl (by simp [setClient, others])) fun _ _ => id
  | printer action =>
    have moves : PrinterMoves s action s' := stepPrinter_moves steps
    simp only [ownActions, List.filterMap_cons, List.filterMap_nil, List.append_nil]
    cases moves
    case unlinkControl at_ => exact traced.other rfl id (.inl rfl) fun _ _ => lookup_of_unlink
    all_goals exact traced.other rfl id (.inl rfl) fun _ _ => id
  | main action =>
    have moves : MainMoves s action s' := stepMain_moves steps
    simp only [ownActions, List.filterMap_cons, List.filterMap_nil, List.append_nil]
    cases moves
    case unlinkControl at_ => exact traced.other rfl id (.inl rfl) fun _ _ => lookup_of_unlink
    case kill up =>
      refine traced.other rfl id ?_ fun _ _ => id
      by_cases absent : s.clients c = .absent
      · exact .inl (by simp [killed, absent])
      · exact .inr (by simp [killed, absent])
    all_goals exact traced.other rfl id (.inl rfl) fun _ _ => id

theorem Traced.run {s s' : Printd} {c : Nat} {actions : List SpoolAction} {done : List ClientAction}
    (traced : s.Traced c done)
    (runs : execute Printd.step s actions = some s') :
    s'.Traced c (done ++ ownActions c actions) := by
  induction actions generalizing s done with
  | nil =>
    cases runs
    simpa [ownActions] using traced
  | cons action actions inductionHypothesis =>
    simp only [execute] at runs
    cases reaches : s.step action with
    | none => simp [reaches] at runs
    | some next =>
      have later := inductionHypothesis (traced.step reaches) (by simpa [reaches] using runs)
      rwa [List.append_assoc, ← show ownActions c (action :: actions) = ownActions c [action] ++
        ownActions c actions from
        List.filterMap_append (l := [action])] at later

end Printd

/-! ## What the code has done at the end of the document -/

section Code

variable {ops : SpoolOps}

end Code

/-! ## From end to end -/

end Apue.Printer
