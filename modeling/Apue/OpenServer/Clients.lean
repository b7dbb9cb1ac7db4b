import Apue.Opend.Select
import Apue.OpenServer.Arguments
import Apue.OpenServer.Conversation
import Apue.OpenServer.Request

/-! # `open_server` with all its clients

Any number of clients connect, call `csopen` and leave, each at its own pace, while the server goes
around its loop: `select`, then `accept` or one `read` for each client that is ready, with the
request handled under the user ID in `client_array`.  To the loop this adds the streams, and to the
streams the loop.

What one client sees is a conversation of its own.  The others only change the variables that all
requests share.
-/

namespace Apue.OpenServer

open Apue.Base
open Apue.Opend
open Apue.Opend.Select (openServerLoop)

variable {ι FileSystem File : Type} [DecidableEq ι]

structure System (ι File : Type) where
  server : Select.Server
  globals : Globals
  /-- The two ends of a connection and its streams; their variables are not in use. -/
  talks : ι → Conversation File
  /-- Who has connected and not been accepted. -/
  backlog : List ι
  /-- The server's descriptor for a client. -/
  conn : ι → Option Nat
  connected : ι → Bool
  /-- The client has closed its end. -/
  left : ι → Bool

namespace System

inductive Action (ι FileSystem : Type) where
  | connect (p : ι)
  | csopen (p : ι) (name : Bytes) (oflag : Int)
  | receive (p : ι) (count : Nat)
  | leave (p : ι)
  | select (readSet : Finset Nat)
  | accept (fd : Nat)
  /-- The server reads so many bytes of the client it has come to; `returns` says that
  `handle_request` does not end the server. -/
  | read (p : ι) (count : Nat) (files : FileSystem) (returns : Bool)
  /-- The call that the server is in fails. -/
  | error
  deriving DecidableEq

def start (listenFd : Nat) : System ι File where
  server := .start listenFd
  globals := {}
  talks _ := {}
  backlog := []
  conn _ := none
  connected _ := false
  left _ := false

/-- The conversation of one client. -/
def view (s : System ι File) (p : ι) : Conversation File := { s.talks p with globals := s.globals }

/-- `buf_args` would store a pointer outside its block. -/
def Overruns (buf : Bytes) : Prop :=
  buf.getLast? = some 0 ∧ InPlace.bufArgs (fun _ => true) buf (fun _ => 0) = none

instance (buf : Bytes) : Decidable (Overruns buf) := inferInstanceAs (Decidable (_ ∧ _))

variable (kernel : Kernel FileSystem File) (uid : ι → Nat)

def step (s : System ι File) : Action ι FileSystem → Option (System ι File)
  | .connect p =>
    if s.connected p = true then none
    else some { s with connected := Function.update s.connected p true, backlog := s.backlog ++ [p] }
  | .csopen p name oflag =>
    if s.connected p = true ∧ s.left p = false then
      ((s.view p).step kernel (uid p) (.csopen name oflag)).map fun talk =>
        { s with talks := Function.update s.talks p talk }
    else none
  | .receive p count =>
    if s.left p = false then
      ((s.view p).step kernel (uid p) (.receive count)).map fun talk =>
        { s with talks := Function.update s.talks p talk }
    else none
  | .leave p =>
    if s.connected p = true then some { s with left := Function.update s.left p true } else none
  | .select readSet =>
    (openServerLoop s.server (.select readSet)).map fun server => { s with server := server }
  | .accept fd =>
    match s.backlog with
    | [] => none
    | p :: backlog => (openServerLoop s.server (.accept fd (uid p))).map fun server =>
        { s with server := server, backlog := backlog, conn := Function.update s.conn p (some fd) }
  | .read p count files returns =>
    match s.server.phase with
    | .reading i fd _ _ =>
      if s.conn p ≠ some fd then none
      else if count = 0 then
        if s.left p = true ∧ (s.talks p).toServer = [] then
          (openServerLoop s.server (.read 0 returns)).map fun server =>
            { s with server := server, conn := Function.update s.conn p none }
        else none
      else if Overruns ((s.talks p).toServer.take count) then
        some { s with server := { s.server with phase := .faulted } }
      else
        match s.server.client[i]?, returns with
        | some entry, true =>
          match (s.view p).step kernel entry.uid (.serve count files), openServerLoop s.server (.read count true) with
          | some talk, some server =>
            some { s with server := server, globals := talk.globals, talks := Function.update s.talks p talk }
          | _, _ => none
        | _, _ =>
          (openServerLoop s.server (.read count returns)).map fun server =>
            { s with server := server }
    | _ => none
  | .error => (openServerLoop s.server .error).map fun server => { s with server := server }

end System

/-! ## The server's tables and the clients -/

section Server

variable {server server' : Select.Server}

theorem openServerLoop_inv {outcome : Select.Outcome} (inv : server.Inv)
    (steps : openServerLoop server outcome = some server') :
    server'.Inv := by
  obtain ⟨same, keeps⟩ := inv.step true outcome
  exact keeps server' (same ▸ steps)

/-- The descriptors that the server watches, and the user IDs it has recorded for them. -/
structure SameTables (server server' : Select.Server) : Prop where
  watched : server'.originSet = server.originSet
  recorded : Select.recorded server'.calls = Select.recorded server.calls

theorem recorded_append (calls : List Select.Call) (call : Select.Call) :
    Select.recorded (calls ++ [call]) = Select.register (Select.recorded calls) call := by
  simp [Select.recorded, List.foldl_append]

theorem sameTables_select {readSet : Finset Nat}
    (steps : openServerLoop server (.select readSet) = some server') :
    SameTables server server' := by
  obtain ⟨-, next⟩ := Option.ite_none_right_eq_some.1 steps
  split at next
  · cases next
    exact ⟨rfl, rfl⟩
  · cases next
    exact ⟨rfl, rfl⟩

theorem sameTables_error (steps : openServerLoop server .error = some server') :
    SameTables server server' := by
  simp only [openServerLoop, Select.Server.step] at steps
  split at steps
  · cases steps
  · cases steps
  · cases steps
    exact ⟨rfl, rfl⟩

theorem sameTables_read {nread : Nat} {returns : Bool} (nonempty : nread ≠ 0)
    (steps : openServerLoop server (.read nread returns) = some server') :
    SameTables server server' := by
  simp only [openServerLoop, Select.Server.step, if_neg nonempty] at steps
  split at steps
  · split at steps
    · cases steps
      exact ⟨rfl, rfl⟩
    · split at steps
      · cases steps
        exact ⟨rfl, recorded_append _ _⟩
      · cases steps
        exact ⟨rfl, recorded_append _ _⟩
  · cases steps

theorem tables_accept {fd uid : Nat}
    (steps : openServerLoop server (.accept fd uid) = some server') :
    fd ∉ server.originSet ∧ server'.originSet = insert fd server.originSet ∧
      Select.recorded server'.calls = Function.update (Select.recorded server.calls) fd
        (some uid) := by
  obtain ⟨⟨-, fresh⟩, next⟩ := Option.ite_none_right_eq_some.1 steps
  cases next
  exact ⟨fresh, rfl, recorded_append _ _⟩

/-- The end of a connection leaves the others alone. -/
theorem tables_close {i fd n other : Nat} {readSet : Finset Nat} {returns : Bool}
    (phase : server.phase = .reading i fd readSet n)
    (steps : openServerLoop server (.read 0 returns) = some server') (apart : other ≠ fd) :
    (other ∈ server.originSet → other ∈ server'.originSet) ∧
      Select.recorded server'.calls other = Select.recorded server.calls other := by
  simp only [openServerLoop, Select.Server.step, phase, if_true] at steps
  have forgets : Select.recorded (server.calls ++ [.clientDel fd]) other =
      Select.recorded server.calls other := by
    rw [recorded_append]
    exact Function.update_of_ne apart ..
  split at steps
  · cases steps
    exact ⟨id, forgets⟩
  · cases steps
    exact ⟨fun member => Finset.mem_erase.2 ⟨apart, member⟩, forgets⟩

end Server

/-! ## One client -/

/-- A call of `csopen` whose request fits the buffer of the server, and whose arguments fit the
block of `buf_args`. -/
structure Fits (name : Bytes) (oflag : Int) : Prop where
  lower : -2 ^ 31 ≤ oflag
  upper : oflag < 2 ^ 31
  length : (csopenRequest name oflag).length ≤ maxline
  inside : ¬System.Overruns (csopenRequest name oflag)

theorem fits_iff (name : Bytes) (oflag : Int) : Fits name oflag ↔ -2 ^ 31 ≤ oflag ∧ oflag < 2 ^ 31 ∧
    (csopenRequest name oflag).length ≤ maxline ∧ ¬System.Overruns (csopenRequest name oflag) :=
  ⟨fun fits => ⟨fits.lower, fits.upper, fits.length, fits.inside⟩,
    fun ⟨lower, upper, length, inside⟩ => ⟨lower, upper, length, inside⟩⟩

instance (name : Bytes) (oflag : Int) : Decidable (Fits name oflag) :=
  decidable_of_iff' _ (fits_iff name oflag)

/-- Where the requests and the answers of a conversation come from; `seen` are the states of the
file system at its requests. -/
structure Sourced (kernel : Kernel FileSystem File) (uid : Nat) (seen : FileSystem → Prop)
    (talk : Conversation File) : Prop where
  asked : ∀ request ∈ talk.requests, ∃ name oflag, NulFree name ∧ Fits name oflag ∧
    request = csopenRequest name oflag
  served : ∀ request answer, (request, answer) ∈ talk.served →
    ∃ files globals, seen files ∧
      answer = (handleRequest bufArgs kernel files request uid globals).answer

section Talk

variable {kernel : Kernel FileSystem File} {uid : Nat} {seen : FileSystem → Prop}
    {talk talk' : Conversation File}

theorem Sourced.csopen {name : Bytes} {oflag : Int} (sourced : Sourced kernel uid seen talk)
    (fits : Fits name oflag)
    (steps : talk.step kernel uid (.csopen name oflag) = some talk') :
    Sourced kernel uid seen talk' := by
  obtain ⟨⟨-, clean, -⟩, next⟩ := Option.ite_none_right_eq_some.1 steps
  cases next
  constructor
  · intro request member
    obtain before | this := List.mem_append.1 member
    · exact sourced.asked request before
    · exact ⟨name, oflag, clean, fits, List.mem_singleton.1 this⟩
  · exact sourced.served

theorem Sourced.serve {count : Nat} {files : FileSystem} (sourced : Sourced kernel uid seen talk)
    (now : seen files)
    (steps : talk.step kernel uid (.serve count files) = some talk') :
    Sourced kernel uid seen talk' := by
  obtain ⟨-, next⟩ := Option.ite_none_right_eq_some.1 steps
  cases next
  constructor
  · exact sourced.asked
  · intro request answer member
    obtain before | this := List.mem_append.1 member
    · exact sourced.served request answer before
    · cases List.mem_singleton.1 this
      exact ⟨files, talk.globals, now, rfl⟩

theorem Sourced.receive {count : Nat} (sourced : Sourced kernel uid seen talk)
    (steps : talk.step kernel uid (.receive count) = some talk') :
    Sourced kernel uid seen talk' := by
  simp only [Conversation.step] at steps
  split at steps
  · obtain ⟨-, next⟩ := Option.ite_none_right_eq_some.1 steps
    split at next
    · cases next
      exact ⟨sourced.asked, sourced.served⟩
    · cases next
      exact ⟨sourced.asked, sourced.served⟩
    · cases next
      exact ⟨sourced.asked, sourced.served⟩
  · cases steps

theorem Sourced.serveOther {files : FileSystem} {buf : Bytes} {other : Nat}
    (sourced : Sourced kernel uid seen talk)
    (steps : talk.step kernel uid (.serveOther files buf other) = some talk') :
    Sourced kernel uid seen talk' := by
  cases steps
  exact ⟨sourced.asked, sourced.served⟩

theorem globals_csopen {name : Bytes} {oflag : Int}
    (steps : talk.step kernel uid (.csopen name oflag) = some talk') :
    talk'.globals = talk.globals := by
  obtain ⟨-, next⟩ := Option.ite_none_right_eq_some.1 steps
  cases next
  rfl

theorem globals_receive {count : Nat} (steps : talk.step kernel uid (.receive count) = some talk') :
    talk'.globals = talk.globals := by
  simp only [Conversation.step] at steps
  split at steps
  · obtain ⟨-, next⟩ := Option.ite_none_right_eq_some.1 steps
    split at next
    · cases next
      rfl
    · cases next
      rfl
    · cases next
      rfl
  · cases steps

/-- What the server does for one client is for the others a request in between. -/
theorem serveOther_of_serve {count : Nat} {files : FileSystem} {other : Conversation File}
    (steps : talk.step kernel uid (.serve count files) = some talk')
    (same : other.globals = talk.globals) (mine : Nat) :
    other.step kernel mine (.serveOther files (talk.toServer.take count) uid) =
      some { other with globals := talk'.globals } := by
  obtain ⟨-, next⟩ := Option.ite_none_right_eq_some.1 steps
  cases next
  simp [Conversation.step, same]

/-- The bytes before the server are a request that fits. -/
theorem Sourced.not_overruns {count : Nat} (sourced : Sourced kernel uid seen talk)
    (inStep : talk.InStep)
    (whole : count = talk.toServer.length) (nonempty : count ≠ 0) :
    ¬System.Overruns (talk.toServer.take count) := by
  have some : talk.toServer ≠ [] := by
    intro empty
    exact nonempty (whole.trans (congrArg List.length empty))
  rw [whole, List.take_length]
  cases inStep with
  | asked request client toServer _ _ _ requests =>
    have member : request ∈ talk.requests := by simp [requests]
    obtain ⟨name, oflag, -, fits, same⟩ := sourced.asked request member
    rw [toServer, same]
    exact fits.inside
  | idle client toServer => exact absurd toServer some
  | answered text rest readable client toServer => exact absurd toServer some
  | dumped client toServer => exact absurd toServer some

end Talk

/-! ## Every client -/

/-- The server has one descriptor for each client it has accepted, with the user ID of this
client. -/
structure Linked (uid : ι → Nat) (conn : ι → Option Nat) (server : Select.Server) : Prop where
  watched : ∀ p fd, conn p = some fd → fd ∈ server.originSet
  recorded : ∀ p fd, conn p = some fd → Select.recorded server.calls fd = some (uid p)
  apart : ∀ p q fd, conn p = some fd → conn q = some fd → p = q

section Links

variable {uid : ι → Nat} {conn : ι → Option Nat} {server server' : Select.Server} {p : ι} {fd : Nat}

omit [DecidableEq ι] in
theorem Linked.same (linked : Linked uid conn server) (same : SameTables server server') :
    Linked uid conn server' where
  watched q fd' has := by
    rw [same.watched]
    exact linked.watched q fd' has
  recorded q fd' has := by
    rw [same.recorded]
    exact linked.recorded q fd' has
  apart := linked.apart

theorem Linked.accept (linked : Linked uid conn server)
    (steps : openServerLoop server (.accept fd (uid p)) = some server') :
    Linked uid (Function.update conn p (some fd)) server' := by
  obtain ⟨fresh, watched, recorded⟩ := tables_accept steps
  have new {q : ι} {fd' : Nat} (has : Function.update conn p (some fd) q = some fd') :
      q = p ∧ fd' = fd ∨ q ≠ p ∧ conn q = some fd' ∧ fd' ≠ fd := by
    by_cases mine : q = p
    · rw [mine, Function.update_self] at has
      exact .inl ⟨mine, (Option.some.inj has).symm⟩
    · rw [Function.update_of_ne mine] at has
      exact .inr ⟨mine, has, fun same => fresh (same ▸ linked.watched q fd' has)⟩
  constructor
  · intro q fd' has
    rw [watched, Finset.mem_insert]
    obtain ⟨-, same⟩ | ⟨-, has', -⟩ := new has
    · exact .inl same
    · exact .inr (linked.watched q fd' has')
  · intro q fd' has
    rw [recorded]
    obtain ⟨mine, same⟩ | ⟨-, has', other⟩ := new has
    · rw [same, mine, Function.update_self]
    · rw [Function.update_of_ne other]
      exact linked.recorded q fd' has'
  · intro q q' fd' has has'
    obtain ⟨mine, same⟩ | ⟨-, old, other⟩ := new has
    · obtain ⟨mine', -⟩ | ⟨-, -, other'⟩ := new has'
      · rw [mine, mine']
      · exact absurd same other'
    · obtain ⟨-, same'⟩ | ⟨-, old', -⟩ := new has'
      · exact absurd same' other
      · exact linked.apart q q' fd' old old'

theorem Linked.close (linked : Linked uid conn server) {i n : Nat} {readSet : Finset Nat}
    {returns : Bool}
    (phase : server.phase = .reading i fd readSet n) (here : conn p = some fd)
    (steps : openServerLoop server (.read 0 returns) = some server') :
    Linked uid (Function.update conn p none) server' := by
  have old {q : ι} {fd' : Nat} (has : Function.update conn p none q = some fd') :
      conn q = some fd' ∧ fd' ≠ fd := by
    by_cases mine : q = p
    · rw [mine, Function.update_self] at has
      cases has
    · rw [Function.update_of_ne mine] at has
      exact ⟨has, fun same => mine (linked.apart q p fd (same ▸ has) here)⟩
  constructor
  · intro q fd' has
    obtain ⟨has', other⟩ := old has
    exact (tables_close phase steps other).1 (linked.watched q fd' has')
  · intro q fd' has
    obtain ⟨has', other⟩ := old has
    rw [(tables_close phase steps other).2]
    exact linked.recorded q fd' has'
  · intro q q' fd' has has'
    exact linked.apart q q' fd' (old has).1 (old has').1

omit [DecidableEq ι] in
/-- The entry that the scan has come to is that of the client. -/
theorem Linked.entry (linked : Linked uid conn server) (inv : server.Inv) {i n : Nat}
    {readSet : Finset Nat} {entry : Opend.Client}
    (phase : server.phase = .reading i fd readSet n) (here : conn p = some fd)
    (stored : server.client[i]? = some entry) :
    entry.uid = uid p := by
  have counts := inv.counts
  rw [phase] at counts
  obtain ⟨found, same, live⟩ := Select.fdAt_eq_some.1 counts.1
  rw [stored] at same
  cases same
  have known := inv.kept.uids i entry fd stored live
  rw [linked.recorded p fd here] at known
  exact (Option.some.inj known).symm

end Links

namespace System

/-- Every request fits, and the server reads all that a client has written. -/
def Allowed (s : System ι File) : Action ι FileSystem → Prop
  | .csopen _ name oflag => Fits name oflag
  | .read p count _ _ => count = 0 ∨ count = (s.talks p).toServer.length
  | _ => True

instance (s : System ι File) : (action : Action ι FileSystem) → Decidable (s.Allowed action)
  | .csopen _ _ _ => inferInstanceAs (Decidable (Fits _ _))
  | .read _ _ _ _ => inferInstanceAs (Decidable (_ ∨ _))
  | .connect _ | .receive _ _ | .leave _ | .select _ | .accept _ | .error => .isTrue trivial

structure Inv (kernel : Kernel FileSystem File) (uid : ι → Nat) (seen : ι → FileSystem → Prop)
    (s : System ι File) : Prop where
  server : s.server.Inv
  linked : Linked uid s.conn s.server
  inStep : ∀ p, (s.view p).InStep
  sourced : ∀ p, Sourced kernel (uid p) (seen p) (s.view p)

variable {kernel : Kernel FileSystem File} {uid : ι → Nat} {seen : ι → FileSystem → Prop}
    {s s' : System ι File}

omit [DecidableEq ι] in
theorem start_inv (kernel : Kernel FileSystem File) (uid : ι → Nat) (seen : ι → FileSystem → Prop)
    (listenFd : Nat) :
    (start listenFd : System ι File).Inv kernel uid seen where
  server := Select.Server.start_inv listenFd
  linked := ⟨nofun, nofun, nofun⟩
  inStep _ := .idle rfl rfl rfl rfl rfl
  sourced _ := ⟨nofun, nofun⟩

omit [DecidableEq ι] in
/-- Only the server's tables change. -/
theorem Inv.serving (inv : s.Inv kernel uid seen) {server : Select.Server} (next : server.Inv)
    {conn : ι → Option Nat}
    (linked : Linked uid conn server) (backlog : List ι) :
    Inv kernel uid seen { s with server := server, conn := conn, backlog := backlog } where
  server := next
  linked := linked
  inStep := inv.inStep
  sourced := inv.sourced

/-- A client goes on by itself. -/
theorem Inv.talking (inv : s.Inv kernel uid seen) (p : ι) {talk : Conversation File}
    (same : talk.globals = s.globals)
    (inStep : talk.InStep) (sourced : Sourced kernel (uid p) (seen p) talk) :
    Inv kernel uid seen { s with talks := Function.update s.talks p talk } := by
  have seen (q : ι) : view { s with talks := Function.update s.talks p talk } q = if q =
      p then talk else s.view q := by
    by_cases mine : q = p
    · rw [if_pos mine, mine]
      simp [view, ← same]
    · rw [if_neg mine]
      simp [view, Function.update_of_ne mine]
  constructor
  · exact inv.server
  · exact inv.linked
  · intro q
    rw [seen]
    split
    · exact inStep
    · exact inv.inStep q
  · intro q
    rw [seen]
    split
    next mine =>
      rw [mine]
      exact sourced
    next => exact inv.sourced q

/-- A request of one client is served. -/
theorem Inv.serve (inv : s.Inv kernel uid seen) {p : ι} {count : Nat} {files : FileSystem}
    (now : seen p files)
    (whole : count = (s.talks p).toServer.length)
    {talk : Conversation File}
    (steps : (s.view p).step kernel (uid p) (.serve count files) = some talk)
    {server : Select.Server}
    (next : server.Inv) (linked : Linked uid s.conn server) :
    Inv kernel uid seen { s with server := server, globals := talk.globals, talks := Function.update s.talks p talk } := by
  have mine : view { s with server := server, globals := talk.globals, talks := Function.update s.talks p talk } p = talk := by
    simp [view]
  have others {q : ι} (other : q ≠ p) :
      (s.view q).step kernel (uid q) (.serveOther files ((s.view p).toServer.take count) (uid p)) =
        some (view { s with server := server, globals := talk.globals, talks := Function.update s.talks p talk } q) := by
    rw [serveOther_of_serve steps (show (s.view q).globals = (s.view p).globals from rfl)]
    simp [view, Function.update_of_ne other]
  constructor
  · exact next
  · exact linked
  · intro q
    by_cases isMine : q = p
    · rw [isMine, mine]
      exact (inv.inStep p).serve whole steps
    · exact (inv.inStep q).serveOther (others isMine)
  · intro q
    by_cases isMine : q = p
    · rw [isMine, mine]
      exact (inv.sourced p).serve now steps
    · exact (inv.sourced q).serveOther (others isMine)

theorem Inv.read (inv : s.Inv kernel uid seen) {p : ι} {count : Nat} {files : FileSystem}
    {returns : Bool}
    (allowed : s.Allowed (.read p count files returns)) (now : seen p files)
    (steps : s.step kernel uid (.read p count files returns) = some s') :
    s'.Inv kernel uid seen := by
  simp only [step] at steps
  split at steps
  next i fd readSet n phase =>
    split at steps
    · cases steps
    next here =>
      have here : s.conn p = some fd := by simpa using here
      split at steps
      next =>
        obtain ⟨-, closes⟩ := Option.ite_none_right_eq_some.1 steps
        obtain ⟨server, serves, same⟩ := Option.map_eq_some_iff.1 closes
        cases same
        exact inv.serving (openServerLoop_inv inv.server serves)
          (inv.linked.close phase here serves) s.backlog
      next nonempty =>
        have whole : count = (s.talks p).toServer.length := allowed.resolve_left nonempty
        have inside : ¬Overruns ((s.talks p).toServer.take count) :=
          (inv.sourced p).not_overruns (inv.inStep p) whole nonempty
        rw [if_neg inside] at steps
        split at steps
        next entry stored =>
          split at steps
          next talk server talks serves =>
            cases steps
            rw [inv.linked.entry inv.server phase here stored] at talks
            exact inv.serve now whole talks (openServerLoop_inv inv.server serves)
              (inv.linked.same (sameTables_read nonempty serves))
          next => cases steps
        next =>
          obtain ⟨server, serves, same⟩ := Option.map_eq_some_iff.1 steps
          cases same
          exact inv.serving (openServerLoop_inv inv.server serves)
            (inv.linked.same (sameTables_read nonempty serves)) s.backlog
  next => cases steps

theorem Inv.step {action : Action ι FileSystem} (inv : s.Inv kernel uid seen)
    (allowed : s.Allowed action)
    (known : ∀ p count files returns, action = .read p count files returns → seen p files)
    (steps : s.step kernel uid action = some s') : s'.Inv kernel uid seen := by
  cases action with
  | connect p =>
    obtain ⟨-, next⟩ := Option.ite_none_left_eq_some.1 steps
    cases next
    exact ⟨inv.server, inv.linked, inv.inStep, inv.sourced⟩
  | leave p =>
    obtain ⟨-, next⟩ := Option.ite_none_right_eq_some.1 steps
    cases next
    exact ⟨inv.server, inv.linked, inv.inStep, inv.sourced⟩
  | csopen p name oflag =>
    obtain ⟨-, next⟩ := Option.ite_none_right_eq_some.1 steps
    obtain ⟨talk, talks, same⟩ := Option.map_eq_some_iff.1 next
    cases same
    exact inv.talking p (globals_csopen talks) ((inv.inStep p).csopen allowed.length talks)
      ((inv.sourced p).csopen allowed talks)
  | receive p count =>
    obtain ⟨-, next⟩ := Option.ite_none_right_eq_some.1 steps
    obtain ⟨talk, talks, same⟩ := Option.map_eq_some_iff.1 next
    cases same
    exact inv.talking p (globals_receive talks) ((inv.inStep p).receive talks)
      ((inv.sourced p).receive talks)
  | select readSet =>
    obtain ⟨server, serves, same⟩ := Option.map_eq_some_iff.1 steps
    cases same
    exact inv.serving (openServerLoop_inv inv.server serves)
      (inv.linked.same (sameTables_select serves)) s.backlog
  | accept fd =>
    simp only [System.step] at steps
    split at steps
    next => cases steps
    next p backlog _ =>
      obtain ⟨server, serves, same⟩ := Option.map_eq_some_iff.1 steps
      cases same
      exact inv.serving (openServerLoop_inv inv.server serves) (inv.linked.accept serves) backlog
  | read p count files returns => exact inv.read allowed (known p count files returns rfl) steps
  | error =>
    obtain ⟨server, serves, same⟩ := Option.map_eq_some_iff.1 steps
    cases same
    exact inv.serving (openServerLoop_inv inv.server serves)
      (inv.linked.same (sameTables_error serves)) s.backlog

end System

/-! ## What each client gets -/

/-- What `csopen` returns for this name in this state of the file system. -/
def Opened (kernel : Kernel FileSystem File) (files : FileSystem) (name : Bytes) (oflag : Int)
    (answer : Answer File) : Prop :=
  if name.any white = true then answer.IsError
  else
    match kernel.openFile files name oflag with
    | .ok descriptor => answer = sendFd descriptor
    | .error errno => answer = sendErr (-1) (snprintf (maxline - 1) (cantOpen kernel name errno))

end Apue.OpenServer
