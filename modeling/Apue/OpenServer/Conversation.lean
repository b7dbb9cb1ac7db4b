import Apue.Base.Machine
import Apue.Opend.Protocol

/-! # A client's conversation with `open_server`

`csopen` writes a request and waits in `recv_fd` for the answer, which ends with a NUL and a status
byte.  The server takes whatever one `read` returns for one request.  A run interleaves the calls of
one client, the server's reads of that connection, the requests of other clients in between and the
deliveries to the client; system calls that fail are left out.  The lists `requests` and `served`
are kept for the statements only.

`buf_args` stores its pointers in a block that is too small for most short requests.  A pointer
behind the end of the block has no effect here; `Inside` says that there is none, and the
conversation is followed through requests of that kind only.
-/

namespace Apue.OpenServer

open Apue.Base
open Apue.Opend

variable {FileSystem File : Type}

/-! ## The server -/

/-- Every field takes a separator but the last, so `strlen(buf) + 1` calls of `strsep` are
enough. -/
def bufArgsLoop : Nat → Option Bytes → List Bytes → List Bytes
  | fuel + 1, some ptr, argv =>
    let (field, rest) := strsep white ptr
    bufArgsLoop fuel rest (argv ++ [field])
  | _, _, argv => argv

def bufArgs (buf : Bytes) (optfunc : OptFunc) (globals : Globals) : Int × Globals :=
  optfunc (bufArgsLoop (strlen buf + 1) (some (cstr buf)) []) globals

/-! ## The way back -/

/-- Bytes in a stream; a descriptor travels with the first byte of its `sendmsg`. -/
abbrev Wire (File : Type) := List (UInt8 × Option File)

def Trailer.wire : Trailer File → Wire File
  | .status code => [(0, none), (code, none)]
  | .file descriptor => [(0, some descriptor), (0, none)]

def Answer.wire (answer : Answer File) : Wire File :=
  answer.text.map (·, none) ++ Trailer.wire answer.trailer

inductive Received (File : Type) where
  /-- All of it was part of the message; `recvmsg` is called again. -/
  | more (text : Bytes)
  | final (text : Bytes) (trailer : Trailer File)
  /-- `err_dump`. -/
  | formatError
  deriving DecidableEq, Repr

/-- What `recv_fd` does with the result of one `recvmsg`. -/
def recvFd (chunk : Wire File) : Received File :=
  let buf := chunk.map Prod.fst
  match buf.findIdx? (· = 0) with
  | none => .more buf
  | some i =>
    if i + 2 ≠ buf.length then .formatError
    else
      let status := buf.getLastD 0
      if status = 0 then
        match chunk.findSome? Prod.snd with
        | none => .formatError
        | some newfd => .final (buf.take i) (.file newfd)
      else .final (buf.take i) (.status status)

/-! ## The conversation -/

inductive Client where
  | idle
  /-- In `recv_fd`; the text has been written to the standard error. -/
  | waiting (text : Bytes)
  | dumped
  deriving DecidableEq, Repr

structure Conversation (File : Type) where
  client : Client := .idle
  toServer : Bytes := []
  toClient : Wire File := []
  globals : Globals := {}
  requests : List Bytes := []
  served : List (Bytes × Answer File) := []
  returned : List (Answer File) := []
  deriving DecidableEq, Repr

inductive Action (FileSystem : Type) where
  | csopen (name : Bytes) (oflag : Int)
  /-- The server reads so many bytes of this client and handles them. -/
  | serve (count : Nat) (files : FileSystem)
  /-- The server handles a request of another client. -/
  | serveOther (files : FileSystem) (buf : Bytes) (uid : Nat)
  /-- `recvmsg` of the client returns so many bytes. -/
  | receive (count : Nat)

variable (kernel : Kernel FileSystem File) (uid : Nat)

def Conversation.step (s : Conversation File) : Action FileSystem → Option (Conversation File)
  | .csopen name oflag =>
    if s.client = .idle ∧ NulFree name ∧ name.length ≤ maxline - 1 then
      some { s with
        client := .waiting []
        toServer := s.toServer ++ csopenRequest name oflag
        requests := s.requests ++ [csopenRequest name oflag] }
    else none
  | .serve count files =>
    if 0 < count ∧ count ≤ maxline ∧ count ≤ s.toServer.length then
      let buf := s.toServer.take count
      let handled := handleRequest bufArgs kernel files buf uid s.globals
      some { s with
        toServer := s.toServer.drop count
        toClient := s.toClient ++ Answer.wire handled.answer
        globals := handled.globals
        served := s.served ++ [(buf, handled.answer)] }
    else none
  | .serveOther files buf other =>
    some { s with globals := (handleRequest bufArgs kernel files buf other s.globals).globals }
  | .receive count =>
    match s.client with
    | .waiting text =>
      if 0 < count ∧ count ≤ maxline ∧ count ≤ s.toClient.length then
        let rest := s.toClient.drop count
        match recvFd (s.toClient.take count) with
        | .more more => some { s with client := .waiting (text ++ more), toClient := rest }
        | .final more trailer =>
          some { s with client := .idle, toClient := rest, returned := s.returned ++
            [⟨text ++ more, trailer⟩] }
        | .formatError => some { s with client := .dumped, toClient := rest }
      else none
    | _ => none

/-- The k-th value that `recv_fd` returned is the server's answer to the k-th request, as a
whole. -/
def Conversation.Answered (s : Conversation File) : Prop :=
  ∀ (k : Nat) answer, s.returned[k]? = some answer →
    ∃ request, s.requests[k]? = some request ∧ s.served[k]? = some (request, answer)

/-- The pointers to the fields of the request and the null pointer lie in the block that `buf_args`
allocates, or it is not called. -/
def Inside (buf : Bytes) : Prop :=
  buf.getLast? = some 0 → 8 * ((cstr buf).countP white + 2) ≤ strlen buf + 1 + 8

instance (buf : Bytes) : Decidable (Inside buf) := inferInstanceAs (Decidable (_ → _))

/-- The request fits the server's buffer, the server reads all that has been written, and every
request that it parses fits the block of `buf_args`. -/
def Conversation.Whole (s : Conversation File) : Action FileSystem → Prop
  | .csopen name oflag => (csopenRequest name oflag).length ≤ maxline
  | .serve count _ => count = s.toServer.length ∧ Inside s.toServer
  | .serveOther _ buf _ => Inside buf
  | .receive _ => True

instance (s : Conversation File) : (action : Action FileSystem) → Decidable (s.Whole action)
  | .csopen _ _ => inferInstanceAs (Decidable (_ ≤ _))
  | .serve _ _ => inferInstanceAs (Decidable (_ ∧ _))
  | .serveOther _ buf _ => inferInstanceAs (Decidable (Inside buf))
  | .receive _ => .isTrue trivial

/-! ## One answer at a time -/

/-- An answer that `recv_fd` can tell apart: no NUL before the trailer, and 0 only with a
descriptor. -/
structure Readable (answer : Answer File) : Prop where
  text : NulFree answer.text
  status : answer.trailer ≠ .status 0

theorem readable_sendErr (errcode : Int) (msg : Bytes) :
    Readable (sendErr errcode msg : Answer File) := by
  obtain ⟨code, trailer, nonzero⟩ := @sendErr_isError File errcode msg
  refine ⟨nulFree_cstr msg, ?_⟩
  rw [trailer]
  simpa using nonzero

theorem readable_handleRequest (files : FileSystem) (buf : Bytes) (globals : Globals) :
    Readable (handleRequest bufArgs kernel files buf uid globals).answer := by
  unfold handleRequest
  dsimp only
  split
  · exact readable_sendErr _ _
  · split
    · exact readable_sendErr _ _
    · split
      · exact readable_sendErr _ _
      · exact ⟨by simp [sendFd, NulFree], by simp [sendFd]⟩

theorem Answer.wire_ne_nil (answer : Answer File) : Answer.wire answer ≠ [] := by
  cases trailer : answer.trailer <;> simp [Answer.wire, Trailer.wire, trailer]

theorem Answer.wire_length (answer : Answer File) :
    (Answer.wire answer).length = answer.text.length + 2 := by
  cases trailer : answer.trailer <;> simp [Answer.wire, Trailer.wire, trailer]

section Receive

variable {answer : Answer File} {count : Nat}

theorem findIdx?_nul {text : Bytes} (clean : NulFree text) : text.findIdx? (· = 0) = none := by
  rw [List.findIdx?_eq_none_iff]
  intro b member
  simpa using fun zero : b = 0 => clean (zero ▸ member)

/-- The NUL is the first one of the answer. -/
theorem findIdx?_append_nul {text : Bytes} (clean : NulFree text) (rest : Bytes) :
    (text ++ 0 :: rest).findIdx? (· = 0) = some text.length := by
  simp [List.findIdx?_append, findIdx?_nul clean, List.findIdx?_cons]

theorem map_fst_message (text : Bytes) :
    (text.map (·, (none : Option File))).map Prod.fst = text := by
  simp [Function.comp_def]

theorem recvFd_text {text : Bytes} (clean : NulFree text) :
    recvFd (text.map (·, (none : Option File))) = .more text := by
  simp only [recvFd, map_fst_message, findIdx?_nul clean]

/-- The trailer is cut between its two bytes. -/
theorem recvFd_cut {text : Bytes} (clean : NulFree text) (control : Option File) :
    recvFd (text.map (·, none) ++ [(0, control)]) = .formatError := by
  have buf : (text.map (·, none) ++ [(0, control)]).map Prod.fst = text ++ [0] := by
    rw [List.map_append, map_fst_message]
    rfl
  simp [recvFd, buf, findIdx?_append_nul clean]

theorem recvFd_wire (readable : Readable answer) :
    recvFd (Answer.wire answer) = .final answer.text answer.trailer := by
  obtain ⟨text, trailer⟩ := answer
  cases trailer with
  | status code =>
    have buf : (Answer.wire ⟨text, .status code⟩ : Wire File).map Prod.fst = text ++ [0, code] := by
      rw [Answer.wire, List.map_append, map_fst_message]
      rfl
    have nonzero : code ≠ 0 := by simpa using readable.status
    simp [recvFd, buf, findIdx?_append_nul readable.text, nonzero]
  | file newfd =>
    have buf : (Answer.wire ⟨text, .file newfd⟩ : Wire File).map Prod.fst = text ++ [0, 0] := by
      rw [Answer.wire, List.map_append, map_fst_message]
      rfl
    have control : (Answer.wire ⟨text, .file newfd⟩ : Wire File).findSome? Prod.snd =
        some newfd := by
      have message : (text.map (·, (none : Option File))).findSome? Prod.snd = none := by simp
      rw [Answer.wire, List.findSome?_append, message]
      rfl
    simp [recvFd, buf, control, findIdx?_append_nul readable.text]

/-- The three ways in which the answer can be cut. -/
theorem recvFd_take (readable : Readable answer) (bound : count ≤ (Answer.wire answer).length) :
    (count ≤ answer.text.length ∧ recvFd ((Answer.wire answer).take count) =
      .more (answer.text.take count) ∧
      (Answer.wire answer).drop count = Answer.wire ⟨answer.text.drop count, answer.trailer⟩) ∨
    count = answer.text.length + 1 ∧ recvFd ((Answer.wire answer).take count) = .formatError ∨
    recvFd ((Answer.wire answer).take count) = .final answer.text answer.trailer ∧
      (Answer.wire answer).drop count = [] := by
  rw [Answer.wire_length] at bound
  by_cases inside : count ≤ answer.text.length
  · have before : (Answer.wire answer).take count = (answer.text.take count).map (·, none) := by
      rw [Answer.wire, List.take_append_of_le_length (by simpa using inside), List.map_take]
    have clean : NulFree (answer.text.take count) :=
      fun member => readable.text (List.mem_of_mem_take member)
    refine .inl ⟨inside, by rw [before, recvFd_text clean], ?_⟩
    rw [Answer.wire, List.drop_append_of_le_length (by simpa using inside), Answer.wire,
      List.map_drop]
  · by_cases whole : count = answer.text.length + 2
    · have all : count = (Answer.wire answer).length := by rw [Answer.wire_length, whole]
      refine .inr (.inr ?_)
      rw [all, List.take_length, List.drop_length]
      exact ⟨recvFd_wire readable, rfl⟩
    · have between : count = answer.text.length + 1 := by omega
      obtain ⟨control, last, shape⟩ : ∃ control last, Answer.wire answer =
          (answer.text.map (·, none) ++ [(0, control)]) ++ [last] := by
        cases trailer : answer.trailer with
        | status code => exact ⟨none, (code, none), by simp [Answer.wire, Trailer.wire, trailer]⟩
        | file newfd => exact ⟨some newfd, (0, none), by simp [Answer.wire, Trailer.wire, trailer]⟩
      refine .inr (.inl ⟨between, ?_⟩)
      rw [shape, List.take_append_of_le_length (by simp [between]),
        List.take_of_length_le (by simp [between])]
      exact recvFd_cut readable.text control

end Receive

/-! ## The conversation stays in step -/

/-- What is under way: nothing, one request, or the rest of one answer. -/
inductive Conversation.InStep (s : Conversation File) : Prop where
  | idle (client : s.client = .idle) (toServer : s.toServer = []) (toClient : s.toClient = [])
      (requests : s.requests = s.served.map Prod.fst)
        (returned : s.returned = s.served.map Prod.snd)
  | asked (request : Bytes) (client : s.client = .waiting []) (toServer : s.toServer = request)
      (nonempty : request ≠ []) (fits : request.length ≤ maxline) (toClient : s.toClient = [])
      (requests : s.requests = s.served.map Prod.fst ++ [request]) (returned : s.returned =
        s.served.map Prod.snd)
  | answered (text : Bytes) (rest : Answer File) (readable : Readable rest) (client : s.client = .waiting text)
      (toServer : s.toServer = []) (toClient : s.toClient = Answer.wire rest)
      (requests : s.requests = s.served.map Prod.fst)
      (returned : s.returned ++ [⟨text ++ rest.text, rest.trailer⟩] = s.served.map Prod.snd)
  | dumped (client : s.client = .dumped) (toServer : s.toServer = []) (requests : s.requests = s.served.map Prod.fst)
      (returned : s.returned <+: s.served.map Prod.snd)


namespace Conversation.InStep

variable {kernel uid} {s s' : Conversation File}

theorem csopen {name : Bytes} {oflag : Int} (inStep : s.InStep)
    (fits : (csopenRequest name oflag).length ≤ maxline)
    (steps : s.step kernel uid (.csopen name oflag) = some s') : s'.InStep := by
  simp only [Conversation.step] at steps
  split at steps <;> try contradiction
  rename_i ready
  cases steps
  cases inStep with
  | idle client toServer toClient requests returned =>
    refine .asked (csopenRequest name oflag) rfl (by simp [toServer]) (by simp [csopenRequest]) fits
      toClient ?_ returned
    simp [requests]
  | asked request client => simp [client] at ready
  | answered text rest readable client => simp [client] at ready
  | dumped client => simp [client] at ready

/-- The server has the whole request before it. -/
theorem serve {count : Nat} {files : FileSystem} (inStep : s.InStep)
    (whole : count = s.toServer.length)
    (steps : s.step kernel uid (.serve count files) = some s') : s'.InStep := by
  simp only [Conversation.step] at steps
  split at steps <;> try contradiction
  rename_i reads
  cases steps
  have empty : s.toServer ≠ [] := by
    intro empty
    simp [whole, empty] at reads
  cases inStep with
  | asked request client toServer nonempty fits toClient requests returned =>
    have readable := readable_handleRequest kernel uid files request s.globals
    have all : s.toServer.take count = request ∧ s.toServer.drop count = [] := by
      simp [whole, toServer]
    refine .answered [] _ readable client all.2 ?_ ?_ ?_
    · simp [toClient, all.1]
    · simp [requests, all.1]
    · simp [returned, all.1]
  | idle client toServer => exact absurd toServer empty
  | answered text rest readable client toServer => exact absurd toServer empty
  | dumped client toServer => exact absurd toServer empty

theorem receive {count : Nat} (inStep : s.InStep)
    (steps : s.step kernel uid (.receive count) = some s') : s'.InStep := by
  simp only [Conversation.step] at steps
  split at steps <;> try contradiction
  rename_i sofar waiting
  split at steps <;> try contradiction
  rename_i reads
  cases inStep with
  | idle client => simp [client] at waiting
  | dumped client => simp [client] at waiting
  | asked request client toServer nonempty fits toClient =>
    simp only [toClient, List.length_nil] at reads
    omega
  | answered text rest readable client toServer toClient requests returned =>
    obtain rfl : text = sofar := by simpa [client] using waiting
    rw [toClient] at steps reads
    obtain ⟨inside, more, left⟩ | ⟨_, cut⟩ | ⟨final, left⟩ := recvFd_take readable reads.2.2
    · simp only [more, left, Option.some.injEq] at steps
      subst steps
      have clean : NulFree (rest.text.drop count) :=
        fun member => readable.text (List.mem_of_mem_drop member)
      refine .answered (text ++ rest.text.take count) ⟨rest.text.drop count, rest.trailer⟩ ⟨clean,
        readable.status⟩ rfl
        toServer rfl requests ?_
      simpa using returned
    · simp only [cut, Option.some.injEq] at steps
      subst steps
      exact .dumped rfl toServer requests ⟨_, returned⟩
    · simp only [final, left, Option.some.injEq] at steps
      subst steps
      exact .idle rfl toServer rfl requests returned

theorem serveOther {files : FileSystem} {buf : Bytes} {other : Nat} (inStep : s.InStep)
    (steps : s.step kernel uid (.serveOther files buf other) = some s') : s'.InStep := by
  simp only [Conversation.step, Option.some.injEq] at steps
  subst steps
  cases inStep with
  | idle client toServer toClient requests returned =>
    exact .idle client toServer toClient requests returned
  | asked request client toServer nonempty fits toClient requests returned =>
    exact .asked request client toServer nonempty fits toClient requests returned
  | answered text rest readable client toServer toClient requests returned =>
    exact .answered text rest readable client toServer toClient requests returned
  | dumped client toServer requests returned => exact .dumped client toServer requests returned

theorem step {action : Action FileSystem} (inStep : s.InStep) (whole : s.Whole action)
    (steps : s.step kernel uid action = some s') : s'.InStep := by
  cases action with
  | csopen name oflag => exact inStep.csopen whole steps
  | serve count files => exact inStep.serve whole.1 steps
  | serveOther files buf other => exact inStep.serveOther steps
  | receive count => exact inStep.receive steps

end Conversation.InStep

end Apue.OpenServer
