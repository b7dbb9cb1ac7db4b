import Apue.OpenServer.Conversation

/-! # Passing descriptors and error numbers

`recv_fd` of the library and `recv_ufd` of `ipc2/recvfd2.c` share their loop: the bytes of every
`recvmsg` are searched for the NUL that announces the status byte, the bytes before it go to a
function of the caller, and the two differ in what they take from the control data of a zero status.
That part is a parameter here.  What one `recvmsg` returns is a piece of the wire; the control data
arrives with the first byte of the trailer.

The senders are `send_err` and `send_fd` of the library, and `send_fd` of `ipc2/sendfd2.c`, which
packs two control messages.
-/

namespace Apue.Lib

open Apue.Base
open Apue.Opend (maxline Trailer Answer sendStatus sendErr sendFd)
open Apue.OpenServer (Wire Readable)

variable {C W : Type}

/-! ## The receivers -/

/-- `newfd` and what `uidptr` points to. -/
structure Registers where
  newfd : Int := -1
  uid : Int := -1
  deriving DecidableEq, Repr

/-- The loop `for (ptr = buf; ptr < &buf[nr]; )` of one `recvmsg`: `nr`, the status and the
registers after it, `none` for `err_dump`.  A byte is unsigned here, so `& 0xFF` needs no operation;
`accept` reads the control data. -/
def scan (accept : C → Registers → Option Registers) (buf : Bytes) (control : Option C) :
    Nat → Nat → Nat → Int → Registers → Option (Nat × Int × Registers)
  | 0, _, nr, status, registers => some (nr, status, registers)
  | turns + 1, ptr, nr, status, registers =>
    if nr ≤ ptr then some (nr, status, registers)
    else if buf.getD ptr 0 ≠ 0 then scan accept buf control turns (ptr + 1) nr status registers
    else if ptr + 1 ≠ nr - 1 then none
    else
      let status : Int := (buf.getD (ptr + 1) 0).toNat
      if status = 0 then
        match control.bind (accept · registers) with
        | none => none
        | some registers => scan accept buf control turns (ptr + 1) (nr - 2) status registers
      else scan accept buf control turns (ptr + 1) (nr - 2) status
        { registers with newfd := -status }

inductive Ended where
  | returned (value : Int)
  | dumped
  /-- In `recvmsg`, which has nothing to return yet. -/
  | waiting
  deriving DecidableEq, Repr

/-- How a receiver ends, with the buffers it has passed to `userfunc`. -/
structure Receipt (W : Type) where
  ended : Ended
  passed : List Bytes
  world : W
  registers : Registers

/-- The loop over `recvmsg`, which returns these pieces of the wire one after another. -/
def receive (accept : C → Registers → Option Registers) (userfunc : W → Bytes → Int × W) :
    List (Wire C) → W → List Bytes → Registers → Receipt W
  | [], world, passed, registers => ⟨.waiting, passed, world, registers⟩
  | chunk :: chunks, world, passed, registers =>
    let buf := chunk.map Prod.fst
    if buf.length = 0 then ⟨.returned (-1), passed, world, registers⟩
    else
      match scan accept buf (chunk.findSome? Prod.snd) buf.length 0 buf.length (-1) registers with
      | none => ⟨.dumped, passed, world, registers⟩
      | some (nr, status, registers) =>
        let (written, world, passed) :=
          if 0 < nr then ((userfunc world (buf.take nr)).1, (userfunc world (buf.take nr)).2,
            passed ++ [buf.take nr])
          else ((nr : Int), world, passed)
        if written ≠ nr then ⟨.returned (-1), passed, world, registers⟩
        else if status ≥ 0 then ⟨.returned registers.newfd, passed, world, registers⟩
        else receive accept userfunc chunks world passed registers

/-- The pieces in which the receiver gets the bytes of the wire.  The two bytes of a trailer come
apart only where the first of them fills the buffer. -/
structure Segmented (wire : Wire C) (chunks : List (Wire C)) : Prop where
  whole : chunks.flatten = wire
  nonempty : ∀ chunk ∈ chunks, chunk ≠ []
  fits : ∀ chunk ∈ chunks, chunk.length ≤ maxline
  together : ∀ before chunk after, chunks = before ++ chunk :: after → after.flatten.length = 1 →
    chunk.length = maxline

/-! ## One piece of the wire -/

/-- The loop stops at the first NUL, which has to be the last byte but one. -/
theorem scan_eq (accept : C → Registers → Option Registers) (buf : Bytes) (control : Option C)
    (registers : Registers)
    {turns ptr : Nat} (left : ptr + turns = buf.length) :
    scan accept buf control turns ptr buf.length (-1) registers =
      match (buf.drop ptr).findIdx? (· = 0) with
      | none => some (buf.length, -1, registers)
      | some i =>
        if ptr + i + 2 ≠ buf.length then none
        else if buf.getLastD 0 = 0 then (control.bind (accept · registers)).map (ptr + i, 0, ·)
        else some (ptr + i, (buf.getLastD 0).toNat,
          { registers with newfd := -((buf.getLastD 0).toNat : Int) }) := by
  induction turns generalizing ptr with
  | zero =>
    have finished : buf.drop ptr = [] := List.drop_eq_nil_of_le (by omega)
    simp [scan, finished]
  | succ turns inductionHypothesis =>
    have inside : ptr < buf.length := by omega
    have first : buf.drop ptr = buf[ptr] :: buf.drop (ptr + 1) := List.drop_eq_getElem_cons inside
    have here : buf.getD ptr 0 = buf[ptr] := by simp [List.getD_eq_getElem?_getD, inside]
    have more : ¬buf.length ≤ ptr := by omega
    simp only [scan, here, more, if_false]
    by_cases nul : buf[ptr] = 0
    · by_cases place : ptr + 2 = buf.length
      · have last : buf.getD (ptr + 1) 0 = buf.getLastD 0 := by
          rw [List.getLastD_eq_getLast?, List.getLast?_eq_getElem?, List.getD_eq_getElem?_getD]
          congr 2
          omega
        have back : buf.length - 2 = ptr := by omega
        have adjacent : ¬ptr + 1 ≠ buf.length - 1 := by omega
        have stops (status : Int) (registers : Registers) :
            scan accept buf control turns (ptr + 1) ptr status registers =
              some (ptr, status, registers) := by
          cases turns <;> simp [scan]
        have here : (buf.drop ptr).findIdx? (· = 0) = some 0 := by
          simp [first, nul, List.findIdx?_cons]
        rw [if_neg (by simp [nul]), if_neg adjacent, here]
        simp only [last, back, stops, Nat.add_zero, place, ne_eq, not_true, if_false]
        by_cases zero : buf.getLastD 0 = 0
        · simp only [zero, UInt8.toNat_zero, Nat.cast_zero, if_true]
          cases control.bind (accept · registers) <;> rfl
        · have nonzero : ((buf.getLastD 0).toNat : Int) ≠ 0 := by
            simpa [← UInt8.toNat_inj] using zero
          simp only [zero, nonzero, if_false]
      · have apart : ptr + 1 ≠ buf.length - 1 := by omega
        simp [first, nul, apart, place, List.findIdx?_cons]
    · have next := inductionHypothesis (show ptr + 1 + turns = buf.length by omega)
      simp only [nul, ne_eq, not_false_eq_true, if_true, next, first, List.findIdx?_cons,
        decide_false, Bool.false_eq_true,
        if_false]
      cases (buf.drop (ptr + 1)).findIdx? (· = 0) with
      | none => rfl
      | some i =>
        have shift : ptr + (i + 1) = ptr + 1 + i := by omega
        simp only [Option.map_some, shift]

/-- What the trailer leaves in the registers; `none` for `err_dump`. -/
def settle (accept : C → Registers → Option Registers) (registers : Registers) :
    Trailer C → Option Registers
  | .status code => some { registers with newfd := -(code.toNat : Int) }
  | .file control => accept control registers

/-- The loop does with one piece what `recvFd` says. -/
theorem scan_recvFd (accept : C → Registers → Option Registers) (chunk : Wire C)
    (registers : Registers) :
    scan accept (chunk.map Prod.fst) (chunk.findSome? Prod.snd) (chunk.map Prod.fst).length 0
        (chunk.map Prod.fst).length (-1) registers =
      match OpenServer.recvFd chunk with
      | .formatError => none
      | .more text => some (text.length, -1, registers)
      | .final text trailer => (settle accept registers trailer).map (text.length,
          match trailer with
          | .status code => (code.toNat : Int)
          | .file _ => 0, ·) := by
  rw [scan_eq accept _ _ registers (Nat.zero_add _)]
  simp only [OpenServer.recvFd, List.drop_zero, Nat.zero_add]
  cases nul : (chunk.map Prod.fst).findIdx? (· = 0) with
  | none => rfl
  | some i =>
    dsimp only
    split
    · rfl
    · rename_i place
      have width : ((chunk.map Prod.fst).take i).length = i := by
        rw [List.length_take]
        omega
      split
      · cases chunk.findSome? Prod.snd with
        | none => rfl
        | some control => simp [settle, width]
      · simp [settle, width]

/-- The bytes that `recvFd` takes for the message are the first ones of the piece. -/
theorem recvFd_cut {chunk : Wire C} {text : Bytes} (reads : OpenServer.recvFd chunk = .more text ∨
    ∃ trailer, OpenServer.recvFd chunk = .final text trailer) :
      (chunk.map Prod.fst).take text.length = text := by
  simp only [OpenServer.recvFd] at reads
  split at reads
  · obtain same | ⟨_, same⟩ := reads
    · simp only [OpenServer.Received.more.injEq] at same
      rw [← same, List.take_length]
    · simp at same
  · rename_i i _
    have initial : text = (chunk.map Prod.fst).take i := by
      split at reads
      · simp at reads
      · split at reads
        · split at reads
          · simp at reads
          · simp only [OpenServer.Received.final.injEq, reduceCtorEq, false_or] at reads
            obtain ⟨_, same, _⟩ := reads
            exact same.symm
        · simp only [OpenServer.Received.final.injEq, reduceCtorEq, false_or] at reads
          obtain ⟨_, same, _⟩ := reads
          exact same.symm
    rw [initial, List.length_take, ← List.take_take, List.take_length]

section Receive

variable {accept : C → Registers → Option Registers} {userfunc : W → Bytes → Int × W}

/-- The world and the buffers after `userfunc` has been given the message part of a piece, if there
is one. -/
def pass (userfunc : W → Bytes → Int × W) (text : Bytes) (world : W) (passed : List Bytes) :
    W × List Bytes :=
  if text = [] then (world, passed) else ((userfunc world text).2, passed ++ [text])

theorem pass_flatten (text : Bytes) (world : W) (passed : List Bytes) :
    (pass userfunc text world passed).2.flatten = passed.flatten ++ text := by
  unfold pass
  split <;> simp_all

theorem pass_nonempty {text : Bytes} {world : W} {passed : List Bytes}
    (earlier : ∀ buf ∈ passed, buf ≠ []) :
    ∀ buf ∈ (pass userfunc text world passed).2, buf ≠ [] := by
  unfold pass
  split
  · exact earlier
  · rename_i some
    intro buf member
    obtain old | rfl := List.mem_append.mp member |>.imp_right List.mem_singleton.mp
    · exact earlier buf old
    · exact some

/-- One `recvmsg`, when `userfunc` takes all it is given. -/
theorem receive_cons (takes : ∀ world text, (userfunc world text).1 = text.length) {chunk : Wire C}
    (nonempty : chunk ≠ [])
    {text : Bytes} {status : Int} {registers registers' : Registers}
    (scans : scan accept (chunk.map Prod.fst) (chunk.findSome? Prod.snd)
    (chunk.map Prod.fst).length 0
      (chunk.map Prod.fst).length (-1) registers = some (text.length, status, registers'))
    (front : (chunk.map Prod.fst).take text.length = text) (chunks : List (Wire C)) (world : W)
    (passed : List Bytes) :
    receive accept userfunc (chunk :: chunks) world passed registers =
      if status ≥ 0 then
        ⟨.returned registers'.newfd, (pass userfunc text world passed).2,
          (pass userfunc text world passed).1, registers'⟩
      else receive accept userfunc chunks (pass userfunc text world passed).1
        (pass userfunc text world passed).2 registers' := by
  have some : ¬(chunk.map Prod.fst).length = 0 := by simpa using nonempty
  simp only [receive, some, if_false, scans, front, takes]
  by_cases empty : text = []
  · simp [empty, pass]
  · have positive : 0 < text.length := List.length_pos_iff.mpr empty
    simp [empty, pass, positive]

theorem receive_more (takes : ∀ world text, (userfunc world text).1 = text.length) {chunk : Wire C}
    (nonempty : chunk ≠ [])
    {text : Bytes} (more : OpenServer.recvFd chunk = .more text) (chunks : List (Wire C))
    (world : W) (passed : List Bytes)
    (registers : Registers) : receive accept userfunc (chunk :: chunks) world passed registers =
      receive accept userfunc chunks (pass userfunc text world passed).1
        (pass userfunc text world passed).2 registers := by
  have scans := scan_recvFd accept chunk registers
  rw [more] at scans
  rw [receive_cons takes nonempty scans (recvFd_cut (.inl more))]
  rfl

theorem receive_final (takes : ∀ world text, (userfunc world text).1 = text.length) {chunk : Wire C}
    (nonempty : chunk ≠ [])
    {text : Bytes} {trailer : Trailer C} {registers r : Registers}
    (final : OpenServer.recvFd chunk = .final text trailer)
    (settled : settle accept registers trailer = some r) (chunks : List (Wire C)) (world : W)
    (passed : List Bytes) :
    receive accept userfunc (chunk :: chunks) world passed registers =
      ⟨.returned r.newfd, (pass userfunc text world passed).2,
        (pass userfunc text world passed).1, r⟩ := by
  have scans := scan_recvFd accept chunk registers
  rw [final] at scans
  simp only [settled, Option.map_some] at scans
  rw [receive_cons takes nonempty scans (recvFd_cut (.inr ⟨_, final⟩)), if_pos]
  cases trailer <;> simp

/-! ## The whole wire -/

theorem Segmented.tail {wire chunk : Wire C} {chunks : List (Wire C)}
    (segmented : Segmented wire (chunk :: chunks)) :
    Segmented (wire.drop chunk.length) chunks where
  whole := by
    rw [← segmented.whole]
    simp
  nonempty := fun other member => segmented.nonempty other (List.mem_cons_of_mem chunk member)
  fits := fun other member => segmented.fits other (List.mem_cons_of_mem chunk member)
  together := by
    intro before other after split
    exact segmented.together (chunk :: before) other after (by rw [split, List.cons_append])

/-- However the wire is cut, the message goes to `userfunc` and the trailer decides what is
returned.  The message is short enough that the buffer cannot fill up between the two bytes of the
trailer. -/
theorem receive_answer (takes : ∀ world text, (userfunc world text).1 = text.length)
    {answer : Answer C}
    (readable : Readable answer) (short : answer.text.length ≤ maxline - 2) {chunks : List (Wire C)}
    (segmented : Segmented (OpenServer.Answer.wire answer) chunks) {registers r : Registers}
    (settled : settle accept registers answer.trailer = some r) (world : W) (passed : List Bytes) :
    ∃ world' passed', receive accept userfunc chunks world passed registers =
      ⟨.returned r.newfd, passed', world', r⟩ ∧
      passed'.flatten = passed.flatten ++ answer.text ∧
      ((∀ buf ∈ passed, buf ≠ []) → ∀ buf ∈ passed', buf ≠ []) := by
  induction chunks generalizing answer world passed with
  | nil =>
    have empty := segmented.whole
    exact absurd empty.symm (OpenServer.Answer.wire_ne_nil answer)
  | cons chunk chunks inductionHypothesis =>
    have some := segmented.nonempty chunk (by simp)
    have count : chunk.length ≤ (OpenServer.Answer.wire answer).length := by
      rw [← segmented.whole]
      simp
    have front : (OpenServer.Answer.wire answer).take chunk.length = chunk := by
      rw [← segmented.whole]
      simp
    have tail := segmented.tail
    obtain ⟨inside, more, left⟩ | ⟨between, _⟩ | ⟨final, left⟩ :=
      OpenServer.recvFd_take readable count
    · -- a piece of the message
      rw [front] at more
      rw [left] at tail
      have clean : NulFree (answer.text.drop chunk.length) :=
        fun member => readable.text (List.mem_of_mem_drop member)
      have shorter : (answer.text.drop chunk.length).length ≤ maxline - 2 := by
        rw [List.length_drop]
        omega
      have rest : Readable ⟨answer.text.drop chunk.length, answer.trailer⟩ :=
        ⟨clean, readable.status⟩
      obtain ⟨world', passed', ends, all, nonempty⟩ := inductionHypothesis rest shorter tail settled
        (pass userfunc (answer.text.take chunk.length) world passed).1
        (pass userfunc (answer.text.take chunk.length) world passed).2
      refine ⟨world', passed', by rw [receive_more takes some more, ends], ?_, fun earlier => nonempty (pass_nonempty earlier)⟩
      rw [all, pass_flatten, List.append_assoc, List.take_append_drop]
    · -- the trailer cannot be cut: the buffer would have to be full
      have rest := congrArg List.length segmented.whole
      rw [List.flatten_cons, List.length_append, OpenServer.Answer.wire_length] at rest
      have full := segmented.together [] chunk chunks rfl (by omega)
      simp only [maxline] at full short
      omega
    · rw [front] at final
      exact ⟨_, _, receive_final takes some final settled chunks world passed, pass_flatten _ _ _,
        pass_nonempty⟩

end Receive

/-! ## The library -/

/-- The status for an error number: a byte that is not 0. -/
def errorStatus (errcode : Int) : Int := if -errcode % 256 = 0 then 1 else -errcode % 256

theorem sendStatus_eq (errcode : Int) :
    ∃ code, (sendStatus errcode : Trailer C) = .status code ∧
      (code.toNat : Int) = errorStatus errcode := by
  have truncated : ((UInt8.ofInt (-errcode)).toNat : Int) = -errcode % 256 := by
    have range := Int.emod_nonneg (-errcode) (show (256 : Int) ≠ 0 by decide)
    have below := Int.emod_lt_of_pos (-errcode) (show (0 : Int) < 256 by decide)
    rw [UInt8.ofInt, UInt8.toNat_ofNat']
    omega
  refine ⟨_, rfl, ?_⟩
  have zero : UInt8.ofInt (-errcode) = 0 ↔ -errcode % 256 = 0 := by
    rw [← truncated, ← UInt8.toNat_inj, UInt8.toNat_zero, Nat.cast_eq_zero]
  by_cases wraps : UInt8.ofInt (-errcode) = 0
  · simp [errorStatus, wraps, zero.mp wraps]
  · rw [if_neg wraps, errorStatus, if_neg (mt zero.mpr wraps), truncated]

/-- The lines of `recv_fd` for a zero status; `install` is the number under which the kernel passes
on an open file. -/
def takeDescriptor {File : Type} (install : File → Nat) (file : File) (registers : Registers) :
    Option Registers :=
  some { registers with newfd := install file }

/-- `recv_fd`. -/
def recvFd {File : Type} (install : File → Nat) (userfunc : W → Bytes → Int × W)
    (chunks : List (Wire File)) (world : W) :
    Receipt W :=
  receive (takeDescriptor install) userfunc chunks world [] {}

/-- What `send_err` sends, and a descriptor sent by `send_fd`, arrive as they are, however the wire
is cut. -/
theorem error_passing_round_trip {File : Type} (install : File → Nat)
    (userfunc : W → Bytes → Int × W)
    (takes : ∀ world text, (userfunc world text).1 = text.length) (world : W) :
    (∀ (errcode : Int) (msg : Bytes) (chunks : List (Wire File)), NulFree msg →
      msg.length ≤ maxline - 2 →
      Segmented (OpenServer.Answer.wire (sendErr errcode msg)) chunks →
      let receipt := recvFd install userfunc chunks world
      receipt.passed.flatten = msg ∧
        receipt.ended = .returned (-errorStatus (if errcode ≥ 0 then -1 else errcode))) ∧
    ∀ (file : File) (chunks : List (Wire File)),
      Segmented (OpenServer.Answer.wire (sendFd file)) chunks →
      let receipt := recvFd install userfunc chunks world
      receipt.passed = [] ∧ receipt.ended = .returned (install file) := by
  constructor
  · intro errcode msg chunks clean short segmented
    obtain ⟨code, trailer, status⟩ :=
      sendStatus_eq (C := File) (if errcode ≥ 0 then -1 else errcode)
    have text : (sendErr errcode msg : Answer File).text = msg := cstr_of_nulFree clean
    have settled : settle (takeDescriptor install) {} (sendErr errcode msg : Answer File).trailer =
        some { newfd := -errorStatus (if errcode ≥ 0 then -1 else errcode) } := by
      rw [sendErr, trailer, settle, status]
    obtain ⟨world', passed, ends, all, _⟩ :=
      receive_answer takes (OpenServer.readable_sendErr errcode msg)
      (by rwa [text]) segmented settled world []
    simp only [recvFd, ends]
    exact ⟨by simpa [text] using all, trivial⟩
  · intro file chunks segmented
    have readable : Readable (sendFd file) := ⟨by simp [sendFd, NulFree], by simp [sendFd]⟩
    have settled : settle (takeDescriptor install) {} (sendFd file).trailer =
      some { newfd := install file } := rfl
    obtain ⟨world', passed, ends, all, nonempty⟩ :=
      receive_answer takes readable (by simp [sendFd]) segmented settled world []
    simp only [recvFd, ends]
    have silent : passed = [] := by
      have empty : passed.flatten = [] := by simpa [sendFd] using all
      rw [List.flatten_eq_nil_iff] at empty
      exact List.eq_nil_iff_forall_not_mem.mpr fun buf member => nonempty (by simp) buf member
        (empty buf member)
    exact ⟨silent, trivial⟩

/-- The message arrives in two pieces, the trailer with the second; the status of -300 is 44. -/
theorem error_passing_round_trip_cut :
    let receipt := recvFd (id : Nat → Nat) (fun written text => (text.length, written ++ text))
      [[(110, none)], [(111, none), (0, none), (44, none)]] []
    receipt.passed.flatten = ascii "no" ∧ receipt.ended = .returned (-44) := by
  have segmented : Segmented (OpenServer.Answer.wire (sendErr (-300) (ascii "no") : Answer Nat))
      [[(110, none)], [(111, none), (0, none), (44, none)]] := by
    refine ⟨by decide, by simp, by simp [maxline], ?_⟩
    intro before chunk after split last
    match before, split with
    | [], split =>
      obtain ⟨_, rfl⟩ : _ ∧ _ = after := by simpa using split
      simp at last
    | [_], split =>
      obtain ⟨_, _, rfl⟩ : _ ∧ _ ∧ after = [] := by simpa using split
      simp at last
    | _ :: _ :: _, split => simp at split
  exact (error_passing_round_trip id (fun written text => (text.length, written ++ text))
    (fun _ _ => rfl) []).1 (-300)
    (ascii "no") _ (by decide) (by decide) segmented

end Apue.Lib
