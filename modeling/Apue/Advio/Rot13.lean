import Apue.Base.Files
import Apue.Base.Machine
import Mathlib.Data.Fintype.Card

/-! # The asynchronous translation

`rot13c2` keeps up to `NBUF` blocks of the input under way.  Every buffer is read, translated and
written with the same control block and then used again; `off` is how far reads have been started
and `numop` how many buffers are in use.  The requests complete in any order, in full but for the
end of the file.  `rot13a` does the same with one `read` and one `write` after another.

The invariant says which part of the output is there: every byte before `off` has been written or
belongs to a buffer in use.  Two writes never disagree, because each writes the translation of the
input at its place, so nothing needs to be said about which buffers overlap.
-/

namespace Apue.Advio

open Apue.Base

def bsz : Nat := 4096

def nbuf : Nat := 8

/-- `isalpha` in the C locale. -/
def isalpha (c : UInt8) : Bool := (65 ≤ c && c ≤ 90) || (97 ≤ c && c ≤ 122)

def translate (c : UInt8) : UInt8 :=
  if isalpha c then
    if c ≥ 110 then c - 13
    else if c ≥ 97 then c + 13
    else if c ≥ 78 then c - 13
    else c + 13
  else c

/-! ## The synchronous program -/

/-- The loop of `rot13a`, with the offsets of its two descriptors. -/
def rot13aLoop (input : Bytes) : Nat → Nat → Nat → Bytes → Option Bytes
  | 0, _, _, _ => none
  | turns + 1, ipos, opos, output =>
    let buf := readAt input ipos bsz
    if buf.length > 0 then
      rot13aLoop input turns (ipos + buf.length) (opos + buf.length) (writeAt output opos
        (buf.map translate))
    else some output

/-- The output file that `rot13a` leaves. -/
def rot13a (input : Bytes) : Option Bytes := rot13aLoop input (input.length + 1) 0 0 []

theorem rot13aLoop_eq (input : Bytes) {turns pos : Nat} (enough : input.length < pos + turns)
    (inside : pos ≤ input.length) :
    rot13aLoop input turns pos pos ((input.take pos).map translate) =
      some (input.map translate) := by
  induction turns generalizing pos with
  | zero => omega
  | succ turns inductionHypothesis =>
    have width : (readAt input pos bsz).length = min bsz (input.length - pos) := by simp [readAt]
    have positive : 0 < bsz := by decide
    simp only [rot13aLoop]
    split
    · rename_i more
      have length : ((input.take pos).map translate).length = pos := by simp [inside]
      have block : readAt input pos bsz = (input.drop pos).take (readAt input pos bsz).length :=
        List.prefix_iff_eq_take.mp (List.take_prefix bsz (input.drop pos))
      have written := writeAt_end ((input.take pos).map translate)
        ((readAt input pos bsz).map translate)
      rw [length, ← List.map_append, block, ← List.take_add, ← block] at written
      rw [written]
      exact inductionHypothesis (by omega) (by omega)
    · rw [List.take_of_length_le (by omega)]

theorem rot13a_eq (input : Bytes) : rot13a input = some (input.map translate) := by
  have loop := @rot13aLoop_eq input (input.length + 1) 0 (by omega) (Nat.zero_le _)
  simpa [rot13a] using loop

/-! ## The asynchronous program -/

inductive Rwop where
  | unused
  | readPending
  | writePending
  deriving DecidableEq, Repr

/-- What the kernel knows of a control block. -/
inductive Request where
  | none
  /-- `aio_read` of the input is in progress. -/
  | reading
  /-- `aio_write` to the output is in progress. -/
  | writing
  /-- What `aio_return` gives. -/
  | done (n : Nat)
  deriving DecidableEq, Repr

def Request.isDone : Request → Bool
  | .done _ => true
  | _ => false

/-- `struct buf`, with its control block. -/
structure Buf where
  op : Rwop := .unused
  last : Bool := false
  offset : Nat := 0
  nbytes : Nat := 0
  data : Bytes := []
  request : Request := .none
  deriving DecidableEq, Repr

inductive Pc where
  /-- Before the look at `bufs[i]`, or behind the last. -/
  | scanning (i : Nat)
  /-- Behind the main loop. -/
  | left
  /-- After an error message. -/
  | failed
  deriving DecidableEq, Repr

structure State where
  bufs : Fin nbuf → Buf
  /-- Which entries of `aiolist[]` are set. -/
  aiolist : Fin nbuf → Bool
  off : Nat
  numop : Nat
  output : Bytes
  pc : Pc

def State.start : State where
  bufs := fun _ => {}
  aiolist := fun _ => false
  off := 0
  numop := 0
  output := []
  pc := .scanning 0

/-- The body of the inner loop; `size` is `sbuf.st_size`. -/
def State.visit (size : Nat) (s : State) (i : Fin nbuf) : State :=
  let b := s.bufs i
  match b.op with
  | .unused =>
    if s.off < size then
      let off := s.off + bsz
      let last := if off ≥ size then true else b.last
      { s with
        bufs := Function.update s.bufs i
          { b with op := .readPending, offset := s.off, last := last, nbytes := bsz, request := .reading }
        aiolist := Function.update s.aiolist i true
        off := off
        numop := s.numop + 1 }
    else s
  | .readPending =>
    match b.request with
    | .done n =>
      if n ≠ bsz ∧ ¬b.last then { s with pc := .failed }
      else
        let data := (b.data.take n).map translate ++ b.data.drop n
        let b := { b with op := .writePending, nbytes := n, data := data, request := .writing }
        { s with bufs := Function.update s.bufs i b }
    | _ => s
  | .writePending =>
    match b.request with
    | .done n =>
      if n ≠ b.nbytes then { s with pc := .failed }
      else
        { s with
          bufs := Function.update s.bufs i { b with op := .unused, request := .none }
          aiolist := Function.update s.aiolist i false
          numop := s.numop - 1 }
    | _ => s

inductive Action where
  | run
  /-- The kernel completes the request of `bufs[i]`. -/
  | complete (i : Fin nbuf)
  deriving DecidableEq, Repr

/-- The kernel's part of a request: the transfer, in full up to the end of the input. -/
def State.complete (input : Bytes) (s : State) (i : Fin nbuf) : Option State :=
  let b := s.bufs i
  match b.request with
  | .reading =>
    let bytes := readAt input b.offset b.nbytes
    let b := { b with data := bytes ++ b.data.drop bytes.length, request := .done bytes.length }
    some { s with bufs := Function.update s.bufs i b }
  | .writing =>
    some { s with
      bufs := Function.update s.bufs i { b with request := .done b.nbytes }
      output := writeAt s.output b.offset (b.data.take b.nbytes) }
  | _ => none

def State.step (input : Bytes) (s : State) : Action → Option State
  | .run =>
    match s.pc with
    | .scanning i =>
      if inside : i < nbuf then some (State.visit input.length { s with pc := .scanning (i + 1) }
        ⟨i, inside⟩)
      else if s.numop = 0 then
        if s.off ≥ input.length then some { s with pc := .left } else some {
          s with pc := .scanning 0 }
      -- `aio_suspend` returns when one of the requests in the list is complete
      else if ∃ j, s.aiolist j = true ∧
        (s.bufs j).request.isDone = true then some { s with pc := .scanning 0 }
      else none
    | .left | .failed => none
  | .complete i => s.complete input i

/-! ## What has been written -/

variable {input output : Bytes}

/-- The translation of a byte of the input stands in its place. -/
def Written (input output : Bytes) (p : Nat) : Prop :=
  ∃ c, input[p]? = some c ∧ output[p]? = some (translate c)

/-- The part of the input that belongs to a buffer in use. -/
def Buf.text (input : Bytes) (b : Buf) : Bytes := readAt input b.offset bsz

def Buf.Covers (b : Buf) (p : Nat) : Prop := b.op ≠ .unused ∧ b.offset ≤ p ∧ p < b.offset + bsz

/-- What is in a buffer, and what its request has done so far. -/
def Buf.Sound (input output : Bytes) (b : Buf) : Prop :=
  match b.op with
  | .unused => b.request ≠ .reading ∧ b.request ≠ .writing
  | .readPending =>
    b.offset < input.length ∧ b.nbytes = bsz ∧ (input.length ≤ b.offset + bsz → b.last = true) ∧
      (b.request = .reading ∨
        b.request = .done (b.text input).length ∧ b.data.take (b.text input).length = b.text input)
  | .writePending => b.offset < input.length ∧ b.nbytes = (b.text input).length ∧
      b.data.take b.nbytes = (b.text input).map translate ∧
      (b.request = .writing ∨ b.request = .done b.nbytes ∧ ∀ p, b.Covers p → p < input.length →
        Written input output p)

/-- The buffers in use. -/
def used (bufs : Fin nbuf → Buf) : Finset (Fin nbuf) :=
  Finset.univ.filter fun i => (bufs i).op ≠ .unused

structure State.Inv (input : Bytes) (s : State) : Prop where
  bufs : ∀ i, (s.bufs i).Sound input s.output
  numop : s.numop = (used s.bufs).card
  covered : ∀ p, p < s.off → p < input.length → Written input s.output p ∨ ∃ i, (s.bufs i).Covers p
  length : s.output.length ≤ input.length
  failed : s.pc ≠ .failed
  left : s.pc = .left → s.numop = 0 ∧ s.off ≥ input.length

theorem Buf.text_length (b : Buf) : (b.text input).length = min bsz (input.length - b.offset) := by
  simp [Buf.text, readAt]

/-- The byte at a place of a file that has been written to. -/
theorem getElem?_writeAt (file : Bytes) (offset : Nat) (buffer : Bytes) (p : Nat) :
    (writeAt file offset buffer)[p]? =
      if p < offset then if p < file.length then file[p]? else some 0
      else if p < offset + buffer.length then buffer[p - offset]? else file[p]? := by
  have front : (file.take offset ++ List.replicate (offset - file.length) 0).length = offset := by
    simp only [List.length_append, List.length_take, List.length_replicate]
    omega
  unfold writeAt
  rw [List.append_assoc]
  split
  · rename_i before
    rw [List.getElem?_append_left (by omega)]
    split
    · rw [List.getElem?_append_left (by simp only [List.length_take]; omega), List.getElem?_take,
        if_pos before]
    · rw [List.getElem?_append_right (by simp only [List.length_take]; omega),
        List.getElem?_replicate, if_pos]
      simp only [List.length_take]
      omega
  · rw [List.getElem?_append_right (by omega), front]
    split
    · rw [List.getElem?_append_left (by omega)]
    · rw [List.getElem?_append_right (by omega), List.getElem?_drop]
      congr 1
      omega

theorem length_writeAt_le {file buffer : Bytes} {offset limit : Nat} (old : file.length ≤ limit)
    (new : offset + buffer.length ≤ limit) : (writeAt file offset buffer).length ≤ limit := by
  simp only [writeAt, List.length_append, List.length_take, List.length_replicate, List.length_drop]
  omega

/-- A block that is written has the right bytes, so no byte that was right before is lost. -/
theorem written_writeAt {b : Buf} {p : Nat}
    (written : Written input output p ∨ b.offset ≤ p ∧ p < b.offset + bsz ∧ p < input.length) :
    Written input (writeAt output b.offset ((b.text input).map translate)) p := by
  have inside : p < input.length := by
    obtain ⟨c, here, _⟩ | ⟨_, _, inside⟩ := written
    · exact (List.getElem?_eq_some_iff.mp here).1
    · exact inside
  have byte : input[p]? = some input[p] := List.getElem?_eq_getElem inside
  refine ⟨input[p], byte, ?_⟩
  rw [getElem?_writeAt, List.length_map, Buf.text_length]
  have old (there : Written input output p) : output[p]? = some (translate input[p]) := by
    obtain ⟨c, here, value⟩ := there
    rw [byte, Option.some.injEq] at here
    rw [here, value]
  split
  · obtain there | ⟨_, _, _⟩ := written
    · have present := (List.getElem?_eq_some_iff.mp (old there)).1
      rw [if_pos present, old there]
    · omega
  · split
    · -- in the block
      have place : b.offset + (p - b.offset) = p := by omega
      rw [List.getElem?_map, Buf.text, readAt, List.getElem?_take, if_pos (by omega),
        List.getElem?_drop, place, byte]
      rfl
    · obtain there | ⟨_, _, _⟩ := written
      · exact old there
      · omega

/-- A completed write can only help the other buffers. -/
theorem Buf.Sound.mono {output' : Bytes} {b : Buf} (sound : b.Sound input output)
    (more : ∀ p, Written input output p → Written input output' p) : b.Sound input output' := by
  unfold Buf.Sound at sound ⊢
  split
  · rename_i unused
    simpa [unused] using sound
  · rename_i reads
    simpa [reads] using sound
  · rename_i writes
    simp only [writes] at sound
    obtain ⟨inside, nbytes, data, request⟩ := sound
    refine ⟨inside, nbytes, data, request.imp_right fun ⟨done, all⟩ =>
      ⟨done, fun p covers here => more p (all p covers here)⟩⟩

/-! ## The steps -/

variable {bufs : Fin nbuf → Buf} {i : Fin nbuf} {b : Buf} {s s' : State}

theorem mem_used : i ∈ used bufs ↔ (bufs i).op ≠ .unused := by
  simp [used]

theorem used_update_same (same : b.op ≠ .unused ↔ (bufs i).op ≠ .unused) :
    used (Function.update bufs i b) = used bufs := by
  ext j
  by_cases here : j = i
  · obtain rfl := here
    simpa [mem_used] using same
  · simp [mem_used, here]

theorem used_update_insert (now : b.op ≠ .unused) :
    used (Function.update bufs i b) = insert i (used bufs) := by
  ext j
  by_cases here : j = i
  · obtain rfl := here
    simpa [mem_used] using now
  · simp [mem_used, here]

theorem used_update_erase (now : b.op = .unused) :
    used (Function.update bufs i b) = (used bufs).erase i := by
  ext j
  by_cases here : j = i
  · obtain rfl := here
    simpa [mem_used] using now
  · simp [mem_used, here]

/-- One buffer changes, and perhaps the output: what is left to show is about that buffer. -/
theorem State.Inv.replace (inv : s.Inv input) (replaced : s'.bufs = Function.update s.bufs i b)
    (sound : b.Sound input s'.output)
    (more : ∀ p, Written input s.output p → Written input s'.output p)
    (numop : s'.numop = (used s'.bufs).card)
    (covered : ∀ p, p < s'.off → p < input.length → (s.bufs i).Covers p ∨ s.off ≤ p →
    Written input s'.output p ∨ b.Covers p)
    (length : s'.output.length ≤ input.length) (failed : s'.pc ≠ .failed)
    (left : s'.pc = .left → s'.numop = 0 ∧ s'.off ≥ input.length) : s'.Inv input := by
  have here : s'.bufs i = b := by simp [replaced]
  have others {j : Fin nbuf} (other : j ≠ i) : s'.bufs j = s.bufs j := by simp [replaced, other]
  refine ⟨fun j => ?_, numop, fun p started inside => ?_, length, failed, left⟩
  · by_cases same : j = i
    · rwa [same, here]
    · rw [others same]
      exact (inv.bufs j).mono more
  · have through (cases : (s.bufs i).Covers p ∨ s.off ≤ p) : Written input s'.output p ∨
        ∃ j, (s'.bufs j).Covers p := by
      obtain written | covers := covered p started inside cases
      · exact .inl written
      · exact .inr ⟨i, by rwa [here]⟩
    by_cases old : p < s.off
    · obtain written | ⟨j, covers⟩ := inv.covered p old inside
      · exact .inl (more p written)
      · by_cases same : j = i
        · exact through (.inl (same ▸ covers))
        · exact .inr ⟨j, by rwa [others same]⟩
    · exact through (.inr (by omega))

/-- The scan goes on to the next buffer, or starts again. -/
theorem State.Inv.scan (inv : s.Inv input) (k : Nat) :
    State.Inv input { s with pc := .scanning k } :=
  ⟨inv.bufs, inv.numop, inv.covered, inv.length, by simp, by simp⟩

theorem State.Inv.visit (inv : s.Inv input) (scanning : ∃ k, s.pc = .scanning k) (i : Fin nbuf) :
    (s.visit input.length i).Inv input := by
  have sound := inv.bufs i
  obtain ⟨k, pc⟩ := scanning
  have running : s.pc ≠ .failed := by simp [pc]
  have within : s.pc ≠ .left := by simp [pc]
  unfold State.visit
  simp only
  split
  · rename_i unused
    split
    · rename_i more
      apply inv.replace rfl
      · refine ⟨more, rfl, fun last => ?_, .inl rfl⟩
        rw [if_pos last]
      · exact fun p written => written
      · have free : i ∉ used s.bufs := by simp [mem_used, unused]
        rw [used_update_insert (by simp), Finset.card_insert_of_notMem free, inv.numop]
      · intro p started inside place
        obtain covers | new := place
        · exact absurd unused covers.1
        · exact .inr ⟨by simp, new, started⟩
      · exact inv.length
      · exact running
      · exact fun left => absurd left within
    · exact inv
  · rename_i reads
    have taken : i ∈ used s.bufs := by simp [mem_used, reads]
    simp only [Buf.Sound, reads] at sound
    obtain ⟨inside, nbytes, last, request⟩ := sound
    split
    · rename_i n done
      obtain reading | ⟨whole, data⟩ := request
      · simp [reading] at done
      · have count : n = ((s.bufs i).text input).length := by simpa [done] using whole
        have width : ((s.bufs i).text input).length = _ := (s.bufs i).text_length
        split
        · -- only the last block is short
          rename_i short
          exact absurd (last (by omega)) short.2
        · apply inv.replace rfl
          · refine ⟨inside, count, ?_, .inl rfl⟩
            have long : ((s.bufs i).data.take n).length = n := by rw [count, data]
            rw [List.take_left' (by rw [List.length_map, long]), count, data]
            rfl
          · exact fun p written => written
          · rw [used_update_same (by simp [reads])]
            exact inv.numop
          · intro p started _ place
            obtain covers | new := place
            · exact .inr ⟨by simp, covers.2⟩
            · exact absurd started (Nat.not_lt.mpr new)
          · exact inv.length
          · exact running
          · exact fun left => absurd left within
    · exact inv
  · rename_i writes
    have taken : i ∈ used s.bufs := by simp [mem_used, writes]
    simp only [Buf.Sound, writes] at sound
    obtain ⟨inside, nbytes, data, request⟩ := sound
    split
    · rename_i n done
      obtain writing | ⟨whole, all⟩ := request
      · simp [writing] at done
      · have count : n = (s.bufs i).nbytes := by simpa [done] using whole
        split
        · rename_i short
          exact absurd count short
        · apply inv.replace rfl
          · simp [Buf.Sound]
          · exact fun p written => written
          · rw [used_update_erase rfl, Finset.card_erase_of_mem taken, inv.numop]
          · intro p started inside place
            obtain covers | new := place
            · exact .inl (all p covers inside)
            · exact absurd started (Nat.not_lt.mpr new)
          · exact inv.length
          · exact running
          · exact fun left => absurd left within
    · exact inv

theorem State.Inv.complete (inv : s.Inv input) (completes : s.complete input i = some s') :
    s'.Inv input := by
  have sound := inv.bufs i
  unfold State.complete at completes
  simp only at completes
  split at completes
  · rename_i reading
    obtain rfl := Option.some.inj completes
    unfold Buf.Sound at sound
    split at sound
    · exact absurd reading sound.1
    · rename_i reads
      obtain ⟨inside, nbytes, last, _⟩ := sound
      apply inv.replace rfl
      · simp only [Buf.Sound, reads, nbytes]
        exact ⟨inside, trivial, last, .inr ⟨rfl, List.take_left' rfl⟩⟩
      · exact fun p written => written
      · rw [used_update_same (by simp)]
        exact inv.numop
      · intro p started _ place
        obtain covers | new := place
        · exact .inr covers
        · exact absurd started (Nat.not_lt.mpr new)
      · exact inv.length
      · exact inv.failed
      · exact inv.left
    · obtain ⟨_, _, _, writing | ⟨done, _⟩⟩ := sound
      · simp [writing] at reading
      · simp [done] at reading
  · rename_i writing
    obtain rfl := Option.some.inj completes
    unfold Buf.Sound at sound
    split at sound
    · exact absurd writing sound.2
    · obtain ⟨_, _, _, reading | ⟨done, _⟩⟩ := sound
      · simp [reading] at writing
      · simp [done] at writing
    · rename_i writes
      obtain ⟨inside, nbytes, data, _⟩ := sound
      have width : ((s.bufs i).text input).length = _ := (s.bufs i).text_length
      apply inv.replace rfl
      · simp only [Buf.Sound, writes]
        refine ⟨inside, nbytes, data, .inr ⟨trivial, fun p covers inside => ?_⟩⟩
        rw [data]
        exact written_writeAt (.inr ⟨covers.2.1, covers.2.2, inside⟩)
      · intro p written
        simp only [data]
        exact written_writeAt (.inl written)
      · rw [used_update_same (by simp)]
        exact inv.numop
      · intro p started _ place
        obtain covers | new := place
        · exact .inr covers
        · exact absurd started (Nat.not_lt.mpr new)
      · simp only [data]
        refine length_writeAt_le inv.length ?_
        rw [List.length_map]
        omega
      · exact inv.failed
      · exact inv.left
  · simp at completes

theorem State.Inv.step {action : Action} (inv : s.Inv input)
    (steps : s.step input action = some s') : s'.Inv input := by
  cases action with
  | run =>
    simp only [State.step] at steps
    split at steps
    · rename_i k _
      split at steps
      · obtain rfl := Option.some.inj steps
        exact (inv.scan (k + 1)).visit ⟨k + 1, rfl⟩ _
      · split at steps
        · rename_i idle
          split at steps
          · rename_i all
            obtain rfl := Option.some.inj steps
            exact ⟨inv.bufs, inv.numop, inv.covered, inv.length, by simp, fun _ => ⟨idle, all⟩⟩
          · obtain rfl := Option.some.inj steps
            exact inv.scan 0
        · split at steps
          · obtain rfl := Option.some.inj steps
            exact inv.scan 0
          · simp at steps
    · simp at steps
    · simp at steps
  | complete i => exact inv.complete steps

theorem State.start_inv : State.Inv input .start := by
  refine ⟨fun _ => ?_, ?_, fun p started => absurd started (Nat.not_lt_zero p),
    Nat.zero_le _, by simp [start], by simp [start]⟩
  · exact ⟨by simp [start], by simp [start]⟩
  · simp [start, used]

/-! ## Behind the loop -/

/-- An output of the input's length in which every byte is written is the translation. -/
theorem eq_map_translate (all : ∀ p, p < input.length → Written input output p)
    (length : output.length ≤ input.length) :
    output = input.map translate := by
  apply List.ext_getElem?
  intro p
  by_cases inside : p < input.length
  · obtain ⟨c, byte, value⟩ := all p inside
    rw [value, List.getElem?_map, byte]
    rfl
  · rw [List.getElem?_eq_none (by omega), List.getElem?_eq_none (by simpa using inside)]

/-- The asynchronous program leaves what the synchronous one does. -/
theorem asynchronous_eq_synchronous (input : Bytes) (actions : List Action) (s : State)
    (runs : execute (State.step input) .start actions = some s) :
    s.pc ≠ .failed ∧ (s.pc = .left →
      rot13a input = some s.output ∧ ∀ i, (s.bufs i).request ≠ .reading ∧
        (s.bufs i).request ≠ .writing) := by
  have inv : s.Inv input :=
    (Visits.finish runs).invariant (State.Inv input) (fun _ _ => True) State.start_inv
    (fun _ _ _ inv _ steps => inv.step steps) (fun _ _ _ => trivial)
  refine ⟨inv.failed, fun left => ?_⟩
  obtain ⟨idle, whole⟩ := inv.left left
  have none : used s.bufs = ∅ := Finset.card_eq_zero.mp (inv.numop ▸ idle)
  have unused (i : Fin nbuf) : (s.bufs i).op = .unused := by
    by_contra busy
    have there : i ∈ used s.bufs := mem_used.mpr busy
    simp [none] at there
  constructor
  · rw [rot13a_eq, Option.some.injEq]
    refine (eq_map_translate (fun p inside => ?_) inv.length).symm
    obtain written | ⟨i, covers⟩ := inv.covered p (by omega) inside
    · exact written
    · exact absurd (unused i) covers.1
  · intro i
    have sound := inv.bufs i
    simp only [Buf.Sound, unused i] at sound
    exact sound

/-- An input of a block and a byte. -/
def twoBlocks : Bytes := List.replicate bsz 97 ++ [98]

def first : Fin nbuf := ⟨0, by decide⟩

def second : Fin nbuf := ⟨1, by decide⟩

/-- The byte is read and written while the read of the block is in progress. -/
def secondFirst : List Action :=
  List.replicate nbuf .run ++ .complete second :: List.replicate (nbuf + 1) .run ++
    [.complete second]

def firstLast : List Action :=
  .complete first :: List.replicate (nbuf + 1) .run ++
    .complete first :: List.replicate (nbuf + 2) .run

theorem asynchronous_eq_synchronous_reversed : ∃ gap s,
    execute (State.step twoBlocks) .start secondFirst = some gap ∧
      (gap.bufs first).request = .reading ∧ (gap.bufs second).op = .writePending ∧
        (gap.bufs second).request = .done 1 ∧
      execute (State.step twoBlocks) gap firstLast = some s ∧ s.pc = .left ∧
        rot13a twoBlocks = some s.output := by
  have ran : ((execute (State.step twoBlocks) .start secondFirst).bind fun gap =>
      (execute (State.step twoBlocks) gap firstLast).map fun s =>
        decide ((gap.bufs first).request = .reading ∧ (gap.bufs second).op = .writePending ∧
          (gap.bufs second).request = .done 1 ∧
          s.pc = .left)) = some true := by
    decide +kernel
  simp only [Option.bind_eq_some_iff, Option.map_eq_some_iff] at ran
  obtain ⟨gap, reversed, s, finishes, checks⟩ := ran
  obtain ⟨reading, op, written, left⟩ := of_decide_eq_true checks
  have runs : execute (State.step twoBlocks) .start (secondFirst ++ firstLast) = some s := by
    rw [execute_append, reversed]
    exact finishes
  exact ⟨gap, s, reversed, reading, op, written, finishes, left,
    ((asynchronous_eq_synchronous twoBlocks _ s runs).2 left).1⟩

end Apue.Advio
