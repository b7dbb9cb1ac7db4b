import Apue.Base.Program
import Apue.Base.RecordLock
import Mathlib.Logic.Function.Basic

/-! # Files, descriptors and record locks

The part of POSIX the programs here run on.  Files `φ` are named, every process `ι` has at most one
descriptor for each of them, with a file offset of its own.  Reads return what is there, writes are
complete up to the limit Linux puts on one transfer, and every call is one atomic step; only
`F_SETLKW` blocks.
-/

namespace Apue.Base

inductive Whence where
  | set
  | cur
  | fromEnd
  deriving DecidableEq, Repr

/-- The system calls: `readv` and `writev` are `read` and `write` of the concatenated buffers. -/
inductive FileCall (φ : Type) where
  | openFile (file : φ) (creat trunc : Bool)
  | close (file : φ)
  | lseek (file : φ) (offset : Int) (whence : Whence)
  | read (file : φ) (count : Nat)
  | write (file : φ) (buffer : Bytes)
  | fstat (file : φ)
  | setlkw (file : φ) (type : LockType) (range : Range)
  | unlock (file : φ) (range : Range)

/-- `open`, `F_SETLKW` and `F_UNLCK` say whether they succeeded, `lseek` gives the new offset,
`read` the bytes, `write` their number and `fstat` the size of the file. -/
def FileCall.Answer {φ : Type} : FileCall φ → Type
  | .openFile .. => Bool
  | .close _ => Unit
  | .lseek .. => Option Nat
  | .read .. => Bytes
  | .write .. => Nat
  | .fstat _ => Nat
  | .setlkw .. => Bool
  | .unlock .. => Bool

abbrev FileSig (φ : Type) : Signature := ⟨FileCall φ, FileCall.Answer⟩

structure World (ι φ : Type) where
  bytes : φ → Bytes
  /-- The file exists; a file that does not has no bytes. -/
  present : φ → Bool
  /-- `open` of the file fails for the process. -/
  denied : ι → φ → Bool
  pos : ι → φ → Nat
  locks : Locks ι φ

/-- The most bytes Linux transfers in one `write`. -/
def writeMax : Nat := 0x7ffff000

/-- The file with the buffer written at the offset; a gap past the end reads as zeros. -/
def writeAt (file : Bytes) (offset : Nat) (buffer : Bytes) : Bytes :=
  file.take offset ++ List.replicate (offset - file.length) 0 ++ buffer ++
    file.drop (offset + buffer.length)

def readAt (file : Bytes) (offset count : Nat) : Bytes := (file.drop offset).take count

variable {ι φ : Type}

namespace World

/-- No file exists yet. -/
def absent : World ι φ := ⟨fun _ => [], fun _ => false, fun _ _ => false, fun _ _ => 0, []⟩

end World

variable [DecidableEq ι] [DecidableEq φ]

namespace World

def setBytes (w : World ι φ) (file : φ) (bytes : Bytes) : World ι φ :=
  { w with bytes := Function.update w.bytes file bytes }

def setPos (w : World ι φ) (p : ι) (file : φ) (offset : Nat) : World ι φ :=
  { w with pos := Function.update w.pos p (Function.update (w.pos p) file offset) }

/-- Where `lseek` would put the offset. -/
def target (w : World ι φ) (p : ι) (file : φ) (offset : Int) : Whence → Int
  | .set => offset
  | .cur => w.pos p file + offset
  | .fromEnd => (w.bytes file).length + offset

/-- The end of a process. -/
def exit (w : World ι φ) (p : ι) : World ι φ := { w with locks := w.locks.releaseAll p }

end World

open World in
/-- One system call of process `p`. -/
def fileKernel (p : ι) : Kernel (FileSig φ) (World ι φ)
  | .openFile file creat trunc, w =>
    if w.denied p file || (!w.present file && !creat) then some (false, w)
    else
      let bytes := if trunc then [] else w.bytes file
      some (true, { (w.setBytes file bytes).setPos p file
        0 with present := Function.update w.present file true })
  | .close file, w => some ((), { w with locks := w.locks.releaseFile p file })
  | .lseek file offset whence, w =>
    if w.target p file offset whence < 0 then some (none, w)
    else
      let offset := (w.target p file offset whence).toNat
      some (some offset, w.setPos p file offset)
  | .read file count, w =>
    let buffer := readAt (w.bytes file) (w.pos p file) count
    some (buffer, w.setPos p file (w.pos p file + buffer.length))
  | .write file buffer, w =>
    let buffer := buffer.take writeMax
    some (buffer.length,
      (w.setBytes file (writeAt (w.bytes file) (w.pos p file) buffer)).setPos p file
      (w.pos p file + buffer.length))
  | .fstat file, w => some ((w.bytes file).length, w)
  | .setlkw file type range, w =>
    if w.locks.blocked p ⟨file, type, range⟩ then none
    else some (true, { w with locks := w.locks.acquire p ⟨file, type, range⟩ })
  | .unlock file range, w => some (true, { w with locks := w.locks.release p file range })

/-- Only waiting for a lock blocks. -/
theorem fileKernel_isSome {p : ι} {c : FileCall φ} {w : World ι φ}
    (free : ∀ file type range, c = .setlkw file type range →
    w.locks.blocked p ⟨file, type, range⟩ = false) :
    (fileKernel p c w).isSome := by
  cases c with
  | setlkw file type range => simp [fileKernel, free file type range rfl]
  | openFile file creat trunc =>
    simp only [fileKernel]
    split <;> rfl
  | lseek file offset whence =>
    simp only [fileKernel]
    split <;> rfl
  | _ => rfl

/-- A call changes only the locks of the process that makes it. -/
theorem fileKernel_locks_other {p q : ι} {c : FileCall φ} {w w' : World ι φ}
    {answer : FileCall.Answer c} {l : Lock φ}
    (answers : fileKernel p c w = some (answer, w')) (other : q ≠ p) :
    (q, l) ∈ w'.locks ↔ (q, l) ∈ w.locks := by
  cases c with
  | setlkw file type range =>
    simp only [fileKernel] at answers
    split at answers
    · cases answers
    · cases answers
      simp [Locks.acquire, other, Locks.mem_release_other other]
  | unlock file range =>
    cases answers
    exact Locks.mem_release_other other
  | close file =>
    cases answers
    simp [Locks.releaseFile, other]
  | openFile file creat trunc =>
    simp only [fileKernel] at answers
    split at answers <;> cases answers <;> rfl
  | lseek file offset whence =>
    simp only [fileKernel] at answers
    split at answers <;> cases answers <;> rfl
  | _ => cases answers; rfl

/-- What a process may open does not change. -/
theorem fileKernel_denied {p : ι} {c : FileCall φ} {w w' : World ι φ} {answer : FileCall.Answer c}
    (answers : fileKernel p c w = some (answer, w')) : w'.denied = w.denied := by
  cases c with
  | openFile file creat trunc =>
    simp only [fileKernel] at answers
    split at answers <;> cases answers <;> rfl
  | lseek file offset whence =>
    simp only [fileKernel] at answers
    split at answers <;> cases answers <;> rfl
  | setlkw file type range =>
    simp only [fileKernel] at answers
    split at answers <;> cases answers
    rfl
  | _ =>
    cases answers
    rfl

/-- A call moves only the file offsets of the process that makes it. -/
theorem fileKernel_pos_other {p q : ι} {c : FileCall φ} {w w' : World ι φ}
    {answer : FileCall.Answer c}
    (answers : fileKernel p c w = some (answer, w')) (other : q ≠ p) : w'.pos q = w.pos q := by
  cases c with
  | openFile file creat trunc =>
    simp only [fileKernel] at answers
    split at answers <;> cases answers <;> simp [World.setPos, World.setBytes, other]
  | lseek file offset whence =>
    simp only [fileKernel] at answers
    split at answers <;> cases answers <;> simp [World.setPos, other]
  | setlkw file type range =>
    simp only [fileKernel] at answers
    split at answers <;> cases answers
    rfl
  | read file count =>
    cases answers
    simp [World.setPos, other]
  | write file buffer =>
    cases answers
    simp [World.setPos, World.setBytes, other]
  | _ =>
    cases answers
    rfl

omit [DecidableEq ι] in
theorem World.setBytes_bytes (w : World ι φ) (file other : φ) (bytes : Bytes) :
    (w.setBytes file bytes).bytes other = if other = file then bytes else w.bytes other := by
  simp [World.setBytes, Function.update_apply]

theorem World.setPos_pos (w : World ι φ) (p q : ι) (file : φ) (offset : Nat) :
    (w.setPos p file offset).pos q = if q = p then Function.update (w.pos p) file
    offset else w.pos q := by
  simp [World.setPos, Function.update_apply]

/-! ## Reading and writing in place -/

theorem readAt_append (before middle after : Bytes) :
    readAt (before ++ middle ++ after) before.length middle.length = middle := by
  simp [readAt, List.append_assoc]

theorem readAt_end (file : Bytes) (count : Nat) : readAt file file.length count = [] := by
  simp [readAt]

theorem readAt_length {file : Bytes} {offset count : Nat} (inside : offset + count ≤ file.length) :
    (readAt file offset count).length = count := by
  simp [readAt]
  omega

theorem writeAt_append {before middle after buffer : Bytes} (same : buffer.length = middle.length) :
    writeAt (before ++ middle ++ after) before.length buffer = before ++ buffer ++ after := by
  have noGap : before.length - (before ++ middle ++ after).length = 0 := by simp
  rw [writeAt, noGap, same, List.append_assoc before middle after]
  simp [List.drop_append, List.drop_eq_nil_of_le]

theorem writeAt_end (file buffer : Bytes) : writeAt file file.length buffer = file ++ buffer := by
  simp [writeAt]

theorem length_le_writeAt (file : Bytes) (offset : Nat) (buffer : Bytes) :
    file.length ≤ (writeAt file offset buffer).length := by
  simp [writeAt]
  omega

/-- As long as no file is truncated, files only grow. -/
theorem fileKernel_grows {p : ι} {c : FileCall φ} {w w' : World ι φ} {answer : FileCall.Answer c}
    (answers : fileKernel p c w = some (answer, w'))
    (untruncated : ∀ file creat trunc, c = .openFile file creat trunc → trunc = false)
    (file : φ) : (w.bytes file).length ≤ (w'.bytes file).length := by
  cases c with
  | openFile opened creat trunc =>
    obtain rfl := untruncated opened creat trunc rfl
    simp only [fileKernel] at answers
    split at answers <;> cases answers <;> simp [World.setPos, World.setBytes]
  | write written buffer =>
    cases answers
    change _ ≤ ((w.setBytes written
      (writeAt (w.bytes written) (w.pos p written) (buffer.take writeMax))).bytes file).length
    rw [World.setBytes_bytes]
    split
    case isTrue same =>
      rw [same]
      exact length_le_writeAt ..
    case isFalse => exact Nat.le_refl _
  | lseek seeked offset whence =>
    simp only [fileKernel] at answers
    split at answers <;> cases answers <;> exact Nat.le_refl _
  | setlkw locked type range =>
    simp only [fileKernel] at answers
    split at answers <;> cases answers
    exact Nat.le_refl _
  | _ =>
    cases answers
    exact Nat.le_refl _

/-- The buffer stands in the file at the offset. -/
def HasAt (file : Bytes) (offset : Nat) (buffer : Bytes) : Prop :=
  ∃ before after, file = before ++ buffer ++ after ∧ before.length = offset

theorem HasAt.bound {file buffer : Bytes} {offset : Nat} (has : HasAt file offset buffer) :
    offset + buffer.length ≤ file.length := by
  obtain ⟨before, after, rfl, rfl⟩ := has
  simp

theorem HasAt.read {file buffer : Bytes} {offset : Nat} (has : HasAt file offset buffer) :
    readAt file offset buffer.length = buffer := by
  obtain ⟨before, after, rfl, rfl⟩ := has
  exact readAt_append before buffer after

/-- The parts of a buffer stand one after the other. -/
theorem HasAt.split {file front back : Bytes} {offset : Nat}
    (has : HasAt file offset (front ++ back)) :
    HasAt file offset front ∧ HasAt file (offset + front.length) back := by
  obtain ⟨before, after, rfl, rfl⟩ := has
  exact ⟨⟨before, back ++ after, by simp, rfl⟩, ⟨before ++ front, after, by simp, by simp⟩⟩

theorem HasAt.append {file buffer : Bytes} {offset : Nat} (has : HasAt file offset buffer)
    (more : Bytes) :
    HasAt (file ++ more) offset buffer := by
  obtain ⟨before, after, rfl, rfl⟩ := has
  exact ⟨before, after ++ more, by simp, rfl⟩

theorem HasAt.at_end (file buffer : Bytes) : HasAt (file ++ buffer) file.length buffer :=
  ⟨file, [], by simp, rfl⟩

theorem HasAt.write {file buffer buffer' : Bytes} {offset : Nat} (has : HasAt file offset buffer)
    (same : buffer'.length = buffer.length) :
    HasAt (writeAt file offset buffer') offset buffer' := by
  obtain ⟨before, after, rfl, rfl⟩ := has
  exact ⟨before, after, writeAt_append same, rfl⟩

/-- What has been written stands in the file, also past its old end. -/
theorem hasAt_writeAt (file buffer : Bytes) (offset : Nat) :
    HasAt (writeAt file offset buffer) offset buffer := by
  refine ⟨file.take offset ++ List.replicate (offset - file.length) 0,
    file.drop (offset + buffer.length), rfl, ?_⟩
  simp
  omega

/-- A write elsewhere in the file keeps what stands outside it. -/
theorem HasAt.write_elsewhere {file buffer other : Bytes} {offset otherOffset : Nat}
    (has : HasAt file otherOffset other)
    (inside : offset + buffer.length ≤ file.length)
    (apart : otherOffset + other.length ≤ offset ∨ offset + buffer.length ≤ otherOffset) :
    HasAt (writeAt file offset buffer) otherOffset other := by
  have bound := has.bound
  obtain ⟨before, after, split, rfl⟩ := has
  have noGap : offset - file.length = 0 := by omega
  rw [writeAt, noGap, List.replicate_zero, List.append_nil]
  rcases apart with below | above
  · refine ⟨before, (after.take (offset - (before.length + other.length))) ++ buffer ++
      file.drop (offset + buffer.length), ?_, rfl⟩
    have start : file.take offset = before ++ other ++
        after.take (offset - (before.length + other.length)) := by
      rw [split, List.take_append, List.length_append, List.take_of_length_le (by simp; omega)]
    rw [start]
    simp [List.append_assoc]
  · refine ⟨file.take offset ++ buffer ++ before.drop (offset + buffer.length), after, ?_, ?_⟩
    · have rest : file.drop (offset + buffer.length) = before.drop (offset + buffer.length) ++
          (other ++ after) := by
        rw [split, List.append_assoc, List.drop_append_of_le_length above]
      rw [rest]
      simp [List.append_assoc]
    · simp
      omega

theorem writeAt_length {file buffer : Bytes} {offset : Nat}
    (inside : offset + buffer.length ≤ file.length) :
    (writeAt file offset buffer).length = file.length := by
  simp [writeAt]
  omega

/-- A write inside the file changes no other byte of it. -/
theorem getElem?_writeAt {file buffer : Bytes} {offset i : Nat}
    (inside : offset + buffer.length ≤ file.length)
    (outside : i < offset ∨ offset + buffer.length ≤ i) :
    (writeAt file offset buffer)[i]? = file[i]? := by
  have noGap : offset - file.length = 0 := by omega
  have front : (file.take offset).length = offset := by simp; omega
  rw [writeAt, noGap, List.replicate_zero, List.append_nil, List.append_assoc]
  rcases outside with below | behind
  · rw [List.getElem?_append_left (by omega), List.getElem?_take_of_lt below]
  · rw [List.getElem?_append_right (by omega), front, List.getElem?_append_right (by omega),
      List.getElem?_drop]
    congr 1
    omega

/-- Of the bytes inside a write the file has those of the buffer. -/
theorem getElem?_writeAt_inside {file buffer : Bytes} {offset i : Nat}
    (inside : offset + buffer.length ≤ file.length)
    (low : offset ≤ i) (high : i < offset + buffer.length) :
    (writeAt file offset buffer)[i]? = buffer[i - offset]? := by
  have noGap : offset - file.length = 0 := by omega
  have front : (file.take offset).length = offset := by simp; omega
  rw [writeAt, noGap, List.replicate_zero, List.append_nil, List.append_assoc,
    List.getElem?_append_right (by omega), front,
    List.getElem?_append_left (by omega)]

/-- Writes to different parts of a file can change places. -/
theorem writeAt_comm {file buffer other : Bytes} {offset otherOffset : Nat}
    (inside : offset + buffer.length ≤ file.length)
    (otherInside : otherOffset + other.length ≤ file.length)
    (apart : offset + buffer.length ≤ otherOffset ∨ otherOffset + other.length ≤ offset) :
    writeAt (writeAt file offset buffer) otherOffset other =
      writeAt (writeAt file otherOffset other) offset buffer := by
  have length := writeAt_length inside
  have otherLength := writeAt_length otherInside
  refine List.ext_getElem? fun i => ?_
  by_cases first : offset ≤ i ∧ i < offset + buffer.length
  · rw [getElem?_writeAt (by omega) (by omega), getElem?_writeAt_inside inside first.1 first.2,
      getElem?_writeAt_inside (by omega) first.1 first.2]
  have outside : (writeAt (writeAt file otherOffset other) offset buffer)[i]? =
      (writeAt file otherOffset other)[i]? :=
    getElem?_writeAt (by omega) (by omega)
  rw [outside]
  by_cases second : otherOffset ≤ i ∧ i < otherOffset + other.length
  · rw [getElem?_writeAt_inside (by omega) second.1 second.2,
      getElem?_writeAt_inside otherInside second.1 second.2]
  · rw [getElem?_writeAt (by omega) (by omega), getElem?_writeAt inside (by omega),
      getElem?_writeAt otherInside (by omega)]

end Apue.Base
