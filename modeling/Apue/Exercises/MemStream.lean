import Apue.Base.BoundedFile
import Apue.Base.Buffer
import Apue.Base.Machine

/-! # Memory streams

`fmemopen` makes a stream of a piece of memory: `rsize` bytes of which the first `vsize` count, and
a position.  For the modes that update, a stream is a file of bounded length; the NUL that
`mstream_write` puts behind the data never gets into it.  Every access to the memory is checked.
-/

namespace Apue.Exercises

open Apue.Base

/-! ## The code -/

def msRead : Nat := 0x01
def msWrite : Nat := 0x02
def msAppend : Nat := 0x04
def msTruncate : Nat := 0x08
def msMybuf : Nat := 0x10

inductive Errno where
  | einval
  | enomem
  | ebadf
  deriving DecidableEq, Repr

/-- A piece of memory. -/
abbrev Block (size : Nat) := { bytes : Bytes // bytes.length = size }

structure MemStream where
  buf : Bytes
  rsize : Nat
  vsize : Nat
  curpos : Nat
  flags : Nat
  deriving DecidableEq, Repr

/-- Two numbers of type `size_t`. -/
def cMin (a b : Nat) : Nat := if a < b then a else b

/-- The characters of the mode; 0 for an error. -/
def typeToFlagsLoop (flags : Nat) : Bytes → Nat
  | [] => flags
  | cp :: rest =>
    if cp = 0 then flags
    else if cp = 114 then if flags ≠ 0 then 0 else typeToFlagsLoop (flags ||| msRead) rest
    else if cp = 119 then if flags ≠
      0 then 0 else typeToFlagsLoop (flags ||| (msWrite ||| msTruncate)) rest
    else if cp = 97 then if flags ≠ 0 then 0 else typeToFlagsLoop (flags ||| msAppend) rest
    else if cp = 43 then if flags =
      0 then 0 else typeToFlagsLoop (flags ||| (msRead ||| msWrite)) rest
    else if cp = 98 then if flags = 0 then 0 else typeToFlagsLoop flags rest
    else 0

def typeToFlags (type : Bytes) : Nat := typeToFlagsLoop 0 type

/-- `off` of the loop from a given value on, with the turns that are left. -/
def findEndLoop (buf : Bytes) : Nat → Nat → Option Nat
  | 0, off => some off
  | turns + 1, off => do
    let b ← buf[off]?
    if b = 0 then pure off else findEndLoop buf turns (off + 1)

def findEnd (buf : Bytes) (len : Nat) : Option Nat := findEndLoop buf len 0

/-- Whether the allocation of the structure and `funopen` succeed, and the memory that is
allocated. -/
structure System (size : Nat) where
  memstream : Bool
  block : Option (Block size)
  funopen : Option Errno

/-- The memory, the position and the flags; `buf` is `none` for the null pointer.  The outer `none`
is an access outside the memory. -/
def attach {size : Nat} (system : System size) (buf : Option (Block size)) (flags : Nat) :
    Option (Except Errno MemStream) :=
  match buf with
  | none =>
    if flags &&& (msRead ||| msWrite) ≠ msRead ||| msWrite then some (.error .einval)
    else
      match system.block with
      | none => some (.error .enomem)
      | some block => some (.ok { buf := block, rsize := size, vsize := 0, curpos := 0, flags := flags ||| msMybuf })
  | some buf =>
    (if flags &&& msAppend ≠ 0 then findEnd buf size else some 0).map fun curpos =>
      .ok { buf := buf, rsize := size, vsize := 0, curpos := curpos, flags := flags }

def fmemopen {size : Nat} (system : System size) (buf : Option (Block size)) (type : Bytes) :
    Option (Except Errno MemStream) :=
  if size = 0 then some (.error .einval)
  else if !system.memstream then some (.error .enomem)
  else if typeToFlags type = 0 then some (.error .einval)
  else do
    match ← attach system buf (typeToFlags type) with
    | .error errno => pure (.error errno)
    | .ok ms =>
      let vsize :=
        if ms.flags &&& msAppend ≠ 0 then ms.curpos
        else if ms.flags &&& msTruncate ≠ 0 then 0
        else size
      match system.funopen with
      | some errno => pure (.error errno)
      | none => pure (.ok { ms with vsize := vsize })

/-- What a function returns, where it sets `errno`, and the bytes it puts into the memory of its
caller. -/
structure Reply where
  value : Int
  errno : Option Errno := none
  bytes : Bytes := []
  deriving DecidableEq, Repr

namespace MemStream

def mstreamRead (len : Int) (ms : MemStream) : Option (Reply × MemStream) :=
  if ms.flags &&& msRead = 0 then some ({ value := -1, errno := some .ebadf }, ms)
  else if ms.curpos ≥ ms.vsize then some ({ value := 0 }, ms)
  else do
    let nr := cInt (cMin (sizeT len) (sizeT ((ms.vsize : Int) - ms.curpos)))
    let bytes ← copyOut ms.buf ms.curpos (sizeT nr)
    pure ({ value := nr, bytes := bytes }, { ms with curpos := sizeT (ms.curpos + nr) })

/-- A write beyond the virtual size makes it grow; a stream that updates gets a NUL there. -/
def extend (ms : MemStream) : Option MemStream :=
  if ms.curpos > ms.vsize then
    let ms := { ms with vsize := ms.curpos }
    if ms.flags &&& (msRead ||| msWrite) = msRead ||| msWrite ∧ ms.vsize < ms.rsize then do
      let buf ← store ms.buf ms.vsize 0
      pure { ms with buf := buf }
    else some ms
  else some ms

/-- A stream that only writes gets a NUL where the data ends, or at the end of the memory. -/
def terminate (ms : MemStream) : Option MemStream :=
  if ms.flags &&& (msWrite ||| msAppend) ≠ 0 ∧ ms.flags &&& msRead = 0 then do
    let buf ← if ms.curpos < ms.rsize then store ms.buf ms.curpos 0 else store ms.buf (ms.rsize - 1) 0
    pure { ms with buf := buf }
  else some ms

def mstreamWrite (buf : Bytes) (len : Int) (ms : MemStream) : Option (Reply × MemStream) :=
  if ms.flags &&& (msAppend ||| msWrite) = 0 then some ({ value := -1, errno := some .ebadf }, ms)
  else do
    let off := cInt (if ms.flags &&& msAppend ≠ 0 then ms.vsize else ms.curpos)
    let nw := cInt (cMin (sizeT len) (sizeT ((ms.rsize : Int) - sizeT off)))
    let bytes ← copyOut buf 0 (sizeT nw)
    let array ← copyIn ms.buf (sizeT off) bytes
    let ms ← extend { ms with buf := array, curpos := sizeT (off + nw) }
    let ms ← terminate ms
    pure ({ value := nw }, ms)

/-- `off` behind the `switch`: the sums are of type `size_t`, the variable is an `int`. -/
def seekOff (ms : MemStream) (pos : Int) : Whence → Int
  | .set => cInt pos
  | .fromEnd => cInt (sizeT (ms.vsize + pos))
  | .cur => cInt (sizeT (ms.curpos + pos))

def mstreamSeek (pos : Int) (whence : Whence) (ms : MemStream) : Reply × MemStream :=
  let off := ms.seekOff pos whence
  if off < 0 ∨ sizeT off > ms.vsize then ({ value := -1, errno := some .einval }, ms)
  else ({ value := off }, { ms with curpos := sizeT off })

/-- The stdio library writes the bytes it has and tells how many they are. -/
def step (ms : MemStream) : BoundedFile.Call UInt8 → Option (Reply × MemStream)
  | .read len => ms.mstreamRead len
  | .write data => ms.mstreamWrite data data.length
  | .seek pos whence => some (ms.mstreamSeek pos whence)

/-! ## What the calls do -/

/-- The position is in the part that counts, and that is in the memory. -/
structure Inv (size : Nat) (ms : MemStream) : Prop where
  rsize : ms.rsize = size
  length : ms.buf.length = size
  positive : 0 < size
  small : size < 2 ^ 31
  position : ms.curpos ≤ ms.vsize
  extent : ms.vsize ≤ size

variable {ms : MemStream} {size : Nat}

theorem cMin_eq (a b : Nat) : cMin a b = min a b := by
  unfold cMin
  split <;> omega

/-- How many bytes `mstream_read` finds. -/
def found (ms : MemStream) (len : Nat) : Nat := min len (ms.vsize - ms.curpos)

theorem mstreamRead_eq (inv : ms.Inv size) {len : Nat} (fits : len < 2 ^ 31)
    (readable : ms.flags &&& msRead ≠ 0) :
    ms.mstreamRead len =
      some ({ value := ms.found len, bytes := (ms.buf.drop ms.curpos).take (ms.found len) },
      { ms with curpos := ms.curpos + ms.found len }) := by
  obtain ⟨rsize, length, positive, small, position, extent⟩ := inv
  rw [mstreamRead, if_neg readable]
  -- the subtraction of the sizes does not wrap where it is made
  by_cases atEnd : ms.curpos ≥ ms.vsize
  · have nothing : ms.found len = 0 := by
      rw [found]
      omega
    rw [if_pos atEnd, nothing]
    simp
  · have left : (ms.vsize : Int) - ms.curpos = (ms.vsize - ms.curpos : Nat) := by omega
    have least : cMin (sizeT len) (sizeT ((ms.vsize : Int) - ms.curpos)) = ms.found len := by
      rw [cMin_eq, left, sizeT_natCast (by omega), sizeT_natCast (by omega), found]
    have bound : ms.found len ≤ ms.vsize - ms.curpos := Nat.min_le_right _ _
    have moved : sizeT ((ms.curpos : Int) + ms.found len) = ms.curpos + ms.found len :=
      sizeT_natCast (show ms.curpos + ms.found len < 2 ^ 64 by omega)
    simp only [if_neg atEnd, least, cInt_of_small (show ms.found len < 2 ^ 31 by omega),
      sizeT_natCast (show ms.found len < 2 ^ 64 by omega),
      copyOut_eq (show ms.curpos + ms.found len ≤ ms.buf.length by omega), moved,
        Option.bind_eq_bind, Option.bind_some]
    rfl

/-- Where `mstream_write` puts the bytes. -/
def writeOff (ms : MemStream) : Nat := if ms.flags &&& msAppend ≠ 0 then ms.vsize else ms.curpos

theorem writeOff_le (inv : ms.Inv size) : ms.writeOff ≤ ms.vsize := by
  unfold writeOff
  split
  · exact Nat.le_refl _
  · exact inv.position

/-- The stream behind the copy. -/
def copied (ms : MemStream) (data : Bytes) : MemStream :=
  { ms with
    buf := overwrite ms.buf ms.writeOff (data.take (ms.rsize - ms.writeOff))
    curpos := ms.writeOff + (data.take (ms.rsize - ms.writeOff)).length }

theorem mstreamWrite_eq (inv : ms.Inv size) {data : Bytes} (fits : data.length < 2 ^ 31)
    (writable : ms.flags &&& (msAppend ||| msWrite) ≠ 0) :
    ms.mstreamWrite data data.length = ((ms.copied data).extend.bind terminate).map
      ({ value := (data.take (ms.rsize - ms.writeOff)).length }, ·) := by
  have place := writeOff_le inv
  obtain ⟨rsize, length, positive, small, position, extent⟩ := inv
  -- the conversions between `int` and `size_t` lose nothing: all numbers are at most the size
  have off : cInt (if ms.flags &&& msAppend ≠ 0 then ms.vsize else ms.curpos) = ms.writeOff := by
    rw [writeOff]
    split
    · exact cInt_of_small (by omega)
    · exact cInt_of_small (by omega)
  have room : (ms.rsize : Int) - ms.writeOff = (ms.rsize - ms.writeOff : Nat) := by omega
  have least : cMin (sizeT data.length) (sizeT ((ms.rsize : Int) - ms.writeOff)) =
      (data.take (ms.rsize - ms.writeOff)).length := by
    rw [cMin_eq, room, sizeT_natCast (by omega), sizeT_natCast (by omega), List.length_take,
      Nat.min_comm]
  have taken : (data.drop 0).take (data.take (ms.rsize - ms.writeOff)).length =
      data.take (ms.rsize - ms.writeOff) := by
    rw [List.drop_zero, List.length_take, ← List.take_eq_take_min]
  have most := List.length_take_le (ms.rsize - ms.writeOff) data
  have whole := List.length_take_le' (ms.rsize - ms.writeOff) data
  set piece := data.take (ms.rsize - ms.writeOff) with piece_eq
  have moved : sizeT ((ms.writeOff : Int) + piece.length) = ms.writeOff + piece.length :=
    sizeT_natCast (show ms.writeOff + piece.length < 2 ^ 64 by omega)
  simp only [mstreamWrite, if_neg writable, off, least,
    cInt_of_small (show piece.length < 2 ^ 31 by omega),
    sizeT_natCast (show piece.length < 2 ^ 64 by omega),
      sizeT_natCast (show ms.writeOff < 2 ^ 64 by omega),
    copyOut_eq (show 0 + piece.length ≤ data.length by omega), taken,
    copyIn_eq (show ms.writeOff + piece.length ≤ ms.buf.length by omega), moved,
      Option.bind_eq_bind, Option.bind_some]
  rw [copied, ← piece_eq, overwrite]
  cases extended : extend _ with
  | none => rfl
  | some next => cases terminated : terminate next <;> simp [terminated]

/-- The stream has everything the operations that update need. -/
def Updates (ms : MemStream) : Prop := ms.flags &&& (msRead ||| msWrite) = msRead ||| msWrite

theorem Updates.readable (updates : ms.Updates) : ms.flags &&& msRead ≠ 0 := by
  have bit : ms.flags &&& msRead = (msRead ||| msWrite) &&& msRead := by
    rw [← updates, Nat.and_assoc]; rfl
  rw [bit]
  decide

theorem Updates.writable (updates : ms.Updates) : ms.flags &&& (msAppend ||| msWrite) ≠ 0 := by
  intro none
  have bit : ms.flags &&& (msAppend ||| msWrite) &&& msWrite = (msRead ||| msWrite) &&&
      msWrite := by
    rw [← updates, Nat.and_assoc, Nat.and_assoc]
    rfl
  rw [none] at bit
  exact absurd bit (by decide)

/-- The NUL goes behind the part that counts. -/
theorem extend_eq (length : ms.buf.length = ms.rsize) : ∃ buf,
    ms.extend = some { ms with buf := buf, vsize := max ms.vsize ms.curpos } ∧
      buf.length = ms.buf.length ∧
      buf.take (max ms.vsize ms.curpos) = ms.buf.take (max ms.vsize ms.curpos) := by
  rw [extend]
  -- the NUL is stored only where the part that counts has grown, and behind it
  by_cases grows : ms.curpos > ms.vsize
  · have extent : max ms.vsize ms.curpos = ms.curpos := Nat.max_eq_right (Nat.le_of_lt grows)
    simp only [if_pos grows, extent]
    split
    · rename_i room
      refine ⟨ms.buf.set ms.curpos 0, ?_, List.length_set, List.take_set_of_le (Nat.le_refl _)⟩
      rw [store_eq (by rw [length]; exact room.2)]
      rfl
    · exact ⟨ms.buf, rfl, rfl, rfl⟩
  · have extent : max ms.vsize ms.curpos = ms.vsize := Nat.max_eq_left (Nat.le_of_not_lt grows)
    rw [if_neg grows, extent]
    exact ⟨ms.buf, rfl, rfl, rfl⟩

/-- A stream that is read too is left alone. -/
theorem terminate_eq (length : ms.buf.length = ms.rsize) (positive : 0 < ms.rsize) : ∃ buf,
    ms.terminate = some { ms with buf := buf } ∧ buf.length = ms.buf.length ∧
      (ms.flags &&& msRead ≠ 0 → buf = ms.buf) := by
  rw [terminate]
  split
  · rename_i only
    split
    · rename_i inside
      rw [store_eq (by omega)]
      exact ⟨_, rfl, List.length_set, fun readable => absurd only.2 readable⟩
    · rw [store_eq (by omega)]
      exact ⟨_, rfl, List.length_set, fun readable => absurd only.2 readable⟩
  · exact ⟨ms.buf, rfl, rfl, fun _ => rfl⟩

/-- The number of bytes that are written, and the stream behind the call. -/
theorem mstreamWrite_moves (inv : ms.Inv size) {data : Bytes} (fits : data.length < 2 ^ 31)
    (writable : ms.flags &&& (msAppend ||| msWrite) ≠ 0) :
    ∃ buf, ms.mstreamWrite data data.length = some (
      { value := (data.take (ms.rsize - ms.writeOff)).length },
      { ms.copied data with buf := buf, vsize := max ms.vsize (ms.copied data).curpos }) ∧
    buf.length = size ∧ (ms.flags &&& msRead ≠ 0 → buf.take (max ms.vsize (ms.copied data).curpos) =
      (ms.copied data).buf.take (max ms.vsize (ms.copied data).curpos)) := by
  have place := writeOff_le inv
  have writes := mstreamWrite_eq inv fits writable
  obtain ⟨rsize, length, positive, small, position, extent⟩ := inv
  have most := List.length_take_le (ms.rsize - ms.writeOff) data
  have copiedLength : (ms.copied data).buf.length = ms.rsize := by
    simp only [copied]
    rw [length_overwrite (by omega)]
    omega
  obtain ⟨buf, extended, length', same⟩ := extend_eq copiedLength
  let grown : MemStream :=
    { ms.copied data with buf := buf, vsize := max ms.vsize (ms.copied data).curpos }
  have extended : (ms.copied data).extend = some grown := extended
  have whole : grown.buf.length = grown.rsize := length'.trans copiedLength
  have nonempty : 0 < grown.rsize := Nat.lt_of_lt_of_eq positive rsize.symm
  obtain ⟨buf', terminates, length'', kept⟩ := terminate_eq whole nonempty
  refine ⟨buf', ?_, by rw [length'', whole]; exact rsize, fun readable => ?_⟩
  · rw [writes, extended, Option.bind_some, terminates]
    rfl
  · rw [kept readable]
    exact same

theorem cInt_of_fits {z : Int} (lower : -2 ^ 31 ≤ z) (upper : z < 2 ^ 31) : cInt z = z := by
  unfold cInt
  rw [Int.bmod_eq_of_le] <;> omega

/-- The sum of type `size_t` has lost nothing that the conversion to `int` keeps. -/
theorem cInt_sizeT (z : Int) : cInt (sizeT z) = cInt z := by
  have same : ((sizeT z : Nat) : Int) = z % 2 ^ 64 := by
    unfold sizeT
    omega
  rw [cInt, cInt, same, Int.bmod_def, Int.bmod_def, Int.emod_emod_of_dvd z (by decide)]

theorem mstreamSeek_eq (inv : ms.Inv size) {pos : Int} {whence : Whence}
    (lower : -2 ^ 31 ≤ seekTarget ms.vsize ms.curpos pos whence)
    (upper : seekTarget ms.vsize ms.curpos pos whence < 2 ^ 31) :
    ms.mstreamSeek pos whence =
      let target := seekTarget ms.vsize ms.curpos pos whence
      if 0 ≤ target ∧ target ≤ ms.vsize then ({ value := target },
        { ms with curpos := target.toNat })
      else ({ value := -1, errno := some .einval }, ms) := by
  -- the sum is taken as `size_t` and then cut to `int`
  have off : ms.seekOff pos whence = seekTarget ms.vsize ms.curpos pos whence := by
    cases whence with
    | set => exact cInt_of_fits lower upper
    | cur => exact (cInt_sizeT _).trans (cInt_of_fits lower upper)
    | fromEnd => exact (cInt_sizeT _).trans (cInt_of_fits lower upper)
  have small := inv.small
  have extent := inv.extent
  simp only [mstreamSeek, off]
  set target := seekTarget ms.vsize ms.curpos pos whence
  by_cases possible : 0 ≤ target ∧ target ≤ ms.vsize
  · have exact : sizeT target = target.toNat := by
      unfold sizeT
      omega
    simp only [if_pos possible, exact]
    rw [if_neg (by omega)]
  · simp only [if_neg possible]
    rw [if_pos]
    unfold sizeT
    omega

/-! ## The stream as a file -/

/-- The length of a piece of data, or the target of a seek, is a number of type `int`. -/
def Fits (ms : MemStream) : BoundedFile.Call UInt8 → Prop
  | .read len => len < 2 ^ 31
  | .write data => data.length < 2 ^ 31
  | .seek pos whence =>
    -2 ^ 31 ≤ seekTarget ms.vsize ms.curpos pos whence ∧
      seekTarget ms.vsize ms.curpos pos whence < 2 ^ 31

instance (ms : MemStream) : (call : BoundedFile.Call UInt8) → Decidable (ms.Fits call)
  | .read _ => inferInstanceAs (Decidable (_ < _))
  | .write _ => inferInstanceAs (Decidable (_ < _))
  | .seek _ _ => inferInstanceAs (Decidable (_ ∧ _))

structure Represents (ms : MemStream) (file : BoundedFile UInt8 size) : Prop where
  content : file.content = ms.buf.take ms.vsize
  cursor : file.cursor = ms.curpos

theorem Inv.represents (inv : ms.Inv size) :
    ∃ file : BoundedFile UInt8 size, ms.Represents file := by
  have content : (ms.buf.take ms.vsize).length = ms.vsize := by
    have length := inv.length
    have extent := inv.extent
    rw [List.length_take]
    omega
  exact ⟨⟨ms.buf.take ms.vsize,
    ms.curpos, by rw [content]; exact inv.extent, by rw [content]; exact inv.position⟩, rfl, rfl⟩

variable {file : BoundedFile UInt8 size}

theorem Represents.length (represents : ms.Represents file) (inv : ms.Inv size) :
    file.content.length = ms.vsize := by
  have length := inv.length
  have extent := inv.extent
  rw [represents.content, List.length_take]
  omega

end MemStream

/-- The reply that tells the answer of a file. -/
def reply : BoundedFile.Answer UInt8 → Reply
  | .bytes piece => { value := piece.length, bytes := piece }
  | .count n => { value := n }
  | .position (some target) => { value := target }
  | .position none => { value := -1, errno := some .einval }

namespace MemStream

variable {ms : MemStream} {size flags : Nat} {file : BoundedFile UInt8 size}

/-- A stream between two calls, next to the file that it is taken for where it updates. -/
structure Related (size flags : Nat) (ms : MemStream) (file : BoundedFile UInt8 size) : Prop where
  inv : ms.Inv size
  flags : ms.flags = flags
  represents : ms.Updates → ms.Represents file

/-- A call is served, and where the stream updates it is answered like that of the file. -/
def Serves (size flags : Nat) (ms : MemStream) (file : BoundedFile UInt8 size)
    (call : BoundedFile.Call UInt8) : Prop :=
  ∃ answer ms', ms.step call = some (answer, ms') ∧
    (ms.Updates → answer = reply (file.step (flags &&& msAppend ≠ 0) call).1) ∧
    Related size flags ms' (file.step (flags &&& msAppend ≠ 0) call).2

theorem serves_read (related : Related size flags ms file) {len : Nat} (fits : len < 2 ^ 31) :
    Serves size flags ms file (.read len) := by
  have inv := related.inv
  by_cases readable : ms.flags &&& msRead = 0
  · have updates : ¬ms.Updates := fun updates => updates.readable readable
    exact ⟨_, ms, if_pos readable, fun updating => absurd updating updates, inv, related.flags,
      fun updating => absurd updating updates⟩
  · have bound : ms.found len ≤ ms.vsize - ms.curpos := Nat.min_le_right _ _
    have position := inv.position
    have length := inv.length
    have extent := inv.extent
    refine ⟨_, _, mstreamRead_eq inv fits readable, fun updates => ?_, ?_, related.flags,
      fun updates => ?_⟩
    · have represents := related.represents updates
      have piece : (file.content.drop file.cursor).take len = (ms.buf.drop ms.curpos).take
          (ms.found len) := by
        rw [represents.content, represents.cursor, List.drop_take, List.take_take, found]
      have count : ((ms.buf.drop ms.curpos).take (ms.found len)).length = ms.found len := by
        rw [List.length_take, List.length_drop]
        omega
      simp only [BoundedFile.step, BoundedFile.read, Prod.map, reply, piece, count]
    · exact ⟨inv.rsize, length, inv.positive, inv.small, show ms.curpos + ms.found len ≤
        ms.vsize by omega, extent⟩
    · have represents := related.represents updates
      refine ⟨represents.content, ?_⟩
      have whole := represents.length inv
      show min (file.cursor + len) file.content.length = ms.curpos + ms.found len
      rw [whole, represents.cursor, found]
      omega

theorem serves_write (related : Related size flags ms file) {data : Bytes}
    (fits : data.length < 2 ^ 31) :
    Serves size flags ms file (.write data) := by
  have inv := related.inv
  by_cases writable : ms.flags &&& (msAppend ||| msWrite) = 0
  · have updates : ¬ms.Updates := fun updates => updates.writable writable
    exact ⟨_, ms, if_pos writable, fun updating => absurd updating updates, inv, related.flags,
      fun updating => absurd updating updates⟩
  · obtain ⟨buf, writes, length, kept⟩ := mstreamWrite_moves inv fits writable
    have place := writeOff_le inv
    have extent := inv.extent
    have rsize := inv.rsize
    have most := List.length_take_le (ms.rsize - ms.writeOff) data
    -- the stream and the file begin at the same place and accept the same bytes
    have pos (represents : ms.Represents file) :
        file.writePos (flags &&& msAppend ≠ 0) = ms.writeOff := by
      rw [BoundedFile.writePos, writeOff, represents.length inv, represents.cursor, related.flags]
      simp
    have accepted (represents : ms.Represents file) :
        file.accepted (flags &&& msAppend ≠ 0) data = data.take (ms.rsize - ms.writeOff) := by
      rw [BoundedFile.accepted, pos represents, rsize]
    refine ⟨_, _, writes, fun updates => ?_, ?_, related.flags, fun updates => ?_⟩
    · simp only [BoundedFile.step, BoundedFile.write, Prod.map, reply,
        accepted (related.represents updates)]
    · exact ⟨rsize, length, inv.positive, inv.small, Nat.le_max_right _ _,
        show max ms.vsize (ms.writeOff + (data.take (ms.rsize - ms.writeOff)).length) ≤
          size by omega⟩
    · have represents := related.represents updates
      refine ⟨?_, ?_⟩
      · show overwrite file.content (file.writePos _) (file.accepted _ data) = buf.take _
        rw [kept updates.readable, pos represents, accepted represents, represents.content]
        exact (take_overwrite ms.buf place (by rw [inv.length]; omega)).symm
      · show file.writePos _ + (file.accepted _ data).length = ms.writeOff + _
        rw [pos represents, accepted represents]

theorem serves_seek (related : Related size flags ms file) {pos : Int} {whence : Whence}
    (fits : ms.Fits (.seek pos whence)) : Serves size flags ms file (.seek pos whence) := by
  have inv := related.inv
  have seeks := mstreamSeek_eq inv fits.1 fits.2
  have target (represents : ms.Represents file) :
      seekTarget file.content.length file.cursor pos whence = seekTarget ms.vsize ms.curpos pos
        whence := by
    rw [represents.length inv, represents.cursor]
  set asked := seekTarget ms.vsize ms.curpos pos whence
  by_cases possible : 0 ≤ asked ∧ asked ≤ ms.vsize
  · simp only [if_pos possible] at seeks
    have moves (represents : ms.Represents file) :=
      file.seek_possible (target represents) (by rw [represents.length inv]; exact possible)
    refine ⟨_, _, congrArg some seeks, fun updates => ?_, ?_, related.flags, fun updates => ?_⟩
    · show _ = reply (.position (file.seek pos whence).1)
      rw [(moves (related.represents updates)).1, reply, Int.toNat_of_nonneg possible.1]
    · exact ⟨inv.rsize, inv.length, inv.positive, inv.small,
        show asked.toNat ≤ ms.vsize by omega, inv.extent⟩
    · have represents := related.represents updates
      obtain ⟨_, content, cursor⟩ := moves represents
      exact ⟨content.trans represents.content, cursor⟩
  · simp only [if_neg possible] at seeks
    have stays (represents : ms.Represents file) :=
      file.seek_impossible (target represents) (by rw [represents.length inv]; exact possible)
    refine ⟨_, _, congrArg some seeks, fun updates => ?_, inv, related.flags, fun updates => ?_⟩
    · show _ = reply (.position (file.seek pos whence).1)
      rw [stays (related.represents updates), reply]
    · show ms.Represents (file.seek pos whence).2
      rw [stays (related.represents updates)]
      exact related.represents updates

end MemStream

/-! ## Opening -/

section Opening

variable {type : Bytes} {flags size : Nat}

/-- The mode has a `+`, for a stream that is read and written. -/
def Updating (type : Bytes) : Prop := 43 ∈ cstr type

instance (type : Bytes) : Decidable (Updating type) := inferInstanceAs (Decidable (_ ∈ _))

/-- The mode begins with `a`. -/
def appending (type : Bytes) : Bool := (cstr type).head? = some 97

theorem cstr_cons {b : UInt8} (nonzero : b ≠ 0) (s : Bytes) : cstr (b :: s) = b :: cstr s := by
  simp [cstr, nonzero]

/-- Behind the letter there are only `+` and `b`. -/
theorem typeToFlagsLoop_rest (letter : flags ≠ 0) (accepted : typeToFlagsLoop flags type ≠ 0) :
    typeToFlagsLoop flags type = if Updating type then flags |||
      (msRead ||| msWrite) else flags := by
  induction type generalizing flags with
  | nil => rfl
  | cons cp rest inductionHypothesis =>
    by_cases zero : cp = 0
    · subst zero
      simp [typeToFlagsLoop, Updating, cstr]
    · have members : Updating (cp :: rest) ↔ 43 = cp ∨ Updating rest := by
        rw [Updating, cstr_cons zero, List.mem_cons, Updating]
      by_cases plus : cp = 43
      · subst plus
        have turn : typeToFlagsLoop flags (43 :: rest) =
            typeToFlagsLoop (flags ||| (msRead ||| msWrite)) rest := by
          simp [typeToFlagsLoop, letter]
        have more : flags ||| (msRead ||| msWrite) ≠ 0 :=
          fun none => letter (Nat.or_eq_zero_iff.mp none).1
        rw [turn] at accepted ⊢
        rw [inductionHypothesis more accepted, if_pos (members.mpr (.inl rfl)), Nat.or_assoc,
          Nat.or_self, ite_self]
      · by_cases binary : cp = 98
        · subst binary
          have turn : typeToFlagsLoop flags (98 :: rest) = typeToFlagsLoop flags rest := by
            simp [typeToFlagsLoop, letter]
          rw [turn] at accepted ⊢
          rw [inductionHypothesis letter accepted]
          simp [members]
        · simp [typeToFlagsLoop, letter, zero, plus, binary] at accepted

/-- The flags of a mode, by its letter. -/
theorem typeToFlags_eq (accepted : typeToFlags type ≠ 0) :
    ∃ base ∈ [msRead, msWrite ||| msTruncate, msAppend],
    typeToFlags type = (if Updating type then base ||| (msRead ||| msWrite) else base) ∧
      (appending type = true ↔ base = msAppend) := by
  cases type with
  | nil => exact absurd rfl accepted
  | cons cp rest =>
    -- behind the letter the loop only adds the bits of a `+`
    have behind (base : Nat) (nonzero : cp ≠ 0) (letter : base ≠ 0) (noPlus : cp ≠ 43)
        (turn : typeToFlags (cp :: rest) = typeToFlagsLoop base rest) :
        typeToFlags (cp :: rest) = if Updating (cp :: rest) then base |||
          (msRead ||| msWrite) else base := by
      have same : Updating (cp :: rest) ↔ Updating rest := by
        simp [Updating, cstr_cons nonzero, Ne.symm noPlus]
      rw [turn] at accepted ⊢
      rw [typeToFlagsLoop_rest letter accepted]
      simp only [same]
    by_cases r : cp = 114
    · subst r
      exact ⟨msRead, by simp, behind _ (by decide) (by decide) (by decide) rfl, by simp [appending, cstr, msRead, msAppend]⟩
    · by_cases w : cp = 119
      · subst w
        exact ⟨msWrite ||| msTruncate, by simp, behind _ (by decide) (by decide) (by decide) rfl,
          by simp [appending, cstr, msWrite, msTruncate, msAppend]⟩
      · by_cases a : cp = 97
        · subst a
          exact ⟨msAppend, by simp, behind _ (by decide) (by decide) (by decide) rfl, by simp [appending, cstr]⟩
        · simp [typeToFlags, typeToFlagsLoop, r, w, a] at accepted

/-- The two bits the calls look at, as they stand in the mode. -/
theorem bits_typeToFlags (accepted : typeToFlags type ≠ 0) :
    (typeToFlags type &&& (msRead ||| msWrite) = msRead ||| msWrite ↔ Updating type) ∧
      (typeToFlags type &&& msAppend ≠ 0 ↔ appending type = true) := by
  obtain ⟨base, letter, flags, append⟩ := typeToFlags_eq accepted
  have alone : ∀ base ∈ [msRead, msWrite ||| msTruncate, msAppend],
      base &&& (msRead ||| msWrite) ≠ msRead ||| msWrite ∧
        (base &&& msAppend ≠ 0 ↔ base = msAppend) := by decide
  have both : ∀ base ∈ [msRead, msWrite ||| msTruncate, msAppend],
      (base ||| (msRead ||| msWrite)) &&& (msRead ||| msWrite) = msRead ||| msWrite ∧
        ((base ||| (msRead ||| msWrite)) &&& msAppend ≠ 0 ↔ base = msAppend) := by decide
  rw [flags, append]
  by_cases updating : Updating type
  · rw [if_pos updating]
    exact ⟨iff_of_true (both base letter).1 updating, (both base letter).2⟩
  · rw [if_neg updating]
    exact ⟨iff_of_false (alone base letter).1 updating, (alone base letter).2⟩

/-- The loop ends at the first NUL, or behind the last of its turns. -/
theorem findEndLoop_eq {buf : Bytes} {turns off : Nat} (inside : off + turns ≤ buf.length) :
    findEndLoop buf turns off = some (off + strlen ((buf.drop off).take turns)) := by
  induction turns generalizing off with
  | zero => simp [findEndLoop, strlen, cstr]
  | succ turns inductionHypothesis =>
    have here : off < buf.length := by omega
    rw [findEndLoop, List.getElem?_eq_getElem here, List.drop_eq_getElem_cons here,
      List.take_succ_cons]
    simp only [Option.bind_eq_bind, Option.bind_some]
    by_cases zero : buf[off] = 0
    · rw [if_pos zero, zero]
      rfl
    · rw [if_neg zero, inductionHypothesis (by omega), strlen, strlen, cstr_cons zero,
        List.length_cons]
      congr 1
      omega

theorem findEnd_eq {buf : Bytes} (length : buf.length = size) :
    findEnd buf size = some (strlen buf) := by
  rw [findEnd, findEndLoop_eq (by omega), List.drop_zero, Nat.zero_add,
    List.take_of_length_le (by omega)]

theorem strlen_le (buf : Bytes) : strlen buf ≤ buf.length := (List.takeWhile_prefix _).length_le

/-- Of the memory that `fmemopen` was given, or else allocated, this counts. -/
def openedContent (buf : Option (Block size)) (block : Bytes) (type : Bytes) : Bytes :=
  if appending type then (if buf = none then [] else cstr block)
  else if typeToFlags type &&& msTruncate ≠ 0 then [] else block

/-- The stream that `fmemopen` returns. -/
structure Opened (size : Nat) (buf : Option (Block size)) (type : Bytes)
    (ms : MemStream) : Prop where
  inv : ms.Inv size
  updates : ms.Updates ↔ Updating type
  append : ms.flags &&& msAppend ≠ 0 ↔ appending type = true
  memory : ∀ block, buf = some block → ms.buf = block
  content : ms.buf.take ms.vsize = openedContent buf ms.buf type
  cursor : ms.curpos = if appending type then ms.vsize else 0

/-- The stream before `vsize` is set, of the caller's memory or of the allocated one. -/
structure Attached (size : Nat) (buf : Option (Block size)) (type : Bytes)
    (ms : MemStream) : Prop where
  rsize : ms.rsize = size
  length : ms.buf.length = size
  masks : ∀ mask ∈ [msRead ||| msWrite, msAppend, msTruncate],
    ms.flags &&& mask = typeToFlags type &&& mask
  memory : ∀ block, buf = some block → ms.buf = block
  curpos : ms.curpos = if appending type then (if buf = none then 0 else strlen ms.buf) else 0

theorem attach_attached (accepted : typeToFlags type ≠ 0) (system : System size)
    (buf : Option (Block size)) :
    ∃ result, attach system buf (typeToFlags type) = some result ∧ ∀ ms, result = .ok ms →
      Attached size buf type ms := by
  have append := (bits_typeToFlags accepted).2
  cases buf with
  | none =>
    by_cases both : typeToFlags type &&& (msRead ||| msWrite) = msRead ||| msWrite
    · cases allocated : system.block with
      | none => exact ⟨.error .enomem, by simp [attach, both, allocated], by simp⟩
      | some block =>
        have other : ∀ mask ∈ [msRead ||| msWrite, msAppend, msTruncate], msMybuf &&& mask = 0 := by
          decide
        refine ⟨_, by simp only [attach, both, allocated, ne_eq, not_true, if_false]; rfl, fun ms ok => ?_⟩
        cases ok
        refine ⟨rfl, block.2, fun mask member => ?_, by simp, by simp⟩
        rw [Nat.and_or_distrib_right, other mask member, Nat.or_zero]
    · exact ⟨.error .einval, by simp [attach, both], by simp⟩
  | some block =>
    have start : (if typeToFlags type &&& msAppend ≠ 0 then findEnd block size else some 0) =
        some (if appending type then strlen block.1 else 0) := by
      rw [findEnd_eq block.2]
      simp only [append]
      split <;> rfl
    refine ⟨_, by rw [attach, start, Option.map_some], fun ms ok => ?_⟩
    cases ok
    exact ⟨rfl, block.2, fun _ _ => rfl,
      fun given same => congrArg Subtype.val (Option.some.inj same), by simp⟩

/-- What `vsize` is set to for the three kinds of modes. -/
theorem Attached.opened {buf : Option (Block size)} {ms : MemStream}
    (attached : Attached size buf type ms) (positive : 0 < size)
    (small : size < 2 ^ 31) (accepted : typeToFlags type ≠ 0) : Opened size buf type { ms with
      vsize :=
        if ms.flags &&& msAppend ≠ 0 then ms.curpos
        else if ms.flags &&& msTruncate ≠ 0 then 0
        else size } := by
  obtain ⟨rsize, length, masks, memory, curpos⟩ := attached
  obtain ⟨updates, append⟩ := bits_typeToFlags accepted
  have end_le := strlen_le ms.buf
  have appends : ms.flags &&& msAppend ≠ 0 ↔ appending type = true := by
    rw [masks _ (by simp), append]
  have truncates : ms.flags &&& msTruncate = typeToFlags type &&& msTruncate := masks _ (by simp)
  have front : ms.buf.take (strlen ms.buf) = cstr ms.buf :=
    (List.prefix_iff_eq_take.mp (List.takeWhile_prefix _)).symm
  set vsize := if ms.flags &&& msAppend ≠ 0 then ms.curpos else if ms.flags &&& msTruncate ≠
    0 then 0 else size with vsize_eq
  simp only [appends, truncates] at vsize_eq
  -- one case for each of the letters a, w and r
  have bounds : ms.curpos ≤ vsize ∧ vsize ≤ size ∧
      ms.buf.take vsize = openedContent buf ms.buf type ∧
      ms.curpos = if appending type then vsize else 0 := by
    rw [vsize_eq, openedContent, curpos]
    cases appending type with
    | true =>
      by_cases null : buf = none
      · simp [null]
      · simp only [if_neg null, if_true]
        exact ⟨Nat.le_refl _, by omega, front, trivial⟩
    | false =>
      by_cases truncated : typeToFlags type &&& msTruncate ≠ 0
      · simp [truncated]
      · simp [truncated, ← length]
  exact {
    inv := ⟨rsize, length, positive, small, bounds.1, bounds.2.1⟩
    updates := by rw [MemStream.Updates, masks _ (by simp), updates]
    append := appends
    memory := memory
    content := bounds.2.2.1
    cursor := bounds.2.2.2 }

/-- No access outside the memory; the stream, where there is one. -/
theorem fmemopen_opened (small : size < 2 ^ 31) (system : System size) (buf : Option (Block size))
    (type : Bytes) :
    ∃ result, fmemopen system buf type = some result ∧ ∀ ms, result = .ok ms →
      Opened size buf type ms := by
  by_cases empty : size = 0
  · exact ⟨_, if_pos empty, by simp⟩
  have positive : 0 < size := Nat.pos_of_ne_zero empty
  cases allocated : system.memstream with
  | false => exact ⟨.error .enomem, by simp [fmemopen, empty, allocated], by simp⟩
  | true =>
    by_cases accepted : typeToFlags type = 0
    · exact ⟨.error .einval, by simp [fmemopen, empty, allocated, accepted], by simp⟩
    obtain ⟨result, attaches, attached⟩ := attach_attached accepted system buf
    cases result with
    | error errno =>
      exact ⟨.error errno, by simp [fmemopen, empty, allocated, accepted, attaches], by simp⟩
    | ok ms =>
      cases opens : system.funopen with
      | some errno => exact ⟨.error errno, by simp [fmemopen, empty, allocated, accepted, attaches, opens], by simp⟩
      | none =>
        have stream : fmemopen system buf type = some (.ok { ms with
            vsize :=
              if ms.flags &&& msAppend ≠ 0 then ms.curpos
              else if ms.flags &&& msTruncate ≠ 0 then 0
              else size }) := by
          simp only [fmemopen, empty, allocated, accepted, attaches, opens, Bool.not_true,
            Bool.false_eq_true, if_false,
            Option.bind_eq_bind, Option.bind_some]
          rfl
        refine ⟨_, stream, fun ms' ok => ?_⟩
        cases ok
        exact (attached ms rfl).opened positive small accepted

end Opening

/-! ## Every series of calls -/

/-- The position is in the part of the memory that counts. -/
def MemStream.InBounds (ms : MemStream) : Prop := ms.curpos ≤ ms.vsize ∧ ms.vsize ≤ ms.rsize

theorem MemStream.serves {size flags : Nat} {ms : MemStream} {file : BoundedFile UInt8 size}
    (related : Related size flags ms file)
    {call : BoundedFile.Call UInt8} (fits : ms.Fits call) : Serves size flags ms file call := by
  cases call with
  | read len => exact serves_read related fits
  | write data => exact serves_write related fits
  | seek pos whence => exact serves_seek related fits

/-- Whatever is called on a stream, the position and the sizes stay in order and no access leaves
the memory.  In the modes that update, the replies are those of a file of bounded length that begins
as the mode says, and the memory that counts holds it. -/
theorem memstream_bounded_file {size : Nat} (small : size < 2 ^ 31) (system : System size)
    (buf : Option (Block size))
    (type : Bytes) : ∃ result, fmemopen system buf type = some result ∧ ∀ ms, result = .ok ms →
      (∀ block, buf = some block → ms.buf = block) ∧ ∃ file : BoundedFile UInt8 size,
        ms.Represents file ∧
        file.content = openedContent buf ms.buf type ∧
        file.cursor = (if appending type then file.content.length else 0) ∧
        ∀ calls, Along MemStream.step MemStream.Fits ms calls →
          ∃ replies ms', dialogue MemStream.step ms calls = some (replies, ms') ∧ ms'.InBounds ∧
            (Updating type →
            replies = (answers (BoundedFile.step (appending type)) file calls).1.map reply ∧
              ms'.Represents (answers (BoundedFile.step (appending type)) file calls).2) := by
  obtain ⟨result, returns, opened⟩ := fmemopen_opened small system buf type
  refine ⟨result, returns, fun ms ok => ?_⟩
  have opened := opened ms ok
  obtain ⟨file, represents⟩ := opened.inv.represents
  have cursor : file.cursor = if appending type then file.content.length else 0 := by
    rw [represents.cursor, represents.length opened.inv, opened.cursor]
  refine ⟨opened.memory, file, represents, represents.content.trans opened.content, cursor,
    fun calls along => ?_⟩
  have append : decide (ms.flags &&& msAppend ≠ 0) = appending type := by
    rw [Bool.eq_iff_iff, decide_eq_true_iff]
    exact opened.append
  have same {s : MemStream} (flags : s.flags = ms.flags) : s.Updates ↔ ms.Updates := by
    rw [MemStream.Updates, MemStream.Updates, flags]
  have one : ∀ (s : MemStream) (file : BoundedFile UInt8 size) call,
      MemStream.Related size ms.flags s file → s.Fits call →
      ∃ answer s', s.step call = some (answer, s') ∧
        (ms.Updates → answer = reply (file.step (appending type) call).1) ∧
        MemStream.Related size ms.flags s' (file.step (appending type) call).2 := by
    intro s file call related fits
    obtain ⟨answer, s', serves, agrees, next⟩ := MemStream.serves related fits
    rw [append] at agrees next
    exact ⟨answer, s', serves, fun updates => agrees ((same related.flags).mpr updates), next⟩
  obtain ⟨replies, ms', runs, agree, final⟩ := dialogue_simulates (MemStream.Related size ms.flags)
    (fun answer answer' => ms.Updates → answer = reply answer') one ⟨opened.inv, rfl,
      fun _ => represents⟩ along
  refine ⟨replies, ms', runs, ⟨final.inv.position, final.inv.rsize ▸ final.inv.extent⟩,
    fun updating => ?_⟩
  have updates : ms.Updates := opened.updates.mpr updating
  have equal : List.Forall₂ (fun answer answer' => answer = reply answer') replies
      (answers (BoundedFile.step (appending type)) file calls).1 :=
    List.Forall₂.imp (fun _ _ agrees => agrees updates) agree
  rw [← List.forall₂_map_right_iff, List.forall₂_eq_eq_eq] at equal
  exact ⟨equal, final.represents ((same final.flags).mpr updates)⟩

/-- Memory of four bytes with "ab", opened to append and read: three bytes of "xyz" are asked for,
two fit. -/
def appendSystem : System 4 := ⟨true, none, none⟩

theorem memstream_bounded_file_append : ∃ ms ms',
    fmemopen appendSystem (some ⟨[97, 98, 0, 7], rfl⟩) (ascii "a+") = some (.ok ms) ∧
      dialogue MemStream.step ms [.write (ascii "xyz"), .seek (-4) .fromEnd, .read 9, .seek 5 .set] = some (
        [{ value := 2 }, { value := 0 }, { value := 4, bytes := ascii "abxy" }, { value := -1, errno := some .einval }], ms') ∧
      ms'.InBounds := by
  obtain ⟨result, returns, opened⟩ :=
    memstream_bounded_file (show 4 < 2 ^ 31 by decide) appendSystem (some ⟨[97, 98, 0, 7], rfl⟩) (ascii "a+")
  have evaluates : fmemopen appendSystem (some ⟨[97, 98, 0, 7], rfl⟩) (ascii "a+") =
      some (.ok ⟨[97, 98, 0, 7], 4, 2, 2, 7⟩) := by rfl
  rw [evaluates, Option.some.injEq] at returns
  subst returns
  obtain ⟨-, file, -, -, -, runs⟩ := opened _ rfl
  obtain ⟨replies, ms', answers, bounds, -⟩ :=
    runs [.write (ascii "xyz"), .seek (-4) .fromEnd, .read 9, .seek 5 .set] (by decide)
  have answers' : dialogue MemStream.step ⟨[97, 98, 0, 7], 4, 2, 2, 7⟩
      [.write (ascii "xyz"), .seek (-4) .fromEnd, .read 9, .seek 5 .set] = some (
        [{ value := 2 }, { value := 0 }, { value := 4, bytes := ascii "abxy" }, { value := -1, errno := some .einval }],
        ⟨[97, 98, 120, 121], 4, 4, 4, 7⟩) := by decide +kernel
  rw [answers', Option.some.injEq, Prod.mk.injEq] at answers
  obtain ⟨rfl, rfl⟩ := answers
  exact ⟨_, _, evaluates, answers', bounds⟩

end Apue.Exercises
