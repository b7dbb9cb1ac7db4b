import Apue.Exercises.MemStream

/-! # What a write leaves and where a seek goes

A stream that only writes gets its NUL at the cursor after every write, whether or not that is the
end of what counts, and in the last byte where the memory is full: there it takes the place of a
byte that was written.  `mstream_seek` computes the new position in an `int`, so that a target
outside this type is taken for another one.

Both functions are looked at in every call of a series, on whatever stream.
-/

namespace Apue.Exercises

open Apue.Base

/-! ## Seeks -/

namespace MemStream

/-- What a seek is for: the stream moves to the target if it lies in the part that counts, and else
it stays. -/
def SeekExact (ms : MemStream) (pos : Int) (whence : Whence) : Prop :=
  ms.mstreamSeek pos whence =
    let target := seekTarget ms.vsize ms.curpos pos whence
    if 0 ≤ target ∧ target ≤ ms.vsize then ({ value := target }, { ms with curpos := target.toNat })
    else ({ value := -1, errno := some .einval }, ms)

/-- A target in the part that counts is an `int`, and one outside is not taken for a place in that
part when it is cut down to the low 32 bits. -/
def SeekFits (ms : MemStream) (pos : Int) (whence : Whence) : Prop :=
  let target := seekTarget ms.vsize ms.curpos pos whence
  if 0 ≤ target ∧ target ≤ ms.vsize then target < 2 ^ 31 else ¬(target % 2 ^ 32 < 2 ^ 31 ∧
    target % 2 ^ 32 ≤ ms.vsize)

instance (ms : MemStream) (pos : Int) (whence : Whence) : Decidable (ms.SeekExact pos whence) :=
  inferInstanceAs (Decidable (_ = _))

variable {ms : MemStream} {size : Nat}

theorem seekOff_eq (ms : MemStream) (pos : Int) (whence : Whence) :
    ms.seekOff pos whence = cInt (seekTarget ms.vsize ms.curpos pos whence) := by
  cases whence with
  | set => rfl
  | cur => exact cInt_sizeT _
  | fromEnd => exact cInt_sizeT _

/-- The value of an `int`, when it is not negative, is what the low bits say. -/
theorem cInt_bounds (z : Int) :
    -2 ^ 31 ≤ cInt z ∧ cInt z < 2 ^ 31 ∧ (0 ≤ cInt z ↔ z % 2 ^ 32 < 2 ^ 31) ∧
    (0 ≤ cInt z → cInt z = z % 2 ^ 32) := by
  rw [cInt, Int.bmod_def]
  split <;> omega

/-- The seek succeeds just when the `int` lies in the part that counts. -/
theorem mstreamSeek_off (ms : MemStream) (pos : Int) (whence : Whence) : ms.mstreamSeek pos whence =
    let off := cInt (seekTarget ms.vsize ms.curpos pos whence)
    if 0 ≤ off ∧ off ≤ ms.vsize then ({ value := off }, { ms with curpos := off.toNat })
    else ({ value := -1, errno := some .einval }, ms) := by
  have bounds := cInt_bounds (seekTarget ms.vsize ms.curpos pos whence)
  simp only [mstreamSeek, seekOff_eq]
  set off := cInt (seekTarget ms.vsize ms.curpos pos whence)
  by_cases inside : 0 ≤ off ∧ off ≤ ms.vsize
  · have exact : sizeT off = off.toNat := by
      unfold sizeT
      omega
    simp only [if_pos inside, exact]
    rw [if_neg (by omega)]
  · simp only [if_neg inside]
    rw [if_pos]
    unfold sizeT
    omega

theorem seekExact_iff (ms : MemStream) (pos : Int) (whence : Whence) :
    ms.SeekExact pos whence ↔ ms.SeekFits pos whence := by
  unfold SeekExact SeekFits
  rw [mstreamSeek_off]
  set target := seekTarget ms.vsize ms.curpos pos whence
  obtain ⟨-, upper, sign, low⟩ := cInt_bounds target
  by_cases inside : 0 ≤ target ∧ target ≤ ms.vsize
  · simp only [if_pos inside]
    constructor
    · intro exact
      -- a target that is no `int` is neither refused nor reached
      split at exact <;> simp only [Prod.mk.injEq, Reply.mk.injEq] at exact <;> omega
    · intro small
      have same : cInt target = target := cInt_of_fits (by omega) small
      simp only [same, if_pos inside]
  · simp only [if_neg inside]
    by_cases taken : 0 ≤ cInt target ∧ cInt target ≤ ms.vsize
    · simp only [if_pos taken, Prod.mk.injEq, Reply.mk.injEq]
      have value := low taken.1
      constructor
      · intro ⟨⟨same, _⟩, _⟩
        omega
      · intro outside
        exact absurd ⟨sign.1 taken.1, value ▸ taken.2⟩ outside
    · simp only [if_neg taken, true_iff]
      intro ⟨small, least⟩
      have positive := sign.2 small
      exact taken ⟨positive, by rw [low positive]; exact least⟩

/-- The test of a seek, for the calls that are seeks. -/
def OnSeek (test : MemStream → Int → Whence → Prop) (ms : MemStream) : BoundedFile.Call UInt8 → Prop
  | .seek pos whence => test ms pos whence
  | _ => True

/-- In every series of calls, whatever the stream: the seeks are exact just when their targets
fit. -/
theorem seeks_exact_iff (ms : MemStream) (calls : List (BoundedFile.Call UInt8)) :
    Along step (OnSeek SeekExact) ms calls ↔ Along step (OnSeek SeekFits) ms calls := by
  induction calls generalizing ms with
  | nil => exact Iff.rfl
  | cons call calls inductionHypothesis =>
    have here : OnSeek SeekExact ms call ↔ OnSeek SeekFits ms call := by
      cases call with
      | seek pos whence => exact seekExact_iff ms pos whence
      | read len => exact Iff.rfl
      | write data => exact Iff.rfl
    have behind : (ms.step call).elim True
        (fun next => Along step (OnSeek SeekExact) next.2 calls) ↔
        (ms.step call).elim True fun next => Along step (OnSeek SeekFits) next.2 calls := by
      cases ms.step call with
      | none => exact Iff.rfl
      | some next => exact inductionHypothesis next.2
    rw [Along, Along, here, behind]

end MemStream

/-- A system on which only the memory of the caller is there. -/
def callerMemory (size : Nat) : System size := ⟨true, none, none⟩

/-- The position 2 ^ 32 of four bytes is taken for their beginning. -/
theorem seek_wraps : ∃ ms, fmemopen (callerMemory 4) (some ⟨[97, 98, 99, 100], rfl⟩) (ascii "r") = some (.ok ms) ∧
    ms.mstreamSeek (2 ^ 32) .set = ({ value := 0 }, ms) ∧ ¬ms.SeekExact (2 ^ 32) .set :=
  ⟨⟨[97, 98, 99, 100], 4, 4, 0, 1⟩, by rfl, by decide +kernel, by decide +kernel⟩

/-! ## Streams that only write -/

/-- The mode begins with `w` or `a` and has no `+`. -/
structure WritesOnly (type : Bytes) : Prop where
  letter : (cstr type).head? = some 119 ∨ (cstr type).head? = some 97
  plain : ¬Updating type

theorem typeToFlags_writesOnly {type : Bytes} (accepted : typeToFlags type ≠ 0)
    (mode : WritesOnly type) :
    typeToFlags type ∈ [msWrite ||| msTruncate, msAppend] := by
  cases type with
  | nil => exact absurd rfl accepted
  | cons cp rest =>
    have letter := mode.letter
    have nonzero : cp ≠ 0 := by
      rintro rfl
      simp [cstr] at letter
    rw [cstr_cons nonzero, List.head?_cons, Option.some.injEq, Option.some.injEq] at letter
    have plain : ¬Updating rest :=
      fun plus => mode.plain
      (by rw [Updating, cstr_cons nonzero]; exact List.mem_cons_of_mem _ plus)
    obtain rfl | rfl := letter
    · change typeToFlagsLoop (msWrite ||| msTruncate) rest ≠ 0 at accepted
      change typeToFlagsLoop (msWrite ||| msTruncate) rest ∈ _
      rw [typeToFlagsLoop_rest (by decide) accepted, if_neg plain]
      simp
    · change typeToFlagsLoop msAppend rest ≠ 0 at accepted
      change typeToFlagsLoop msAppend rest ∈ _
      rw [typeToFlagsLoop_rest (by decide) accepted, if_neg plain]
      simp

namespace MemStream

/-- The stream writes, and it does not read. -/
def Writes (ms : MemStream) : Prop := ms.flags ∈ [msWrite ||| msTruncate, msAppend]

/-- Where `mstream_write` puts the NUL in the end. -/
def nulPlace (ms : MemStream) : Nat := if ms.curpos < ms.rsize then ms.curpos else ms.rsize - 1

/-- What a write has to leave: the bytes it says it has written, everything else that counted
before, and a NUL that is put in neither. -/
structure Keeps (ms : MemStream) (data : Bytes) (nw : Nat) (ms' : MemStream) : Prop where
  written : ∀ i < nw, ms'.buf[ms.writeOff + i]? = data[i]?
  unchanged : ∀ i < ms.vsize, i < ms.writeOff ∨ ms.writeOff + nw ≤ i → ms'.buf[i]? = ms.buf[i]?
  nul : ms.writeOff + nw ≤ ms'.nulPlace

/-- A write returns the number of bytes that there is room for, and keeps what it has to keep. -/
def WriteKeeps (ms : MemStream) (data : Bytes) : Prop :=
  ∃ ms', ms.mstreamWrite data data.length =
    some ({ value := (min data.length (ms.rsize - ms.writeOff) : Nat) }, ms') ∧
    ms.Keeps data (min data.length (ms.rsize - ms.writeOff)) ms'

/-- The data ends before the memory does, and behind everything that counts or at a NUL. -/
def WriteFits (ms : MemStream) (data : Bytes) : Prop :=
  let stop := ms.writeOff + min data.length (ms.rsize - ms.writeOff)
  stop < ms.rsize ∧ (ms.vsize ≤ stop ∨ ms.buf[stop]? = some 0)

variable {ms : MemStream} {size : Nat}

theorem Writes.masks (writes : ms.Writes) :
    ms.flags &&& msRead = 0 ∧ ms.flags &&& (msAppend ||| msWrite) ≠ 0 ∧
    ms.flags &&& (msWrite ||| msAppend) ≠ 0 ∧
      ms.flags &&& (msRead ||| msWrite) ≠ msRead ||| msWrite := by
  have all : ∀ flags ∈ [msWrite ||| msTruncate, msAppend], flags &&& msRead = 0 ∧
      flags &&& (msAppend ||| msWrite) ≠ 0 ∧
      flags &&& (msWrite ||| msAppend) ≠ 0 ∧
        flags &&& (msRead ||| msWrite) ≠ msRead ||| msWrite := by decide
  exact all ms.flags writes

theorem Writes.extend_eq (writes : ms.Writes) :
    ms.extend = some { ms with vsize := max ms.vsize ms.curpos } := by
  rw [extend]
  by_cases grows : ms.curpos > ms.vsize
  · have plain : ¬(ms.flags &&& (msRead ||| msWrite) = msRead ||| msWrite ∧ ms.curpos < ms.rsize) :=
        fun both =>
      writes.masks.2.2.2 both.1
    simp only [if_pos grows, if_neg plain, Nat.max_eq_right (Nat.le_of_lt grows)]
  · rw [if_neg grows, Nat.max_eq_left (Nat.le_of_not_lt grows)]

theorem Writes.terminate_eq (writes : ms.Writes) (length : ms.buf.length = ms.rsize)
    (positive : 0 < ms.rsize) :
    ms.terminate = some { ms with buf := ms.buf.set ms.nulPlace 0 } := by
  have masks := writes.masks
  rw [terminate, if_pos ⟨masks.2.2.1, masks.1⟩, nulPlace]
  by_cases inside : ms.curpos < ms.rsize
  · rw [if_pos inside, if_pos inside, store_eq (by omega)]
    rfl
  · rw [if_neg inside, if_neg inside, store_eq (by omega)]
    rfl

/-- The stream behind a write. -/
def written (ms : MemStream) (data : Bytes) : MemStream :=
  { ms.copied data with
    buf := (ms.copied data).buf.set (ms.copied data).nulPlace 0
    vsize := max ms.vsize (ms.copied data).curpos }

theorem mstreamWrite_writes (inv : ms.Inv size) (writes : ms.Writes) {data : Bytes}
    (fits : data.length < 2 ^ 31) :
    ms.mstreamWrite data data.length =
      some ({ value := (min data.length (ms.rsize - ms.writeOff) : Nat) }, ms.written data) := by
  have place := writeOff_le inv
  have calls := mstreamWrite_eq inv fits writes.masks.2.1
  obtain ⟨rsize, length, positive, small, position, extent⟩ := inv
  have most := List.length_take_le (ms.rsize - ms.writeOff) data
  have width : (ms.copied data).buf.length = ms.rsize := by
    simp only [copied]
    rw [length_overwrite (by omega)]
    omega
  have copied : (ms.copied data).Writes := writes
  let grown : MemStream := { ms.copied data with vsize := max ms.vsize (ms.copied data).curpos }
  have extended : (ms.copied data).extend = some grown := copied.extend_eq
  have grownWrites : grown.Writes := copied
  have terminated : grown.terminate = some (ms.written data) :=
    grownWrites.terminate_eq width (Nat.lt_of_lt_of_eq positive rsize.symm)
  rw [calls, extended, Option.bind_some, terminated, List.length_take, Nat.min_comm]
  rfl

/-- The cursor behind a write is where the data ends. -/
theorem copied_curpos (ms : MemStream) (data : Bytes) :
    (ms.copied data).curpos = ms.writeOff + min data.length (ms.rsize - ms.writeOff) := by
  rw [copied, List.length_take, Nat.min_comm]

/-- The bytes of the memory behind a write, the NUL first. -/
theorem getElem?_written (inv : ms.Inv size) (data : Bytes) (i : Nat) : (ms.written data).buf[i]? =
    if i = (ms.copied data).nulPlace then some 0
    else if ms.writeOff ≤ i ∧
      i < (ms.copied data).curpos then data[i - ms.writeOff]? else ms.buf[i]? := by
  have place := writeOff_le inv
  have curpos := ms.copied_curpos data
  obtain ⟨rsize, length, positive, small, position, extent⟩ := inv
  have front : ms.writeOff ≤ ms.buf.length := by omega
  have width : (data.take (ms.rsize - ms.writeOff)).length =
      min data.length (ms.rsize - ms.writeOff) := by
    rw [List.length_take, Nat.min_comm]
  by_cases nul : i = (ms.copied data).nulPlace
  · have inside : i < (ms.copied data).buf.length := by
      rw [nul, nulPlace, show (ms.copied data).buf = overwrite _ _ _ from rfl,
        length_overwrite front, width, curpos,
        show (ms.copied data).rsize = ms.rsize from rfl]
      split <;> omega
    rw [if_pos nul, written, ← nul, List.getElem?_set_self inside]
  · rw [if_neg nul, written, List.getElem?_set_ne (Ne.symm nul)]
    change (overwrite ms.buf ms.writeOff _)[i]? = _
    by_cases inside : ms.writeOff ≤ i ∧ i < (ms.copied data).curpos
    · obtain ⟨k, rfl⟩ := Nat.exists_eq_add_of_le inside.1
      rw [if_pos inside, Nat.add_sub_cancel_left, getElem?_overwrite front (by omega),
        List.getElem?_take_of_lt (by omega)]
    · rw [if_neg inside, getElem?_overwrite_outside front (by omega)]

/-- The NUL is behind the data if there is room for it. -/
theorem nulPlace_copied (inv : ms.Inv size) (data : Bytes) :
    (ms.copied data).curpos ≤ (ms.copied data).nulPlace ↔
    (ms.copied data).curpos < ms.rsize := by
  have positive := inv.positive
  have rsize := inv.rsize
  rw [nulPlace, show (ms.copied data).rsize = ms.rsize from rfl]
  split <;> omega

theorem writeKeeps_iff (inv : ms.Inv size) (writes : ms.Writes) {data : Bytes}
    (fits : data.length < 2 ^ 31) :
    ms.WriteKeeps data ↔ ms.WriteFits data := by
  have calls := mstreamWrite_writes inv writes fits
  have bytes := getElem?_written inv data
  have behind := nulPlace_copied inv data
  have curpos := ms.copied_curpos data
  have place : (ms.written data).nulPlace = (ms.copied data).nulPlace := rfl
  unfold WriteKeeps WriteFits
  rw [← curpos]
  set nw := min data.length (ms.rsize - ms.writeOff)
  constructor
  · intro ⟨ms', calls', keeps⟩
    rw [calls, Option.some.injEq, Prod.mk.injEq] at calls'
    obtain rfl := calls'.2
    have nul := keeps.nul
    rw [← curpos, place, behind] at nul
    refine ⟨nul, ?_⟩
    by_cases grows : ms.vsize ≤ (ms.copied data).curpos
    · exact .inl grows
    · -- the NUL has been put at a byte that counted: it was one already
      have same := keeps.unchanged (ms.copied data).curpos (by omega) (.inr (by omega))
      have here : (ms.copied data).curpos = (ms.copied data).nulPlace := by
        rw [nulPlace, if_pos (show (ms.copied data).curpos < (ms.copied data).rsize from nul)]
      rw [bytes, if_pos here] at same
      exact .inr same.symm
  · intro ⟨room, spare⟩
    have here : (ms.copied data).nulPlace = (ms.copied data).curpos := by
      rw [nulPlace, if_pos (show (ms.copied data).curpos < (ms.copied data).rsize from room)]
    refine ⟨ms.written data, calls, fun i inside => ?_, fun i counted outside => ?_, ?_⟩
    · rw [bytes, if_neg (by omega), if_pos (by omega), Nat.add_sub_cancel_left]
    · rw [bytes]
      by_cases nul : i = (ms.copied data).nulPlace
      · rw [if_pos nul, nul, here]
        obtain behind | zero := spare
        · omega
        · exact zero.symm
      · rw [if_neg nul, if_neg (by omega)]
    · rw [place, here, curpos]

/-! ## A series of calls -/

/-- Every seek, wherever it goes, leaves the cursor in the part that counts. -/
theorem Inv.seek (inv : ms.Inv size) (pos : Int) (whence : Whence) :
    (ms.mstreamSeek pos whence).2.Inv size := by
  rw [mstreamSeek_off]
  set off := cInt (seekTarget ms.vsize ms.curpos pos whence)
  by_cases inside : 0 ≤ off ∧ off ≤ ms.vsize
  · simp only [if_pos inside]
    exact ⟨inv.rsize, inv.length, inv.positive, inv.small,
      show off.toNat ≤ ms.vsize by omega, inv.extent⟩
  · simp only [if_neg inside]
    exact inv

theorem Inv.write (inv : ms.Inv size) (data : Bytes) : (ms.written data).Inv size := by
  have place := writeOff_le inv
  have curpos := ms.copied_curpos data
  obtain ⟨rsize, length, positive, small, position, extent⟩ := inv
  refine ⟨rsize, ?_, positive, small, Nat.le_max_right _ _, ?_⟩
  · rw [written, List.length_set, copied, length_overwrite (by omega), List.length_take]
    omega
  · rw [written, curpos]
    exact Nat.max_le.2 ⟨extent, by omega⟩

/-- A stream that only writes, between two calls. -/
structure Writing (size : Nat) (ms : MemStream) : Prop where
  inv : ms.Inv size
  writes : ms.Writes

/-- The length of the data is an `int`. -/
def LengthFits : BoundedFile.Call UInt8 → Prop
  | .write data => data.length < 2 ^ 31
  | _ => True

theorem Writing.step (writing : Writing size ms) (call : BoundedFile.Call UInt8)
    (fits : LengthFits call) :
    ∃ answer ms', ms.step call = some (answer, ms') ∧ Writing size ms' := by
  obtain ⟨inv, writes⟩ := writing
  cases call with
  | read len => exact ⟨_, ms, if_pos writes.masks.1, inv, writes⟩
  | write data => exact ⟨_, _, mstreamWrite_writes inv writes fits, inv.write data, writes⟩
  | seek pos whence =>
    have flags : (ms.mstreamSeek pos whence).2.flags = ms.flags := by
      rw [mstreamSeek_off]
      simp only
      split <;> rfl
    have kept : (ms.mstreamSeek pos whence).2.Writes := by
      rw [Writes, flags]
      exact writes
    exact ⟨_, _, rfl, inv.seek pos whence, kept⟩

/-- The test of a write, for the calls that are writes. -/
def OnWrite (test : MemStream → Bytes → Prop) (ms : MemStream) : BoundedFile.Call UInt8 → Prop
  | .write data => test ms data
  | _ => True

end MemStream

section Opening

variable {size : Nat} {system : System size} {buf : Option (Block size)} {type : Bytes}
    {ms : MemStream}

/-- The flags of a stream are those with which its memory was found. -/
theorem attach_of_fmemopen (opens : fmemopen system buf type = some (.ok ms)) :
    typeToFlags type ≠ 0 ∧
    ∃ ms', attach system buf (typeToFlags type) = some (.ok ms') ∧ ms.flags = ms'.flags := by
  unfold fmemopen at opens
  by_cases empty : size = 0
  · simp [empty] at opens
  cases allocated : system.memstream with
  | false => simp [empty, allocated] at opens
  | true =>
    by_cases refused : typeToFlags type = 0
    · simp [empty, allocated, refused] at opens
    simp only [empty, allocated, refused, Bool.not_true, Bool.false_eq_true, if_false,
      Option.bind_eq_bind,
      Option.bind_eq_some_iff] at opens
    obtain ⟨_ | ms', attaches, returns⟩ := opens
    · cases returns
    · refine ⟨refused, ms', attaches, ?_⟩
      cases opened : system.funopen with
      | some errno => simp [opened] at returns
      | none =>
        simp only [opened] at returns
        cases returns
        rfl

/-- A stream that has memory of its own is one that updates. -/
theorem flags_of_fmemopen (plain : typeToFlags type &&& (msRead ||| msWrite) ≠ msRead ||| msWrite)
    (opens : fmemopen system buf type = some (.ok ms)) : ms.flags = typeToFlags type := by
  obtain ⟨-, ms', attaches, same⟩ := attach_of_fmemopen opens
  rw [same]
  cases buf with
  | none => simp [attach, plain] at attaches
  | some block =>
    obtain ⟨curpos, -, found⟩ := Option.map_eq_some_iff.1 attaches
    cases found
    rfl

theorem writing_of_fmemopen (small : size < 2 ^ 31) (mode : WritesOnly type)
    (opens : fmemopen system buf type = some (.ok ms)) :
    MemStream.Writing size ms := by
  obtain ⟨result, returns, opened⟩ := fmemopen_opened small system buf type
  rw [opens, Option.some.injEq] at returns
  have opened := opened ms returns.symm
  have flags := typeToFlags_writesOnly (attach_of_fmemopen opens).1 mode
  have atOpen : MemStream.Writes { ms with flags := typeToFlags type } := flags
  have plain := atOpen.masks.2.2.2
  exact ⟨opened.inv, by rw [MemStream.Writes, flags_of_fmemopen plain opens]; exact flags⟩

/-- In every series of calls on a stream that only writes: no access leaves the memory, and the
writes keep what they have to keep just when each of them ends before the memory does, behind all
that counts or at a NUL. -/
theorem writes_kept_iff (small : size < 2 ^ 31) (mode : WritesOnly type)
    (opens : fmemopen system buf type = some (.ok ms))
    {calls : List (BoundedFile.Call UInt8)} (fits : ∀ call ∈ calls, MemStream.LengthFits call) :
    (dialogue MemStream.step ms calls).isSome ∧
      (Along MemStream.step (MemStream.OnWrite MemStream.WriteKeeps) ms calls ↔
      Along MemStream.step (MemStream.OnWrite MemStream.WriteFits) ms calls) := by
  have start := writing_of_fmemopen small mode opens
  have one : ∀ (s : MemStream) call, MemStream.Writing size s → MemStream.LengthFits call →
      ∃ answer s', s.step call = some (answer, s') ∧ MemStream.Writing size s' :=
    fun _ call writing fits => writing.step call fits
  obtain ⟨replies, ms', runs, -⟩ := dialogue_keeps one start fits
  refine ⟨by rw [runs, Option.isSome_some], along_iff one (fun s call writing fits => ?_) start fits⟩
  cases call with
  | write data => exact MemStream.writeKeeps_iff writing.inv writing.writes fits
  | read len => exact Iff.rfl
  | seek pos whence => exact Iff.rfl

end Opening

instance (ms : MemStream) (data : Bytes) : Decidable (ms.WriteFits data) :=
  inferInstanceAs (Decidable (_ ∧ _))

instance (ms : MemStream) :
    (call : BoundedFile.Call UInt8) → Decidable (MemStream.OnWrite MemStream.WriteFits ms call)
  | .write data => inferInstanceAs (Decidable (ms.WriteFits data))
  | .read _ => .isTrue trivial
  | .seek _ _ => .isTrue trivial

/-- "ab", and then "cd" from its second byte on, in memory of eight bytes. -/
theorem writes_kept_iff_overlap : ∃ ms,
    fmemopen (callerMemory 8) (some ⟨List.replicate 8 7, rfl⟩) (ascii "w") = some (.ok ms) ∧
      Along MemStream.step (MemStream.OnWrite MemStream.WriteKeeps) ms [.write (ascii "ab"), .seek 1 .set, .write (ascii "cd")] := by
  have opens : fmemopen (callerMemory 8) (some ⟨List.replicate 8 7, rfl⟩) (ascii "w") =
      some (.ok ⟨List.replicate 8 7, 8, 0, 0, 10⟩) := by rfl
  have mode : WritesOnly (ascii "w") := ⟨by decide, by decide⟩
  have fits : ∀ call ∈ [BoundedFile.Call.write (ascii "ab"), .seek 1 .set, .write (ascii "cd")], MemStream.LengthFits call := by
    simp [MemStream.LengthFits, ascii]
  exact ⟨_, opens, (writes_kept_iff (show 8 < 2 ^ 31 by decide) mode opens fits).2.mpr
    (by decide +kernel)⟩

/-- Four bytes fill the memory, and a NUL takes the place of the last one. -/
theorem write_loses_byte : ∃ ms ms',
    fmemopen (callerMemory 4) (some ⟨List.replicate 4 7, rfl⟩) (ascii "w") = some (.ok ms) ∧
      ms.mstreamWrite (ascii "abcd") 4 = some ({ value := 4 }, ms') ∧ ms'.buf = ascii "abc" ++ [0] ∧
      ¬Along MemStream.step (MemStream.OnWrite MemStream.WriteKeeps) ms [.write (ascii "abcd")] := by
  have calls : MemStream.mstreamWrite (ascii "abcd") 4 ⟨List.replicate 4 7, 4, 0, 0, 10⟩ =
      some ({ value := 4 }, ⟨ascii "abc" ++ [0], 4, 4, 4, 10⟩) := by decide +kernel
  refine ⟨⟨List.replicate 4 7, 4, 0, 0, 10⟩, ⟨ascii "abc" ++ [0], 4, 4, 4, 10⟩, by rfl, calls, rfl, ?_⟩
  intro ⟨⟨ms', calls', keeps⟩, _⟩
  have same := calls.symm.trans calls'
  rw [Option.some.injEq, Prod.mk.injEq] at same
  obtain rfl := same.2
  exact absurd (keeps.written 3 (by decide)) (by decide)

end Apue.Exercises
