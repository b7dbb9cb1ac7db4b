import Apue.Base.Text
import Apue.Base.Transfer

/-! # Reading and writing a given length

`readn` and `writen` of the library, and `treadn` of the printer's `util.c`, which waits with
`select` before every read.  They are one loop over the call they make.  The descriptor is anything
that answers the calls: with any count up to the number of bytes asked for, with end of file, or
with an error.

The three count in a `size_t` and return a `ssize_t`, where more than `SSIZE_MAX` bytes would be
another number.  The system refuses a `read` or `write` of more than that (`EINVAL`), and the first
call asks for everything, so no such count comes back.
-/

namespace Apue.Lib

open Apue.Base Transfer

variable {σ ε : Type} {n : Nat}

/-- Conversion to `ssize_t`. -/
def ssizeT (z : Int) : Int := z.bmod (2 ^ 64)

def ssizeMax : Nat := 2 ^ 63 - 1

/-! ## Descriptors -/

/-- A descriptor to read from: the bytes of one `read`, none at the end of the file, or its error
number. -/
structure Source (σ ε : Type) where
  read : σ → Nat → Except ε Bytes × σ
  read_bounded : ∀ s nbytes bytes s', read s nbytes = (.ok bytes, s') → bytes.length ≤ nbytes ∧
    bytes.length ≤ ssizeMax

/-- As the system's `read`: more than `SSIZE_MAX` bytes are refused. -/
def Source.Refuses (source : Source σ ε) : Prop :=
  ∀ s nbytes, ssizeMax < nbytes → ∃ error s', source.read s nbytes = (.error error, s')

/-- A descriptor to write to: how many of the bytes one `write` takes, or its error number. -/
structure Sink (σ ε : Type) where
  write : σ → Bytes → Except ε Nat × σ
  write_bounded : ∀ s bytes count s', write s bytes = (.ok count, s') → count ≤ bytes.length ∧
    count ≤ ssizeMax

def Sink.Refuses (sink : Sink σ ε) : Prop :=
  ∀ s bytes, ssizeMax < bytes.length → ∃ error s', sink.write s bytes = (.error error, s')

/-- A descriptor that `select` can wait for, so many seconds; it reports 0 descriptors when they are
over. -/
structure TimedSource (σ ε : Type) extends Source σ ε where
  select : σ → Nat → Except ε Nat × σ
  etime : ε

/-! ## The code -/

/-- `memcpy` to the place `ptr` of a buffer of `n` bytes. -/
def put (buf : Vector UInt8 n) (ptr : Nat) (bytes : Bytes) : Vector UInt8 n :=
  Vector.ofFn fun i => if ptr ≤ i then bytes[i.val - ptr]?.getD buf[i] else buf[i]

/-- `read(fd, ptr, nleft)` -/
def readMove (source : Source σ ε) : Mover (σ × Vector UInt8 n) ε UInt8 := fun (s, buf) ptr nleft =>
  match source.read s nleft with
  | (.error error, s) => (.error error, (s, buf))
  | (.ok bytes, s) => (.ok bytes, (s, put buf ptr bytes))

/-- `write(fd, ptr, nleft)` -/
def writeMove (sink : Sink σ ε) (ptr : Vector UInt8 n) : Mover σ ε UInt8 :=
  writing sink.write ptr.toList

/-- The value returned: -1, or the `size_t` in `n - nleft` as a `ssize_t`. -/
def returned : Except ε Nat → Int
  | .error _ => -1
  | .ok count => ssizeT count

/-- The value returned, the buffer of `n` bytes at `ptr`, and the descriptor. -/
def readn (source : Source σ ε) (s : σ) (n : Nat) (ptr : Vector UInt8 n) :
    Int × Vector UInt8 n × σ :=
  let (result, s, ptr) := transfer (readMove source) n (s, ptr)
  (returned result, ptr, s)

def writen (sink : Sink σ ε) (s : σ) (n : Nat) (ptr : Vector UInt8 n) : Int × σ :=
  let (result, s) := transfer (writeMove sink ptr) n s
  (returned result, s)

def tread (source : TimedSource σ ε) (timout : Nat) (s : σ) (nbytes : Nat) : Except ε Bytes × σ :=
  match source.select s timout with
  | (.error error, s) => (.error error, s)
  | (.ok nfds, s) => if nfds = 0 then (.error source.etime, s) else source.read s nbytes

/-- The descriptor as `tread` reads it. -/
def TimedSource.timed (source : TimedSource σ ε) (timout : Nat) : Source σ ε where
  read := tread source timout
  read_bounded s nbytes bytes s' reads := by
    unfold tread at reads
    split at reads
    · cases reads
    · split at reads
      · cases reads
      · exact source.read_bounded _ _ _ _ reads

def treadn (source : TimedSource σ ε) (s : σ) (nbytes : Nat) (buf : Vector UInt8 nbytes)
    (timout : Nat) :
    Int × Vector UInt8 nbytes × σ := readn (source.timed timout) s nbytes buf

/-! ## What is expected of them -/

/-- The answers of `read`, wherever the bytes are stored. -/
def Source.mover (source : Source σ ε) : Mover σ ε UInt8 := fun s _ nleft => source.read s nleft

/-- The calls ask for what is missing, and the value returned says how many bytes they have
moved. -/
structure Counts (n : Nat) (calls : List (Call ε UInt8)) (rc : Int) : Prop where
  missing : ∀ before call after, calls = before ++ call :: after →
    call.asked = n - (moved before).length
  number : ¬FirstFails calls → rc = (moved calls).length
  whole : (∀ call ∈ calls, call.moved ≠ []) → rc = n
  failed : rc = -1 ↔ FirstFails calls ∧ 0 < n

/-- The bytes that the reads have delivered are in the buffer, in order, and the rest of it is as it
was. -/
def Reads (source : Source σ ε) (s : σ) (buf : Vector UInt8 n)
    (run : Int × Vector UInt8 n × σ) : Prop :=
  ∃ calls, Makes source.mover s calls run.2.2 ∧ Course n 0 calls ∧
    run.2.1.toList = moved calls ++ buf.toList.drop (moved calls).length ∧ Counts n calls run.1

/-- The bytes that the writes have taken are the first of the buffer, in order. -/
def Writes (sink : Sink σ ε) (s : σ) (ptr : Vector UInt8 n) (run : Int × σ) : Prop :=
  ∃ calls, Makes (writeMove sink ptr) s calls run.2 ∧ Course n 0 calls ∧
    moved calls <+: ptr.toList ∧ Counts n calls run.1

/-- What is written to it can be read from it, in order, in any segments. -/
structure Channel (σ ε : Type) extends Source σ ε, Sink σ ε where
  queue : σ → Bytes
  read_front : ∀ s nbytes result s', read s nbytes = (result, s') →
    queue s = result.toOption.getD [] ++ queue s'
  write_behind : ∀ s bytes result s', write s bytes = (result, s') →
    queue s' = queue s ++ bytes.take (result.toOption.getD 0)

/-- What `readn` receives of what `writen` has sent is the beginning of it; it is everything if no
call ends or fails. -/
def RoundTrip (channel : Channel σ ε) (s : σ) (data buf : Vector UInt8 n) : Prop :=
  let written := writen channel.toSink s n data
  let read := readn channel.toSource written.2 n buf
  ∃ sent received, Makes (writeMove channel.toSink data) s sent written.2 ∧ Course n 0 sent ∧
    Makes channel.toSource.mover written.2 received read.2.2 ∧ Course n 0 received ∧
      moved received <+: moved sent ∧
    ((∀ call ∈ sent, call.moved ≠ []) → (∀ call ∈ received, call.moved ≠ []) → read.2.1 = data)

/-! ## One call -/

section Calls

variable {source : Source σ ε} {sink : Sink σ ε} {s s' : σ} {buf buf' ptr : Vector UInt8 n}
    {done : Nat} {bytes : Bytes}
  {call : Call ε UInt8}

theorem put_nil (buf : Vector UInt8 n) (done : Nat) : put buf done [] = buf := by
  ext i inside
  simp [put]

/-- What is stored behind the bytes that have been stored before. -/
theorem put_append (buf : Vector UInt8 n) (done : Nat) (bytes bytes' : Bytes) :
    put buf done (bytes ++ bytes') = put (put buf done bytes) (done + bytes.length) bytes' := by
  ext i inside
  simp only [put, Vector.getElem_ofFn, Fin.getElem_fin]
  by_cases earlier : i < done
  · have before : ¬done + bytes.length ≤ i := by omega
    simp [Nat.not_le.2 earlier, before]
  by_cases behind : done + bytes.length ≤ i
  · have other : bytes.length ≤ i - done := by omega
    simp [Nat.not_lt.1 earlier, behind, List.getElem?_append_right, other, Nat.sub_sub]
  · have inner : i - done < bytes.length := by omega
    simp [Nat.not_lt.1 earlier, behind, List.getElem?_append_left, inner]

theorem put_toList (buf : Vector UInt8 n) (room : bytes.length ≤ n) :
    (put buf 0 bytes).toList = bytes ++ buf.toList.drop bytes.length := by
  apply List.ext_getElem
  · simp
    omega
  · intro i here there
    simp only [put, Vector.getElem_toList, Vector.getElem_ofFn, List.getElem_append]
    by_cases arrived : i < bytes.length
    · simp [arrived]
    · have behind : bytes.length + (i - bytes.length) = i := by omega
      simp [arrived, behind]

/-- A read stores what it delivers. -/
theorem readMove_spec
    (moves : readMove source (s, buf) call.ptr call.asked = (call.result, (s', buf'))) :
    source.mover s call.ptr call.asked = (call.result, s') ∧
      buf' = put buf call.ptr call.moved := by
  unfold readMove at moves
  dsimp only at moves
  rw [Source.mover, Call.moved]
  split at moves
  · rename_i answer
    obtain ⟨failed, rfl, rfl⟩ := by simpa only [Prod.mk.injEq] using moves
    rw [← failed]
    exact ⟨answer, (put_nil buf _).symm⟩
  · rename_i answer
    obtain ⟨delivered, rfl, rfl⟩ := by simpa only [Prod.mk.injEq] using moves
    rw [← delivered]
    exact ⟨answer, rfl⟩

theorem Source.mover_bounded (source : Source σ ε) : Bounded source.mover :=
  fun s _ nleft chunk s' reads =>
  (source.read_bounded s nleft chunk s' reads).1

theorem readMove_bounded (source : Source σ ε) : Bounded (readMove (n := n) source) := by
  rintro ⟨s, buf⟩ done nleft chunk ⟨s', buf'⟩ moves
  exact source.mover_bounded s done nleft chunk s'
    (@readMove_spec _ _ _ _ _ _ _ _ ⟨done, nleft, .ok chunk⟩ moves).1

end Calls

/-! ## The value returned -/

section Returned

variable {calls : List (Call ε UInt8)} {rc : Int}

theorem ssizeT_of_small {count : Nat} (small : count ≤ ssizeMax) : ssizeT count = count := by
  rw [ssizeMax] at small
  apply Int.bmod_eq_of_le <;> omega

theorem ssizeT_le (z : Int) : ssizeT z ≤ ssizeMax := by
  have below : ssizeT z < 2 ^ 63 := Int.bmod_lt (by decide)
  rw [ssizeMax]
  omega

/-- What `returned` makes of the outcome is the count exactly if it is a `ssize_t`. -/
theorem counts_iff (course : Course n 0 calls) :
    Counts n calls (returned (outcome 0 calls)) ↔ (moved calls).length ≤ ssizeMax := by
  constructor
  · intro counts
    by_cases fails : FirstFails calls
    · rw [(course.firstFails fails).2]
      exact Nat.zero_le _
    · have number := counts.number fails
      rw [outcome_of_not_firstFails fails, returned] at number
      have limit := ssizeT_le (moved calls).length
      omega
  · intro small
    have all : (∀ call ∈ calls, call.moved ≠ []) → ¬FirstFails calls := by
      rintro positive ⟨call, rest, error, rfl, failed⟩
      exact positive call List.mem_cons_self (by rw [Call.moved, failed])
    have number : ¬FirstFails calls → returned (outcome 0 calls) = (moved calls).length := by
      intro answered
      rw [outcome_of_not_firstFails answered, returned, ssizeT_of_small small]
    refine ⟨?_, number, ?_, ?_⟩
    · intro before call after split
      obtain ⟨ptr, asked, _⟩ := course.missing split
      rw [asked, ptr, Nat.zero_add]
    · intro positive
      rw [number (all positive), ← course.full positive, Nat.zero_add]
    · constructor
      · intro failed
        by_cases fails : FirstFails calls
        · exact ⟨fails, (course.firstFails fails).1⟩
        · have count := number fails
          omega
      · rintro ⟨fails, _⟩
        obtain ⟨error, failed⟩ := outcome_of_firstFails fails
        rw [failed, returned]

end Returned

/-! ## Whole transfers -/

section Transfers

variable {source : Source σ ε} {sink : Sink σ ε} {s s' : σ} {buf buf' ptr : Vector UInt8 n}
    {done : Nat}
  {calls : List (Call ε UInt8)}

/-- The reads store what they deliver, one behind the other. -/
theorem makes_readMove (makes : Makes (readMove source) (s, buf) calls (s', buf'))
    (course : Course n done calls) :
    Makes source.mover s calls s' ∧ buf' = put buf done (moved calls) := by
  induction course generalizing s buf with
  | whole =>
    cases makes
    exact ⟨.nil _, (put_nil _ _).symm⟩
  | stops short place asked nothing =>
    cases makes with | cons answers rest =>
    cases rest
    obtain ⟨reads, stored⟩ := readMove_spec answers
    rw [stored, place, moved_cons, moved_nil, List.append_nil]
    exact ⟨.cons reads (.nil _), rfl⟩
  | goesOn short place asked something bounded rest inductionHypothesis =>
    cases makes with | @cons _ middle _ _ _ answers makes =>
    obtain ⟨s₁, buf₁⟩ := middle
    obtain ⟨reads, stored⟩ := readMove_spec answers
    obtain ⟨makes, final⟩ := inductionHypothesis makes
    refine ⟨.cons reads makes, ?_⟩
    rw [final, stored, place, moved_cons, put_append]

/-- What `readn` does is one transfer: only the count it returns can be another one. -/
theorem readn_course (source : Source σ ε) (s : σ) (buf : Vector UInt8 n) :
    ∃ calls, Makes source.mover s calls (readn source s n buf).2.2 ∧ Course n 0 calls ∧
      (readn source s n buf).2.1.toList = moved calls ++ buf.toList.drop (moved calls).length ∧
        (readn source s n buf).1 = returned (outcome 0 calls) := by
  obtain ⟨calls, ⟨s', buf'⟩, makes, course, ends⟩ :=
    transfer_course (readMove_bounded source) n (s, buf)
  obtain ⟨reads, stored⟩ := makes_readMove makes course
  have room := course.atMost
  rw [Nat.zero_add] at room
  rw [readn, ends]
  refine ⟨calls, reads, course, ?_, rfl⟩
  rw [stored, put_toList buf room]

theorem writen_course (sink : Sink σ ε) (s : σ) (ptr : Vector UInt8 n) :
    ∃ calls, Makes (writeMove sink ptr) s calls (writen sink s n ptr).2 ∧ Course n 0 calls ∧
      moved calls <+: ptr.toList ∧ (writen sink s n ptr).1 = returned (outcome 0 calls) := by
  obtain ⟨calls, s', makes, course, ends⟩ :=
    transfer_course (writing_bounded sink.write ptr.toList) n s
  rw [writen, writeMove, ends]
  exact ⟨calls, makes, course, makes.front course, rfl⟩

/-- There is only one course, so it is the one whose count has to be right. -/
theorem exists_counts_iff {move : Mover σ ε UInt8} {kept : List (Call ε UInt8) → Prop}
    (makes : Makes move s calls s')
    (course : Course n 0 calls) (keeps : kept calls) :
    (∃ calls', Makes move s calls' s' ∧ Course n 0 calls' ∧ kept calls' ∧
      Counts n calls' (returned (outcome 0 calls))) ↔
      AtMost move s n ssizeMax := by
  constructor
  · rintro ⟨calls', makes', course', _, counts⟩ calls'' s'' makes'' course''
    obtain ⟨rfl, _⟩ := course.unique course' makes makes'
    obtain ⟨rfl, _⟩ := course.unique course'' makes makes''
    exact (counts_iff course).1 counts
  · intro limit
    exact ⟨calls, makes, course, keeps, (counts_iff course).2 (limit calls s' makes course)⟩

theorem reads_iff (source : Source σ ε) (s : σ) (buf : Vector UInt8 n) :
    Reads source s buf (readn source s n buf) ↔ AtMost source.mover s n ssizeMax := by
  obtain ⟨calls, makes, course, stored, rc⟩ := readn_course source s buf
  rw [Reads, rc]
  exact exists_counts_iff makes course stored

theorem writes_iff (sink : Sink σ ε) (s : σ) (ptr : Vector UInt8 n) :
    Writes sink s ptr (writen sink s n ptr) ↔ AtMost (writeMove sink ptr) s n ssizeMax := by
  obtain ⟨calls, makes, course, taken, rc⟩ := writen_course sink s ptr
  rw [Writes, rc]
  exact exists_counts_iff makes course taken

theorem Channel.read_moved (channel : Channel σ ε) {nleft : Nat} {result : Except ε Bytes}
    (moves : channel.toSource.mover s done nleft = (result, s')) :
    channel.queue s = (Call.mk done nleft result).moved ++ channel.queue s' := by
  cases result <;> exact channel.read_front s nleft _ s' moves

/-- What has gone into an empty channel comes out of it, in any segments. -/
theorem roundTrip_of_empty (channel : Channel σ ε) (s : σ) (data buf : Vector UInt8 n)
    (empty : channel.queue s = []) :
    RoundTrip channel s data buf := by
  obtain ⟨sent, writes, course, taken, _⟩ := writen_course channel.toSink s data
  obtain ⟨received, reads, course', stored, _⟩ :=
    readn_course channel.toSource (writen channel.toSink s n data).2 buf
  have queued := writes.written channel.queue channel.write_behind
  have delivered := reads.delivers channel.queue fun _ _ _ _ _ => channel.read_moved
  rw [queued, empty, List.nil_append] at delivered
  have front : moved received <+: moved sent := ⟨_, delivered.symm⟩
  refine ⟨sent, received, writes, course, reads, course', front, ?_⟩
  intro allSent allReceived
  have sentLength : (moved sent).length = n := by rw [← course.full allSent, Nat.zero_add]
  have receivedLength : (moved received).length = n := by
    rw [← course'.full allReceived, Nat.zero_add]
  -- both have moved as many bytes as the buffers hold
  have everything : moved received = data.toList := by
    rw [front.eq_of_length (by rw [receivedLength, sentLength]),
      taken.eq_of_length (by rw [sentLength, Vector.length_toList])]
  rw [receivedLength, List.drop_of_length_le (by simp), List.append_nil, everything] at stored
  exact Vector.toList_inj.1 stored

end Transfers

/-! ## Every length -/

/-- Where `read` refuses to move more than `SSIZE_MAX` bytes there is no such count. -/
theorem reads_of_refuses (source : Source σ ε) (s : σ) (buf : Vector UInt8 n)
    (refuses : source.Refuses) :
    Reads source s buf (readn source s n buf) :=
  (reads_iff source s buf).2 (.of_refused (refuses s n))

theorem writes_of_refuses (sink : Sink σ ε) (s : σ) (ptr : Vector UInt8 n)
    (refuses : sink.Refuses) :
    Writes sink s ptr (writen sink s n ptr) := by
  refine (writes_iff sink s ptr).2 (.of_refused fun large => ?_)
  have whole : (ptr.toList.drop 0).take n = ptr.toList := List.take_of_length_le (by simp)
  obtain ⟨error, s', refused⟩ := refuses s ptr.toList (by simpa using large)
  refine ⟨error, s', ?_⟩
  rw [writeMove, writing, whole, refused]

/-- Waiting with `select` first does not let a longer read through. -/
theorem TimedSource.timed_refuses (source : TimedSource σ ε) (timout : Nat)
    (refuses : source.Refuses) :
    (source.timed timout).Refuses := by
  intro s nbytes large
  simp only [timed, tread]
  cases source.select s timout with
  | mk ready s' =>
    cases ready with
    | error error => exact ⟨error, s', rfl⟩
    | ok nfds =>
      by_cases late : nfds = 0
      · exact ⟨source.etime, s', if_pos late⟩
      · obtain ⟨error, s'', refused⟩ := refuses s' nbytes large
        exact ⟨error, s'', (if_neg late).trans refused⟩

/-- The three functions do what is expected of them for every `n`, and data go through a channel
unchanged. -/
theorem full_length_transfers (source : Source σ ε) (timed : TimedSource σ ε) (sink : Sink σ ε)
    (channel : Channel σ ε)
    (s before : σ) (data buf : Vector UInt8 n) (timout : Nat) (reading : source.Refuses)
    (waiting : timed.Refuses)
    (writing : sink.Refuses) (empty : channel.queue before = []) :
    Reads source s buf (readn source s n buf) ∧
      Reads (timed.timed timout) s buf (treadn timed s n buf timout) ∧
      Writes sink s data (writen sink s n data) ∧ RoundTrip channel before data buf :=
  ⟨reads_of_refuses source s buf reading, reads_of_refuses (timed.timed timout) s buf
    (timed.timed_refuses timout waiting),
    writes_of_refuses sink s data writing, roundTrip_of_empty channel before data buf empty⟩

/-- A pipe that hands out two bytes at a time and takes three. -/
def shortPipe : Channel Bytes Unit where
  read queue nbytes :=
    if ssizeMax < nbytes then (.error (), queue) else (.ok (queue.take (min nbytes 2)),
    queue.drop (min nbytes 2))
  read_bounded queue nbytes bytes queue' reads := by
    split at reads <;> cases reads
    rw [List.length_take]
    omega
  write queue bytes :=
    if ssizeMax < bytes.length then (.error (), queue) else (.ok (min bytes.length 3),
    queue ++ bytes.take 3)
  write_bounded queue bytes count queue' writes := by
    split at writes <;> cases writes
    omega
  queue := id
  read_front queue nbytes result queue' reads := by
    split at reads <;> cases reads
    · rfl
    · exact (List.take_append_drop _ _).symm
  write_behind queue bytes result queue' writes := by
    split at writes <;> cases writes
    · exact (List.append_nil _).symm
    · simp [Except.toOption, List.take_eq_take_iff, Nat.min_comm]

/-- Five bytes in pieces, and in the other direction a pipe that ends after three. -/
theorem full_length_transfers_short :
    let timed : TimedSource Bytes Unit := ⟨shortPipe.toSource, fun queue _ => (.ok 1, queue), ()⟩
    let data : Vector UInt8 5 := #v[1, 2, 3, 4, 5]
    let buf := Vector.replicate 5 0
    (Reads shortPipe.toSource [7, 8, 9] buf (readn shortPipe.toSource [7, 8, 9] 5 buf) ∧
      Reads (timed.timed 1) [7, 8, 9] buf (treadn timed [7, 8, 9] 5 buf 1) ∧
        Writes shortPipe.toSink [7, 8, 9] data (writen shortPipe.toSink [7, 8, 9] 5 data) ∧
          RoundTrip shortPipe [] data buf) ∧
      (readn shortPipe.toSource [7, 8, 9] 5 buf).1 = 3 ∧
        (readn shortPipe.toSource (writen shortPipe.toSink [] 5 data).2 5 buf).2.1 = data := by
  have reading : shortPipe.toSource.Refuses := fun queue nbytes large => ⟨(), queue, if_pos large⟩
  have writing : shortPipe.toSink.Refuses := fun queue bytes large => ⟨(), queue, if_pos large⟩
  exact ⟨full_length_transfers _ ⟨shortPipe.toSource, _, _⟩ _ _ _ _ _ _ 1 reading reading writing
    rfl, by decide, by decide⟩

end Apue.Lib
