import Apue.Db.Format
import Apue.Db.Locks

/-! # The index file as a value

The pointers of the table and the index records, found by their offsets in the file.  The free-list
pointer and the chain pointers of the table and the pointers of the records are cells of one memory:
`ptrAt` reads a cell and `setPtr` is what `_db_writeptr` does.
-/

namespace Apue.Db

open Apue.Base

structure Image where
  /-- The free-list pointer, then the chain pointers. -/
  heads : List Nat
  recs : List Entry

namespace Image

def bytes (img : Image) : Bytes := tiles encPtr img.heads ++ [newline] ++ tiles Entry.enc img.recs

/-- The size of the file. -/
def size (img : Image) : Nat := recordsOff + (tiles Entry.enc img.recs).length

def entryAt (img : Image) (x : Nat) : Option Entry :=
  if x < recordsOff then none else tileAt Entry.enc img.recs (x - recordsOff)

def ptrAt (img : Image) (off : Nat) : Option Nat :=
  if off < recordsOff then tileAt encPtr img.heads off else (img.entryAt off).map Entry.ptr

def setEntry (img : Image) (x : Nat) (e : Entry) : Image :=
  { img with recs := setTile Entry.enc img.recs (x - recordsOff) e }

def setPtr (img : Image) (off v : Nat) : Image :=
  if off < recordsOff then { img with heads := setTile encPtr img.heads off v }
  else match img.entryAt off with
    | some e => img.setEntry off (e.withPtr v)
    | none => img

def append (img : Image) (e : Entry) : Image := { img with recs := img.recs ++ [e] }

structure Ok (img : Image) : Prop where
  table : img.heads.length = nhashDef + 1
  heads : ∀ v ∈ img.heads, v ≤ ptrMax
  recs : ∀ e ∈ img.recs, e.Ok

/-- The table is whole, and its pointers and the records are as they should be. -/
structure All (P : Entry → Prop) (img : Image) : Prop where
  table : img.heads.length = nhashDef + 1
  heads : ∀ v ∈ img.heads, v ≤ ptrMax
  recs : ∀ e ∈ img.recs, P e

variable {img : Image} {x y off v : Nat} {e e' : Entry} {P : Entry → Prop}

theorem Ok.all (ok : img.Ok) : img.All Entry.Ok := ⟨ok.table, ok.heads, ok.recs⟩

theorem All.ok (all : img.All Entry.Ok) : img.Ok := ⟨all.table, all.heads, all.recs⟩

theorem encPtr_solid (n : Nat) : 0 < (encPtr n).length := by simp

theorem tiles_encPtr_length (heads : List Nat) :
    (tiles encPtr heads).length = heads.length * 7 := by
  induction heads with
  | nil => rfl
  | cons n heads inductionHypothesis =>
    simp only [tiles, List.flatMap_cons, List.length_append, encPtr_length, List.length_cons] at *
    omega

theorem header_length (table : img.heads.length = nhashDef + 1) :
    (tiles encPtr img.heads ++ [newline]).length = recordsOff := by
  rw [List.length_append, tiles_encPtr_length, table]
  rfl

theorem bytes_length (table : img.heads.length = nhashDef + 1) : img.bytes.length = img.size := by
  rw [bytes, List.length_append, header_length table, size]

theorem Ok.bytes_length (ok : img.Ok) : img.bytes.length = img.size := Image.bytes_length ok.table

/-! ## Records -/

theorem entryAt_records (found : img.entryAt x = some e) : recordsOff ≤ x := by
  unfold entryAt at found
  split at found
  · simp at found
  · omega

theorem entryAt_tile (found : img.entryAt x = some e) :
    tileAt Entry.enc img.recs (x - recordsOff) = some e := by
  unfold entryAt at found
  split at found
  · simp at found
  · exact found

theorem entryAt_mem (found : img.entryAt x = some e) : e ∈ img.recs := by
  obtain ⟨before, after, split, _⟩ := tileAt_split (entryAt_tile found)
  simp [split]

theorem All.entry (all : img.All P) (found : img.entryAt x = some e) : P e :=
  all.recs e (entryAt_mem found)

theorem Ok.entry (ok : img.Ok) (found : img.entryAt x = some e) : e.Ok := ok.all.entry found

theorem entryAt_bound (found : img.entryAt x = some e) : x + 11 + e.text.length ≤ img.size := by
  have := tileAt_bound (entryAt_tile found)
  have := entryAt_records found
  rw [e.enc_length] at *
  unfold size
  omega

theorem entryAt_hasAt (table : img.heads.length = nhashDef + 1) (found : img.entryAt x = some e) :
    HasAt img.bytes x e.enc := by
  have start := entryAt_records found
  obtain ⟨before, after, split, length⟩ := tileAt_hasAt (entryAt_tile found)
  refine ⟨tiles encPtr img.heads ++ [newline] ++ before, after, ?_, ?_⟩
  · rw [bytes, split]
    simp
  · rw [List.length_append, header_length table, length]
    omega

theorem Ok.entryAt_hasAt (ok : img.Ok) (found : img.entryAt x = some e) : HasAt img.bytes x e.enc :=
  Image.entryAt_hasAt ok.table found

theorem entryAt_size (img : Image) : img.entryAt img.size = none := by
  rw [entryAt, if_neg (by unfold size; omega), size, Nat.add_sub_cancel_left]
  exact tileAt_end Entry.enc_solid _

/-- After a record comes the next one, or the end of the file. -/
theorem entryAt_next (found : img.entryAt x = some e) :
    x + 11 + e.text.length = img.size ∨ ∃ e', img.entryAt (x + 11 + e.text.length) = some e' := by
  have start := entryAt_records found
  have shift : x + 11 + e.text.length = recordsOff + (x - recordsOff + e.enc.length) := by
    rw [e.enc_length]
    omega
  rcases tileAt_next Entry.enc_solid (entryAt_tile found) with last | ⟨e', next⟩
  · exact .inl (by rw [shift, last, size])
  · refine .inr ⟨e', ?_⟩
    rw [shift, entryAt, if_neg (by omega), Nat.add_sub_cancel_left]
    exact next

theorem entryAt_apart (found : img.entryAt x = some e) (found' : img.entryAt y = some e')
    (less : x < y) :
    x + 11 + e.text.length ≤ y := by
  have := entryAt_records found
  have := tileAt_apart (entryAt_tile found) (entryAt_tile found') (by omega)
  rw [e.enc_length] at this
  omega

theorem entryAt_setEntry (found : img.entryAt x = some e) (same : e'.text.length = e.text.length) :
    (img.setEntry x e').entryAt y = if y = x then some e' else img.entryAt y := by
  have start := entryAt_records found
  have lengths : e'.enc.length = e.enc.length := by rw [e.enc_length, e'.enc_length, same]
  unfold entryAt setEntry
  dsimp only
  by_cases here : y = x
  · rw [if_pos here, here, if_neg (by omega)]
    exact tileAt_setTile_self Entry.enc_solid (entryAt_tile found)
  · rw [if_neg here]
    split
    · rfl
    · exact tileAt_setTile_other (entryAt_tile found) lengths (by omega)

theorem setEntry_size (found : img.entryAt x = some e) (same : e'.text.length = e.text.length) :
    (img.setEntry x e').size = img.size := by
  have lengths : e'.enc.length = e.enc.length := by rw [e.enc_length, e'.enc_length, same]
  unfold size setEntry
  dsimp only
  rw [tiles_setTile_length Entry.enc_solid (entryAt_tile found) lengths]

theorem write_entry (table : img.heads.length = nhashDef + 1) (found : img.entryAt x = some e)
    (same : e'.text.length = e.text.length) :
    writeAt img.bytes x e'.enc = (img.setEntry x e').bytes := by
  have start := entryAt_records found
  have lengths : e'.enc.length = e.enc.length := by rw [e.enc_length, e'.enc_length, same]
  have written := tiles_setTile Entry.enc_solid (entryAt_tile found) lengths
    (tiles encPtr img.heads ++ [newline]) []
  rw [header_length table, List.append_nil, List.append_nil, Nat.add_sub_cancel' start] at written
  exact written

theorem Ok.write_entry (ok : img.Ok) (found : img.entryAt x = some e)
    (same : e'.text.length = e.text.length) :
    writeAt img.bytes x e'.enc = (img.setEntry x e').bytes := Image.write_entry ok.table found same

/-- A record with the same encoding leaves the file as it is. -/
theorem Ok.setEntry_bytes (ok : img.Ok) (found : img.entryAt x = some e)
    (length : e'.text.length = e.text.length)
    (same : e'.enc = e.enc) : (img.setEntry x e').bytes = img.bytes := by
  rw [← ok.write_entry found length, same]
  obtain ⟨before, after, split, rfl⟩ := ok.entryAt_hasAt found
  rw [split, writeAt_append rfl]

theorem All.setEntry (all : img.All P) (found : img.entryAt x = some e) (holds : P e') :
    (img.setEntry x e').All P := by
  obtain ⟨before, after, split, length⟩ := tileAt_split (entryAt_tile found)
  refine ⟨all.table, all.heads, fun r member => ?_⟩
  have recs := all.recs
  simp only [Image.setEntry, ← length, split, setTile_middle Entry.enc_solid] at member recs
  rcases List.mem_append.1 member with old | new
  · exact recs r (List.mem_append_left _ old)
  · rcases List.mem_cons.1 new with rfl | old
    · exact holds
    · exact recs r (List.mem_append_right _ (List.mem_cons_of_mem _ old))

theorem Ok.setEntry (ok : img.Ok) (found : img.entryAt x = some e) (ok' : e'.Ok) :
    (img.setEntry x e').Ok :=
  (ok.all.setEntry found ok').ok

theorem entryAt_append :
    (img.append e).entryAt x = if x = img.size then some e else img.entryAt x := by
  unfold append entryAt
  dsimp only
  rw [tileAt_append Entry.enc_solid]
  unfold size
  by_cases early : x < recordsOff
  · rw [if_pos early, if_neg (by omega), if_pos early]
  · rw [if_neg early, if_neg early]
    by_cases last : x - recordsOff = (tiles Entry.enc img.recs).length
    · rw [if_pos last, if_pos (by omega)]
    · rw [if_neg last, if_neg (by omega)]

theorem append_bytes : (img.append e).bytes = img.bytes ++ e.enc := by simp [append, bytes, tiles]

theorem append_size : (img.append e).size = img.size + 11 + e.text.length := by
  simp only [append, size, tiles, List.flatMap_append, List.flatMap_cons, List.flatMap_nil,
    List.append_nil,
    List.length_append, e.enc_length]
  omega

theorem All.append (all : img.All P) (holds : P e) : (img.append e).All P := by
  refine ⟨all.table, all.heads, fun r member => ?_⟩
  rcases List.mem_append.1 member with old | new
  · exact all.recs r old
  · rw [List.mem_singleton.1 new]
    exact holds

theorem Ok.append (ok : img.Ok) (ok' : e.Ok) : (img.append e).Ok := (ok.all.append ok').ok

/-! ## Pointers -/

theorem ptrAt_record (found : img.entryAt x = some e) : img.ptrAt x = some e.ptr := by
  rw [ptrAt, if_neg (Nat.not_lt.2 (entryAt_records found)), found]
  rfl

/-- The pointers of the table. -/
theorem ptrAt_slot {i : Nat} (inside : i < nhashDef + 1) :
    img.ptrAt (i * ptrSz) = img.heads[i]? := by
  have low : i * ptrSz < recordsOff := by
    simp only [ptrSz, nhashDef, recordsOff] at *
    omega
  rw [ptrAt, if_pos low]
  exact tileAt_uniform encPtr (by decide) (fun n => encPtr_length n) img.heads i

theorem All.ptrAt_le (all : img.All P) (small : ∀ e, P e → e.ptr ≤ ptrMax)
    (found : img.ptrAt off = some v) : v ≤ ptrMax := by
  unfold ptrAt at found
  split at found
  · obtain ⟨before, after, split, _⟩ := tileAt_split found
    exact all.heads v (by simp [split])
  · obtain ⟨e, here, rfl⟩ := Option.map_eq_some_iff.1 found
    exact small e (all.entry here)

theorem Ok.ptrAt_le (ok : img.Ok) (found : img.ptrAt off = some v) : v ≤ ptrMax :=
  ok.all.ptrAt_le (fun _ ok => ok.ptr) found

theorem ptrAt_hasAt (table : img.heads.length = nhashDef + 1) (found : img.ptrAt off = some v) :
    HasAt img.bytes off (encPtr v) := by
  unfold ptrAt at found
  split at found
  · obtain ⟨before, after, split, length⟩ := tileAt_hasAt found
    exact ⟨before, after ++ [newline] ++
      tiles Entry.enc img.recs, by rw [bytes, split]; simp, length⟩
  · obtain ⟨e, here, rfl⟩ := Option.map_eq_some_iff.1 found
    obtain ⟨before, after, split, length⟩ := entryAt_hasAt table here
    exact ⟨before, encLen e.text.length ++ e.text ++ after, by rw [split, Entry.enc]; simp, length⟩

theorem Ok.ptrAt_hasAt (ok : img.Ok) (found : img.ptrAt off = some v) :
    HasAt img.bytes off (encPtr v) :=
  Image.ptrAt_hasAt ok.table found

theorem write_ptr (table : img.heads.length = nhashDef + 1) (found : img.ptrAt off = some v)
    (v' : Nat) :
    writeAt img.bytes off (encPtr v') = (img.setPtr off v').bytes := by
  have cell := found
  unfold ptrAt at cell
  unfold setPtr
  split at cell
  case isTrue low =>
    rw [if_pos low]
    have written := tiles_setTile encPtr_solid cell (b := v') (by simp)
      [] ([newline] ++ tiles Entry.enc img.recs)
    simpa [bytes] using written
  case isFalse high =>
    obtain ⟨e, here, rfl⟩ := Option.map_eq_some_iff.1 cell
    have sameText : (e.withPtr v').text.length = e.text.length := rfl
    rw [if_neg high, here]
    dsimp only
    rw [← write_entry table here sameText]
    obtain ⟨before, after, split, rfl⟩ := entryAt_hasAt table here
    have whole : before ++ e.enc ++ after = before ++ encPtr e.ptr ++
        (encLen e.text.length ++ e.text ++ after) := by
      simp [Entry.enc]
    have lengths : (e.withPtr v').enc.length = e.enc.length := by
      rw [Entry.enc_length, Entry.enc_length, sameText]
    rw [split, writeAt_append lengths, whole, writeAt_append (by simp)]
    simp [Entry.enc, Entry.withPtr_text]

theorem Ok.write_ptr (ok : img.Ok) (found : img.ptrAt off = some v) (v' : Nat) :
    writeAt img.bytes off (encPtr v') = (img.setPtr off v').bytes :=
      Image.write_ptr ok.table found v'

theorem All.setPtr (all : img.All P) (withPtr : ∀ e u, P e → u ≤ ptrMax → P (e.withPtr u))
    (found : img.ptrAt off = some v)
    {v' : Nat} (small : v' ≤ ptrMax) : (img.setPtr off v').All P := by
  unfold ptrAt at found
  unfold Image.setPtr
  split at found
  case isTrue low =>
    rw [if_pos low]
    obtain ⟨before, after, split, rfl⟩ := tileAt_split found
    have table := all.table
    have heads := all.heads
    rw [split] at table heads
    refine ⟨?_, fun n member => ?_, all.recs⟩
    · simp only [split, setTile_middle encPtr_solid]
      simpa using table
    · simp only [split, setTile_middle encPtr_solid, List.mem_append, List.mem_cons] at member heads
      rcases member with old | rfl | old
      · exact heads n (.inl old)
      · exact small
      · exact heads n (.inr (.inr old))
  case isFalse high =>
    obtain ⟨e, here, rfl⟩ := Option.map_eq_some_iff.1 found
    rw [if_neg high, here]
    exact all.setEntry here (withPtr e v' (all.entry here) small)

theorem Ok.setPtr (ok : img.Ok) (found : img.ptrAt off = some v) {v' : Nat} (small : v' ≤ ptrMax) :
    (img.setPtr off v').Ok :=
  (ok.all.setPtr (fun _ _ ok small => ok.withPtr small) found small).ok

theorem entryAt_setPtr (found : img.ptrAt off = some v) (v' : Nat) :
    (img.setPtr off v').entryAt x = if x = off then (img.entryAt x).map
    (·.withPtr v') else img.entryAt x := by
  unfold ptrAt at found
  unfold setPtr
  split at found
  case isTrue low =>
    rw [if_pos low]
    split
    case isTrue same => simp [entryAt, same, low]
    case isFalse => rfl
  case isFalse high =>
    obtain ⟨e, here, rfl⟩ := Option.map_eq_some_iff.1 found
    have sameText : (e.withPtr v').text.length = e.text.length := rfl
    rw [if_neg high, here]
    dsimp only
    rw [entryAt_setEntry here sameText]
    split
    case isTrue same => simp [same, here]
    case isFalse => rfl

theorem ptrAt_append (img : Image) (low : off < recordsOff) (e : Entry) :
    (img.append e).ptrAt off = img.ptrAt off := by
  rw [ptrAt, ptrAt, if_pos low, if_pos low]
  rfl

theorem ptrAt_setPtr (found : img.ptrAt off = some v) (v' : Nat) :
    (img.setPtr off v').ptrAt y = if y = off then some v' else img.ptrAt y := by
  have entries := entryAt_setPtr (x := y) found v'
  unfold ptrAt at found ⊢
  by_cases lowY : y < recordsOff
  · rw [if_pos lowY, if_pos lowY]
    unfold setPtr
    split at found
    case isTrue low =>
      rw [if_pos low]
      by_cases same : y = off
      · rw [if_pos same, same]
        exact tileAt_setTile_self encPtr_solid found
      · rw [if_neg same]
        exact tileAt_setTile_other found (by simp) same
    case isFalse high =>
      obtain ⟨e, here, rfl⟩ := Option.map_eq_some_iff.1 found
      rw [if_neg high, here, if_neg (by omega)]
      rfl
  · rw [if_neg lowY, if_neg lowY, entries]
    by_cases same : y = off
    · rw [if_pos same, if_pos same, same, Option.map_map]
      rw [same] at lowY
      rw [if_neg lowY] at found
      obtain ⟨e, here, -⟩ := Option.map_eq_some_iff.1 found
      simp [here]
    · rw [if_neg same, if_neg same]

theorem setPtr_size (found : img.ptrAt off = some v) (v' : Nat) :
    (img.setPtr off v').size = img.size := by
  unfold ptrAt at found
  unfold setPtr
  split at found
  case isTrue low => rw [if_pos low]; rfl
  case isFalse high =>
    obtain ⟨e, here, rfl⟩ := Option.map_eq_some_iff.1 found
    rw [if_neg high, here]
    exact setEntry_size here (show (e.withPtr v').text.length = e.text.length from rfl)

end Image

end Apue.Db
