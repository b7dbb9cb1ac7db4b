import Apue.Base.LinkedLists
import Apue.Db.Roundtrip

/-! # Where the records are

What stays of the representation invariant when keys are any strings, data is overwritten in any way
and a process stops in the middle of a call.  The index file is the table and then records; the
lists that start in the table are in order and have no record in common; those on the free list are
blank; and the places of the data are inside the data file and apart from each other.  Nothing is
said of the keys on the chains, of the data, and of the records on no list.
-/

namespace Apue.Db

open Apue.Base

/-- The pointers of the table: 0 for the free list, `h + 1` for the chain `h`. -/
abbrev Slot := Fin (nhashDef + 1)

namespace Slot

def off (s : Slot) : Nat := s.val * ptrSz

def ofHash (h : Nat) (real : h < nhashDef) : Slot := ⟨h + 1, Nat.succ_lt_succ real⟩

theorem off_zero : off 0 = freeOff := rfl

theorem off_ofHash {h : Nat} (real : h < nhashDef) : (ofHash h real).off = chainOff h := by
  simp only [off, ofHash, chainOff, hashOff, ptrSz]
  omega

/-- The chain of a key. -/
def ofKey (key : Bytes) : Slot := ofHash (dbHash nhashDef key) (dbHash_lt key)

theorem off_ofKey (key : Bytes) : (ofKey key).off = chainOff (dbHash nhashDef key) :=
  off_ofHash (dbHash_lt key)

theorem off_injective : Function.Injective off := by
  intro s t same
  refine Fin.ext ?_
  simp only [off, ptrSz] at same
  omega

theorem off_lt (s : Slot) : s.off + ptrSz ≤ recordsOff := by
  have := s.isLt
  simp only [off, ptrSz, recordsOff, nhashDef] at *
  omega

theorem ofHash_ne_zero {h : Nat} (real : h < nhashDef) : ofHash h real ≠ 0 := by
  intro same
  cases congrArg Fin.val same

theorem ofKey_ne_zero (key : Bytes) : ofKey key ≠ 0 := ofHash_ne_zero (dbHash_lt key)

end Slot

/-- What `_db_writeidx` writes of a key; a separator in it does not stop it. -/
structure Entry.Written (e : Entry) : Prop where
  ptr : e.ptr ≤ ptrMax
  clean : NulFree e.key
  offset : e.doff < 2 ^ 63
  size : e.dlen ≤ datlenMax
  length : idxlenMin ≤ e.text.length ∧ e.text.length ≤ idxlenMax

theorem Entry.Ok.written {e : Entry} (ok : e.Ok) : e.Written :=
  ⟨ok.ptr, ok.keyClean, ok.doff, ok.dataMax, ok.textMin, ok.textMax⟩

structure Placed (idx dat : Bytes) (img : Image) (lists : Slot → List Nat) : Prop where
  all : img.All Entry.Written
  index : idx = img.bytes
  linked : LinkedLists img.ptrAt Slot.off lists
  records : ∀ s, ∀ x ∈ lists s, ∃ e, img.entryAt x = some e
  blank : ∀ x ∈ lists 0, ∀ e, img.entryAt x = some e → isBlank e.key = true
  inside : ∀ x e, img.entryAt x = some e → e.doff + e.dlen ≤ dat.length
  apart : ∀ x y e e', x ≠ y → img.entryAt x = some e → img.entryAt y = some e' →
    e.doff + e.dlen ≤ e'.doff ∨ e'.doff + e'.dlen ≤ e.doff

/-! ## Represented databases -/

namespace Slot

/-- Whose lock guards the pointer. -/
def place : Slot → Place := Fin.cases .free fun h => .chain h

theorem place_injective : Function.Injective place := by
  intro s t same
  refine Fin.ext ?_
  cases s using Fin.cases <;> cases t using Fin.cases <;> simp_all [place]

end Slot

/-- The list a pointer of the table leads to. -/
def Layout.listAt (d : Layout) : Slot → List Nat := Fin.cases d.free fun h => d.chain h

theorem Layout.members_place (d : Layout) (s : Slot) :
    d.members (.at s.place : Owner Unit) = d.listAt s := by
  cases s using Fin.cases with
  | zero => rfl
  | succ h => exact members_chain h.isLt

theorem DbRep.listed {idx dat : Bytes} {d : Layout} (rep : DbRep idx dat d) {s : Slot} {x : Nat}
    (member : x ∈ d.listAt s) :
    ∃ e, d.img.entryAt x = some e := by
  cases s using Fin.cases with
  | zero => exact rep.freeRecord member
  | succ h => exact rep.record h.isLt member

/-- The records of a represented database are in their places. -/
theorem DbRep.placed {idx dat : Bytes} {d : Layout} (rep : DbRep idx dat d) :
    Placed idx dat d.img d.listAt where
  all := ⟨rep.wellFormed.table, rep.wellFormed.heads,
    fun e member => (rep.wellFormed.recs e member).written⟩
  index := rep.index
  linked :=
    { linked := fun s => by
        cases s using Fin.cases with
        | zero => exact rep.freeList
        | succ h =>
          rw [show Slot.off h.succ = chainOff h from Slot.off_ofHash h.isLt]
          exact rep.chains h h.isLt
      nodup := fun s => d.members_place s ▸ rep.members_nodup _
      one := fun {s t x} member member' => by
        rw [← d.members_place] at member member'
        have same : (Owner.at s.place : Owner Unit) = .at t.place := rep.one member member'
        exact Slot.place_injective (Owner.at.inj same)
      heads := fun s t member => by
        obtain ⟨e, found⟩ := rep.listed member
        have low := s.off_lt
        have high := Image.entryAt_records found
        simp only [ptrSz] at low
        omega
      apart := Slot.off_injective }
  records := fun _ _ => rep.listed
  blank := rep.blank
  inside := fun x e found => by
    have bound := (rep.regions x e found).bound
    rwa [List.length_append] at bound
  apart := rep.apart

/-! ## What writes do to the places -/

variable {idx dat dat' : Bytes} {img : Image} {lists lists' : Slot → List Nat} {s : Slot}
    {before after : List Nat}
  {x y v : Nat} {e e' : Entry}

theorem Entry.Written.withPtr (written : e.Written) (small : v ≤ ptrMax) : (e.withPtr v).Written :=
  ⟨small, written.clean, written.offset, written.size, written.length⟩

theorem Entry.blanked_dlen (e : Entry) (v : Nat) : (e.blanked v).dlen = e.dlen := by
  simp [Entry.blanked, Entry.dlen]

theorem Entry.Written.blanked (written : e.Written) (small : v ≤ ptrMax) : (e.blanked v).Written :=
  ⟨small, nulFree_replicate _, written.offset, e.blanked_dlen v ▸ written.size,
    e.blanked_text v ▸ written.length⟩

theorem Entry.Written.writable (written : e.Written) (plain : sep ∉ e.key) :
    Writable e.key e.ptr e.doff e.dlen where
  clean := written.clean
  plain := plain
  pointer := ⟨Int.natCast_nonneg _, by exact_mod_cast written.ptr⟩
  offset := ⟨Int.natCast_nonneg _, by exact_mod_cast written.offset⟩
  dataLength := ⟨Nat.succ_pos _, written.size⟩
  length := written.length

theorem Entry.enc_assoc (e : Entry) : e.enc = encPtr e.ptr ++ (encLen e.text.length ++ e.text) :=
  List.append_assoc ..

theorem Entry.enc_eq (e : Entry) : e.enc = idxBytes e.key e.ptr e.doff e.dlen := by
  rw [idxBytes, Int.toNat_natCast, e.enc_assoc]
  rfl

/-- A blank key has no separator. -/
theorem sep_notMem_of_isBlank {key : Bytes} (blank : isBlank key = true) : sep ∉ key := by
  intro member
  cases of_decide_eq_true (List.all_eq_true.1 blank sep member)

theorem Image.ptrAt_setEntry (found : img.entryAt x = some e)
    (same : e'.text.length = e.text.length) (other : y ≠ x) :
    (img.setEntry x e').ptrAt y = img.ptrAt y := by
  unfold Image.ptrAt
  split
  · rfl
  · rw [Image.entryAt_setEntry found same, if_neg other]

/-- A pointer that is not that of the record does not overlap it. -/
theorem Image.ptrAt_apart_entry {c u : Nat} (table : img.heads.length = nhashDef + 1)
    (pointer : img.ptrAt c = some u)
    (found : img.entryAt x = some e) (different : c ≠ x) :
    c + ptrSz ≤ x ∨ x + e.enc.length ≤ c := by
  have start := Image.entryAt_records found
  unfold Image.ptrAt at pointer
  split at pointer
  · -- the pointer is in the table
    have bound := tileAt_bound pointer
    rw [Image.tiles_encPtr_length, table, encPtr_length] at bound
    simp only [recordsOff, nhashDef, ptrSz] at *
    omega
  · obtain ⟨d, there, -⟩ := Option.map_eq_some_iff.1 pointer
    rw [e.enc_length]
    obtain below | above := Nat.lt_or_gt_of_ne different
    · have := Image.entryAt_apart there found below
      simp only [ptrSz]
      omega
    · have := Image.entryAt_apart found there above
      omega

/-- Two pointers do not overlap. -/
theorem Image.ptrAt_apart {c d u u' : Nat} (table : img.heads.length = nhashDef + 1)
    (pointer : img.ptrAt c = some u)
    (pointer' : img.ptrAt d = some u') (less : c < d) : c + ptrSz ≤ d := by
  by_cases low : d < recordsOff
  · rw [Image.ptrAt, if_pos (less.trans low)] at pointer
    rw [Image.ptrAt, if_pos low] at pointer'
    have := tileAt_apart pointer pointer' less
    rwa [encPtr_length] at this
  · rw [Image.ptrAt, if_neg low] at pointer'
    obtain ⟨e, found, -⟩ := Option.map_eq_some_iff.1 pointer'
    obtain before | behind := Image.ptrAt_apart_entry table pointer found less.ne
    · exact before
    · omega

namespace Placed

variable (placed : Placed idx dat img lists)
include placed

theorem hasAt (found : img.entryAt x = some e) : HasAt idx x e.enc := by
  rw [placed.index]
  exact Image.entryAt_hasAt placed.all.table found

theorem ptr_hasAt (pointer : img.ptrAt x = some v) : HasAt idx x (encPtr v) := by
  rw [placed.index]
  exact Image.ptrAt_hasAt placed.all.table pointer

/-- The pointer in the table leads to the first record of the list. -/
theorem start (s : Slot) : img.ptrAt s.off = some ((lists s).head?.getD 0) :=
  (placed.linked.linked s).first

theorem small (pointer : img.ptrAt x = some v) : v ≤ ptrMax :=
  placed.all.ptrAt_le (fun _ written => written.ptr) pointer

theorem member_small (member : x ∈ lists s) : x ≤ ptrMax := by
  obtain ⟨cell, pointer⟩ := (placed.linked.linked s).pointed member
  exact placed.small pointer

theorem ne_zero (member : x ∈ lists s) : x ≠ 0 := (placed.linked.linked s).ne_zero member

/-- The pointer of a record on a list leads to the next one. -/
theorem next (split : lists s = before ++ x :: after) (found : img.entryAt x = some e) :
    e.ptr = after.head?.getD 0 := by
  have linked : Linked img.ptrAt s.off (before ++ x :: after) := split ▸ placed.linked.linked s
  exact Option.some.inj ((Image.ptrAt_record found).symm.trans linked.next)

/-- The cell before a record of a list. -/
theorem cell (split : lists s = before ++ x :: after) :
    img.ptrAt (lastCell s.off before) = some x :=
  (split ▸ placed.linked.linked s : Linked img.ptrAt s.off (before ++ x :: after)).at_cell.1

theorem grow (longer : dat.length ≤ dat'.length) : Placed idx dat' img lists :=
  ⟨placed.all, placed.index, placed.linked, placed.records, placed.blank,
    fun x e found => Nat.le_trans (placed.inside x e found) longer, placed.apart⟩

/-- Another pointer in a cell, with the lists that are then in order. -/
theorem setPtr {c : Nat} {u : Nat} (pointer : img.ptrAt c = some u) (small : v ≤ ptrMax)
    (linked : LinkedLists (Function.update img.ptrAt c (some v)) Slot.off lists')
    (records : ∀ s, ∀ x ∈ lists' s, ∃ e, img.entryAt x = some e)
    (blank : ∀ x ∈ lists' 0, ∀ e, img.entryAt x = some e → isBlank e.key = true) :
    Placed (writeAt idx c (encPtr v)) dat (img.setPtr c v) lists' := by
  have entry (y : Nat) :
      (img.setPtr c v).entryAt y = if y = c then (img.entryAt y).map
      (·.withPtr v) else img.entryAt y :=
    Image.entryAt_setPtr pointer v
  -- every record is an old one, up to its pointer
  have old {y : Nat} {d : Entry} (now : (img.setPtr c v).entryAt y = some d) :
      ∃ d', img.entryAt y = some d' ∧ d.key = d'.key ∧ d.doff = d'.doff ∧ d.dlen = d'.dlen := by
    rw [entry] at now
    split at now
    · obtain ⟨d', was, rfl⟩ := Option.map_eq_some_iff.1 now
      exact ⟨d', was, rfl, rfl, rfl⟩
    · exact ⟨d, now, rfl, rfl, rfl⟩
  refine ⟨placed.all.setPtr (fun e u written small => written.withPtr small) pointer small, ?_, ?_,
    fun s y member => ?_,
    fun y member d now => ?_, fun y d now => ?_, fun y z d d' different now now' => ?_⟩
  · rw [placed.index, Image.write_ptr placed.all.table pointer]
  · have cells : (img.setPtr c v).ptrAt = Function.update img.ptrAt c (some v) := by
      funext y
      rw [Image.ptrAt_setPtr pointer, Function.update_apply]
    rw [cells]
    exact linked
  · obtain ⟨d, was⟩ := records s y member
    rw [entry, was]
    split
    · exact ⟨d.withPtr v, rfl⟩
    · exact ⟨d, rfl⟩
  · obtain ⟨d', was, key, -⟩ := old now
    rw [key]
    exact blank y member d' was
  · obtain ⟨d', was, -, doff, dlen⟩ := old now
    rw [doff, dlen]
    exact placed.inside y d' was
  · obtain ⟨f, was, -, doff, dlen⟩ := old now
    obtain ⟨f', was', -, doff', dlen'⟩ := old now'
    rw [doff, dlen, doff', dlen']
    exact placed.apart y z f f' different was was'

/-- A record leaves its list. -/
theorem unlink (split : lists s = before ++ x :: after) (found : img.entryAt x = some e) :
    Placed (writeAt idx (lastCell s.off before) (encPtr e.ptr)) dat
      (img.setPtr (lastCell s.off before) e.ptr)
      (Function.update lists s (before ++ after)) := by
  exact placed.setPtr (placed.cell split) (placed.all.entry found).ptr
    (placed.linked.unlink split (Image.ptrAt_record found))
      (fun t y member => placed.records t y (mem_unlinked split member))
    fun y member => placed.blank y (mem_unlinked split member)

theorem unlink_found (split : lists s = before ++ x :: after) (found : img.entryAt x = some e) :
    (img.setPtr (lastCell s.off before) e.ptr).entryAt x = some e := by
  rw [Image.entryAt_setPtr (placed.cell split),
    if_neg (placed.linked.lastCell_ne_self split).symm, found]

/-- A record that is on no list comes to stand in front of one. -/
theorem push (found : img.entryAt x = some e) (new : ∀ t, x ∉ lists t)
    (next : img.ptrAt s.off = some e.ptr) (small : x ≤ ptrMax)
    (blank : s = 0 → isBlank e.key = true) :
    Placed (writeAt idx s.off (encPtr x)) dat (img.setPtr s.off x)
      (Function.update lists s (x :: lists s)) := by
  have high := Image.entryAt_records found
  refine placed.setPtr next small (placed.linked.push new ?_ ?_ ?_)
    (fun t y member => ?_) fun y member d was => ?_
  · rintro rfl
    simp only [recordsOff, nhashDef, ptrSz] at high
    omega
  · rintro t rfl
    have low := t.off_lt
    simp only [ptrSz] at low
    omega
  · rw [Image.ptrAt_record found, next]
  · obtain ⟨rfl, -⟩ | old := mem_pushed member
    · exact ⟨e, found⟩
    · exact placed.records t y old
  · obtain ⟨rfl, same⟩ | old := mem_pushed member
    · rw [found] at was
      cases was
      exact blank same.symm
    · exact placed.blank y old d was

/-- A record on no list is written over by another of the same length, for data in the same
place. -/
theorem refill (found : img.entryAt x = some e) (new : ∀ t, x ∉ lists t) (written : e'.Written)
    (length : e'.text.length = e.text.length) (region : e'.doff = e.doff ∧ e'.dlen = e.dlen) :
    Placed (writeAt idx x e'.enc) dat (img.setEntry x e') lists := by
  have entry (y : Nat) : (img.setEntry x e').entryAt y = if y = x then some e' else img.entryAt y :=
    Image.entryAt_setEntry found length
  have notListed {t : Slot} {y : Nat} (member : y ∈ lists t) : y ≠ x := by
    rintro rfl
    exact new t member
  have old {y : Nat} {d : Entry} (now : (img.setEntry x e').entryAt y = some d) :
      ∃ d', img.entryAt y = some d' ∧ d.doff = d'.doff ∧ d.dlen = d'.dlen := by
    rw [entry] at now
    split at now
    case isTrue same =>
      cases now
      exact ⟨e, same ▸ found, region⟩
    case isFalse => exact ⟨d, now, rfl, rfl⟩
  refine ⟨placed.all.setEntry found written, ?_, ?_, fun t y member => ?_, fun y member d now => ?_,
    fun y d now => ?_,
    fun y z d d' different now now' => ?_⟩
  · rw [placed.index, Image.write_entry placed.all.table found length]
  · refine placed.linked.congr (fun t => Image.ptrAt_setEntry found length ?_) fun t y member =>
      Image.ptrAt_setEntry found length (notListed member)
    have low := t.off_lt
    have high := Image.entryAt_records found
    simp only [ptrSz] at low
    omega
  · rw [entry, if_neg (notListed member)]
    exact placed.records t y member
  · rw [entry, if_neg (notListed member)] at now
    exact placed.blank y member d now
  · obtain ⟨d', was, doff, dlen⟩ := old now
    rw [doff, dlen]
    exact placed.inside y d' was
  · obtain ⟨f, was, doff, dlen⟩ := old now
    obtain ⟨f', was', doff', dlen'⟩ := old now'
    rw [doff, dlen, doff', dlen']
    exact placed.apart y z f f' different was was'

/-- A record on no list is written over and comes to stand in front of a list. -/
theorem relink (found : img.entryAt x = some e) (new : ∀ t, x ∉ lists t) (written : e'.Written)
    (length : e'.text.length = e.text.length) (region : e'.doff = e.doff ∧ e'.dlen = e.dlen)
    (next : img.ptrAt s.off = some e'.ptr)
    (small : x ≤ ptrMax) (blank : s = 0 → isBlank e'.key = true) :
    Placed (writeAt (writeAt idx x e'.enc) s.off (encPtr x)) dat
      ((img.setEntry x e').setPtr s.off x)
      (Function.update lists s (x :: lists s)) := by
  have found' := Image.entryAt_setEntry (y := x) found length
  rw [if_pos rfl] at found'
  have notHead : s.off ≠ x := by
    have low := s.off_lt
    have high := Image.entryAt_records found
    simp only [ptrSz] at low
    omega
  refine (placed.refill found new written length region).push found' new ?_ small blank
  rw [Image.ptrAt_setEntry found length notHead, next]

/-- The other records are the same. -/
theorem relink_entry (found : img.entryAt x = some e) (length : e'.text.length = e.text.length)
    (different : y ≠ x) {d : Entry}
    (there : img.entryAt y = some d) : ((img.setEntry x e').setPtr s.off x).entryAt y = some d := by
  have low := s.off_lt
  have high := Image.entryAt_records found
  have high' := Image.entryAt_records there
  simp only [ptrSz] at low
  have pointer : (img.setEntry x e').ptrAt s.off = some ((lists s).head?.getD 0) := by
    rw [Image.ptrAt_setEntry found length (by omega), placed.start s]
  rw [Image.entryAt_setPtr pointer, if_neg (by omega), Image.entryAt_setEntry found length,
    if_neg different, there]

/-- A record goes from its chain to the front of the free list: what `_db_dodelete` writes, in its
order. -/
theorem free (chain : s ≠ 0) (split : lists s = before ++ x :: after)
    (found : img.entryAt x = some e) :
    ∃ img' lists', Placed (writeAt (writeAt (writeAt idx x (e.blanked ((lists 0).head?.getD 0)).enc)
      freeOff (encPtr x))
      (lastCell s.off before) (encPtr e.ptr)) dat img' lists' := by
  set head := (lists 0).head?.getD 0 with isHead
  set cell := lastCell s.off before with isCell
  have pointer : img.ptrAt cell = some x := placed.cell split
  have start : img.ptrAt (Slot.off 0) = some head := placed.start 0
  have lengths : (e.blanked head).enc.length = e.enc.length := by
    rw [Entry.enc_length, Entry.enc_length, Entry.blanked_text]
  -- in the order in which the lists stay in order
  have placed₁ := placed.unlink split found
  have new := placed.linked.unlinked split
  have start₁ := placed₁.start 0
  rw [Function.update_of_ne chain.symm] at start₁
  have written := (placed.all.entry found).blanked (placed.small start)
  have placed₂ := placed₁.relink (placed.unlink_found split found) new written (e.blanked_text head)
    ⟨rfl, e.blanked_dlen head⟩ start₁
      (placed.member_small (split ▸ List.mem_append_right _ List.mem_cons_self))
    fun _ => isBlank_replicate _
  -- and in the order of the code
  have cellInside := (placed.ptr_hasAt pointer).bound
  have recordInside := (placed.hasAt found).bound
  have startInside := (placed.ptr_hasAt start).bound
  rw [encPtr_length] at cellInside startInside
  rw [← lengths] at recordInside
  have startCell : Slot.off 0 + ptrSz ≤ cell := Image.ptrAt_apart placed.all.table start pointer
    (Nat.pos_of_ne_zero (placed.linked.lastCell_ne split chain.symm).1.symm)
  have cellRecord : cell + ptrSz ≤ x ∨ x + (e.blanked head).enc.length ≤ cell := by
    rw [lengths]
    exact Image.ptrAt_apart_entry placed.all.table pointer found
      (placed.linked.lastCell_ne_self split)
  have sameIdx : writeAt (writeAt (writeAt idx x (e.blanked head).enc) (Slot.off 0) (encPtr x)) cell
      (encPtr e.ptr) =
      writeAt (writeAt (writeAt idx cell (encPtr e.ptr)) x (e.blanked head).enc) (Slot.off 0)
        (encPtr x) := by
    rw [writeAt_comm (by rw [writeAt_length recordInside, encPtr_length]; exact startInside)
      (by rw [writeAt_length recordInside, encPtr_length]; exact cellInside)
        (by rw [encPtr_length]; exact .inl startCell),
      writeAt_comm recordInside
        (by rw [encPtr_length]; exact cellInside) (by rw [encPtr_length]; exact cellRecord.symm)]
  exact ⟨_, _, sameIdx ▸ placed₂⟩

/-- A record at the end of the file, for data behind all the others. -/
theorem append (written : e.Written) (inside : e.doff + e.dlen ≤ dat.length)
    (behind : ∀ y d, img.entryAt y = some d → d.doff + d.dlen ≤ e.doff) :
    Placed (idx ++ e.enc) dat (img.append e) lists := by
  have entry (y : Nat) :
    (img.append e).entryAt y = if y = img.size then some e else img.entryAt y :=
    Image.entryAt_append
  have listed {t : Slot} {y : Nat} (member : y ∈ lists t) : y ≠ img.size := by
    rintro rfl
    obtain ⟨d, found⟩ := placed.records t _ member
    rw [Image.entryAt_size] at found
    cases found
  refine ⟨placed.all.append written, ?_, ?_, fun t y member => ?_, fun y member d now => ?_,
    fun y d now => ?_,
    fun y z d d' different now now' => ?_⟩
  · rw [placed.index, Image.append_bytes]
  · refine placed.linked.congr (fun t => Image.ptrAt_append img ?_ e) fun t y member => ?_
    · have low := t.off_lt
      simp only [ptrSz] at low
      omega
    · obtain ⟨d, found⟩ := placed.records t y member
      rw [Image.ptrAt_record found, Image.ptrAt_record (e := d)]
      rw [entry, if_neg (listed member)]
      exact found
  · rw [entry, if_neg (listed member)]
    exact placed.records t y member
  · rw [entry, if_neg (listed member)] at now
    exact placed.blank y member d now
  · rw [entry] at now
    split at now
    · cases now
      exact inside
    · exact placed.inside y d now
  · rw [entry] at now now'
    split at now <;> split at now'
    case isTrue.isTrue here there => exact absurd (here.trans there.symm) different
    case isTrue.isFalse =>
      cases now
      exact .inr (behind z d' now')
    case isFalse.isTrue =>
      cases now'
      exact .inl (behind y d now)
    case isFalse.isFalse => exact placed.apart y z d d' different now now'

end Placed

end Apue.Db
