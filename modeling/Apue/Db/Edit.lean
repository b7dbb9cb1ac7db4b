import Apue.Db.Walk

/-! # Writing records

Every write to the index file is an `Edit`: a pointer of the table or a whole record takes a new
value, while the lists keep their places for the records.  With the write a record may change hands.
The rules here say what is left to show for such a step: that the process may make it, and that the
records it is allowed to write are fine afterwards.
-/

namespace Apue.Db

open Apue.Base St

variable {ι : Type} {room : Nat} {p : ι} {σ τ σ' : St ι} {o : Owner ι} {e : Entry}

/-! ## Records a process may write -/

/-- The record may stand where it stands, as long as `p` may write there. -/
def Fine (σ : St ι) (p : ι) (e : Entry) : Owner ι → Prop
  | .at (.chain h) => dbHash nhashDef e.key = h ∧
      (isBlank e.key = false → σ.Holds p .free .write ∨ Storing σ p e ∨ σ.map e.key = some e.data)
  | .at .free => isBlank e.key = true
  | .priv _ => isBlank e.key = false → Storing σ p e
  | _ => True

def Tidy (σ : St ι) (p : ι) : Prop :=
  ∀ o, σ.Writes p o → ∀ x ∈ σ.members o, ∀ e, σ.img.entryAt x = some e → Fine σ p e o

theorem Coherent.tidy (inv : Coherent room σ) (p : ι) : Tidy σ p := by
  intro o writes x member e found
  rcases o with (h | _ | _ | _) | q | _
  · have real : h < nhashDef := by
      rcases inv.sorted.listed member with same | ⟨k, real, same⟩ <;> cases same
      exact real
    exact ⟨(inv.chain h real).hashed member found, (inv.chain h real).live writes member found⟩
  · exact inv.free.blank member found
  · trivial
  · trivial
  · have own : q = p := writes
    subst own
    exact (inv.priv q).live member found
  · trivial

theorem Rely.writes (relied : Rely p σ τ) : τ.Writes p o ↔ σ.Writes p o := by
  rcases o with place | q | _
  · exact relied.locks _
  · exact Iff.rfl
  · exact Iff.rfl

theorem Fine.iff (relied : Rely p σ τ) (reads : σ.Reads p o) : Fine τ p e o ↔ Fine σ p e o := by
  have storing : Storing τ p e ↔ Storing σ p e := by rw [Storing, Storing, relied.status]
  rcases o with (h | _ | _ | _) | q | _
  · refine and_congr_right fun hash => imp_congr_right fun _ => ?_
    rw [show τ.map e.key = σ.map e.key from (relied.same _ reads).2.2 e.key hash, storing]
    exact or_congr_left (relied.locks _)
  · exact Iff.rfl
  · exact Iff.rfl
  · exact Iff.rfl
  · exact imp_congr_right fun _ => storing
  · exact Iff.rfl

theorem Tidy.iff (relied : Rely p σ τ) : Tidy τ p ↔ Tidy σ p := by
  refine forall_congr' fun o => ?_
  rw [relied.writes]
  refine imp_congr_right fun writes => ?_
  have list := (relied.same o writes.reads).list
  rw [list.members]
  refine forall_congr' fun x => imp_congr_right fun member => forall_congr' fun e => ?_
  rw [list.entries x member, Fine.iff relied writes.reads]

/-- Whether a record is fine depends on its key and data, the locks and the object. -/
theorem Fine.congr {d : Entry} (fine : Fine σ p d o) (locks : σ'.w.locks = σ.w.locks)
    (obj : σ'.obj = σ.obj)
    (key : e.key = d.key) (data : e.data = d.data) : Fine σ' p e o := by
  have storing : Storing σ' p e ↔ Storing σ p d := by rw [Storing, Storing, obj, key, data]
  rcases o with (h | _ | _ | _) | q | _
  · simpa only [Fine, storing, St.Holds, St.map, locks, obj, key, data] using fine
  · rw [Fine, key]
    exact fine
  · trivial
  · trivial
  · exact fun visible => storing.2 (fine (key ▸ visible))
  · trivial

/-- After a change by a process that has a chain to write, all that is left of the invariant is that
its records are fine. -/
theorem Coherent.edited {τ' : St ι} (inv : Coherent room τ) (frame : Frame p τ τ') (img : τ'.img.Ok)
    (idx : τ'.w.bytes .idx = τ'.img.bytes) (fits : τ'.img.size ≤ room) (stored : Stored τ')
    (sorted : Sorted τ')
    (relied : Rely p σ' τ') (tidy : Tidy σ' p) {h : Nat} (real : h < nhashDef)
    (held : τ.Holds p (.chain h) .write) :
    Coherent room τ' := by
  have tidy' : Tidy τ' p := (Tidy.iff relied).2 tidy
  have holds {q : ι} {place : Place} {type : LockType} (before : τ.Holds q place type) :
      τ'.Holds q place type :=
    (St.holds_congr frame.locks).2 before
  refine inv.change frame img idx fits stored sorted
    (fun k realK heldK => ?_) (fun heldFree => ?_) ?_
  · have fine := tidy' (.at (.chain k)) (holds heldK)
    refine ⟨fun member found => (fine _ member _ found).1,
      fun free => absurd (holds heldK) (free p), ?_⟩
    intro q x e heldQ member found visible
    have own : p = q := inv.exclusive heldK ((St.holds_congr frame.locks).1 heldQ)
    subst own
    exact (fine x member e found).2 visible
  · exact ⟨fun member found => tidy' (.at .free) (holds heldFree) _ member _ found,
      fun free => absurd (holds heldFree) (free p)⟩
  · exact ⟨fun free => absurd (holds held) (free h real),
      fun member found => tidy' (.priv p) rfl _ member _ found⟩

/-! ## Handing over -/

/-- A record that changes hands, if any: which, from whom, to whom. -/
abbrev Handing (ι : Type) := Option (Nat × Owner ι × Owner ι)

def Handing.May (σ : St ι) (p : ι) : Handing ι → Prop
  | none => True
  | some (x, o, o') =>
    x ∈ σ.members o ∧ σ.Writes p o ∧ σ.Writes p o' ∧ o' ≠ o ∧ ∀ place, o' = .at place → place.Listed

section

variable [DecidableEq ι] {hand : Handing ι}

def St.handOver (σ : St ι) : Handing ι → St ι
  | none => σ
  | some (x, o, o') => σ.move x o o'

@[simp] theorem St.handOver_img (σ : St ι) (hand : Handing ι) : (σ.handOver hand).img = σ.img := by cases hand <;> rfl

@[simp] theorem St.handOver_w (σ : St ι) (hand : Handing ι) : (σ.handOver hand).w = σ.w := by cases hand <;> rfl

@[simp] theorem St.handOver_obj (σ : St ι) (hand : Handing ι) : (σ.handOver hand).obj = σ.obj := by cases hand <;> rfl

@[simp] theorem St.handOver_fresh (σ : St ι) (hand : Handing ι) : (σ.handOver hand).fresh = σ.fresh := by cases hand <;> rfl

theorem St.handOver_frame (may : hand.May σ p) : Frame p σ (σ.handOver hand) := by
  cases hand with
  | none =>
    exact ⟨fun _ _ => rfl, rfl, rfl, fun o _ => .refl σ o, .refl σ, fun _ => .refl σ⟩
  | some move => exact St.move_frame may.2.1 may.2.2.1

theorem St.handOver_rely (relied : Rely p σ τ) (may : hand.May σ p) :
    Rely p (σ.handOver hand) (τ.handOver hand) := by
  cases hand with
  | none => exact relied
  | some move => exact St.move_rely relied may.1 may.2.1.reads may.2.2.1.reads

theorem St.handOver_sorted (sorted : Sorted σ) (may : hand.May σ p) : Sorted (σ.handOver hand) := by
  cases hand with
  | none => exact sorted
  | some move => exact St.move_sorted sorted may.2.2.2.1 may.1 may.2.2.2.2

theorem St.handOver_stored (stored : Stored σ) (hand : Handing ι) : Stored (σ.handOver hand) := by
  cases hand with
  | none => exact stored
  | some move => exact St.move_stored stored

omit [DecidableEq ι] in
theorem Handing.May.congr (may : hand.May σ p) (locks : σ'.w.locks = σ.w.locks)
    (members : σ'.members = σ.members) :
    hand.May σ' p := by
  have writes (o : Owner ι) (before : σ.Writes p o) : σ'.Writes p o := by
    rcases o with place | q | _
    · simpa only [St.Writes, St.Holds, locks] using before
    · exact before
    · exact before
  cases hand with
  | none => trivial
  | some move =>
    obtain ⟨member, first, second, rest⟩ := may
    exact ⟨by rw [members]; exact member, writes _ first, writes _ second, rest⟩

omit [DecidableEq ι] in
theorem Handing.May.later (may : hand.May σ p) (relied : Rely p σ τ) : hand.May τ p := by
  cases hand with
  | none => trivial
  | some move =>
    obtain ⟨member, first, second, rest⟩ := may
    exact ⟨(relied.same _ first.reads).list.mem.2 member, relied.writes.2 first,
      relied.writes.2 second, rest⟩

end

/-! ## Edits -/

/-- A pointer of the table, or a record, takes a new value. -/
inductive Edit where
  | slot (place : Place) (v : Nat)
  | entry (x : Nat) (e : Entry)

def Edit.apply (img : Image) : Edit → Image
  | .slot place v => img.setPtr place.slot v
  | .entry x e => img.setEntry x e

def Edit.May (σ : St ι) (p : ι) : Edit → Prop
  | .slot place v =>
    place.Listed ∧ σ.Holds p place .write ∧ v ≤ ptrMax ∧ ∃ u, σ.img.ptrAt place.slot = some u
  | .entry x e' => ∃ o e, x ∈ σ.members o ∧ σ.Writes p o ∧ σ.img.entryAt x = some e ∧ e'.Ok ∧
      e'.text.length = e.text.length ∧ e'.doff = e.doff ∧ e'.data = e.data ∧
      (¬σ.Holds p .free .write → isBlank e.key = false → e'.key = e.key)

def St.edit (σ : St ι) (edit : Edit) : St ι := σ.setImg (edit.apply σ.img)

variable {edit : Edit}

theorem Edit.May.later (may : edit.May σ p) (relied : Rely p σ τ) : edit.May τ p := by
  cases edit with
  | slot place v =>
    obtain ⟨listed, held, small, u, found⟩ := may
    exact ⟨listed, (relied.locks _).2 held, small, u,
      ((relied.same (.at place) ⟨.write, held⟩).slot listed).trans found⟩
  | entry x e' =>
    obtain ⟨o, e, member, writes, found, ok, length, doff, data, key⟩ := may
    have list := (relied.same o writes.reads).list
    exact ⟨o, e, list.mem.2 member, relied.writes.2 writes, (list.entries x member).trans found, ok,
      length, doff, data,
      fun unheld => key fun held => unheld ((relied.locks _).2 held)⟩

theorem St.edit_frame (may : edit.May σ p) (sorted : Sorted σ) : Frame p σ (σ.edit edit) := by
  cases edit with
  | slot place v =>
    obtain ⟨listed, held, -, u, found⟩ := may
    exact (St.setPtr_repoints listed found).frame listed held fun _ _ => rfl
  | entry x e' =>
    obtain ⟨o, e, member, writes, found, -, length, doff, data, key⟩ := may
    exact (St.setEntry_rewrites found length).frame sorted member writes found length
      (fun unheld visible => ⟨key unheld visible, doff, by rw [data]⟩) fun _ _ => rfl

theorem St.edit_rely (relied : Rely p σ τ) (may : edit.May σ p) :
    Rely p (σ.edit edit) (τ.edit edit) := by
  have mayT := may.later relied
  cases edit with
  | slot place v =>
    obtain ⟨listed, -, -, u, found⟩ := may
    obtain ⟨-, -, -, u', found'⟩ := mayT
    exact Repoints.rely relied (St.setPtr_repoints listed found) (St.setPtr_repoints listed found')
      (by rintro rfl; rfl) relied.pos
  | entry x e' =>
    obtain ⟨o, e, member, writes, found, -, length, -⟩ := may
    have found' : τ.img.entryAt x = some e :=
      ((relied.same o writes.reads).list.entries x member).trans found
    exact Rewrites.rely relied (St.setEntry_rewrites found length)
      (St.setEntry_rewrites found' length)
      (by rintro rfl; rfl) relied.pos

theorem St.edit_sorted (sorted : Sorted σ) (may : edit.May σ p) : Sorted (σ.edit edit) := by
  cases edit with
  | slot place v =>
    obtain ⟨listed, -, -, u, found⟩ := may
    exact (St.setPtr_repoints listed found).sorted sorted
  | entry x e' =>
    obtain ⟨o, e, -, -, found, -, length, -⟩ := may
    exact (St.setEntry_rewrites found length).sorted sorted found

theorem St.edit_stored (stored : Stored σ) (may : edit.May σ p) : Stored (σ.edit edit) := by
  cases edit with
  | slot place v =>
    obtain ⟨listed, -, -, u, found⟩ := may
    exact (St.setPtr_repoints listed found).stored stored
  | entry x e' =>
    obtain ⟨o, e, -, -, found, -, length, doff, data, -⟩ := may
    exact (St.setEntry_rewrites found length).stored stored found doff data rfl

theorem Edit.May.ok (may : edit.May σ p) (ok : σ.img.Ok) : (edit.apply σ.img).Ok := by
  cases edit with
  | slot place v =>
    obtain ⟨-, -, small, u, found⟩ := may
    exact ok.setPtr found small
  | entry x e' =>
    obtain ⟨o, e, -, -, found, ok', -⟩ := may
    exact ok.setEntry found ok'

theorem Edit.May.size (may : edit.May σ p) : (edit.apply σ.img).size = σ.img.size := by
  cases edit with
  | slot place v =>
    obtain ⟨-, -, -, u, found⟩ := may
    exact Image.setPtr_size found v
  | entry x e' =>
    obtain ⟨o, e, -, -, found, -, length, -⟩ := may
    exact Image.setEntry_size found length

section

variable [DecidableEq ι] {env : ι → FileCall File → St ι → Prop} {E : Err → St ι → Prop} {db : DB}
    {hand : Handing ι} {h : Nat}

/-- The records that stay with their owner are fine there, and the one that changes hands is fine
with its new owner. -/
theorem Tidy.handOver {σ₁ : St ι} (relied : Rely p σ τ) (inv : Coherent room τ) (may : hand.May σ p)
    (locks : σ₁.w.locks = σ.w.locks) (obj : σ₁.obj = σ.obj) (members : σ₁.members = σ.members)
    (kept : ∀ o y e, σ.Writes p o → y ∈ σ.members o → (∀ k k', hand ≠ some (y, k, k')) →
    σ₁.img.entryAt y = some e →
      Fine σ p e o)
    (fine : ∀ x o o' e, hand = some (x, o, o') → σ₁.img.entryAt x = some e → Fine σ p e o') :
    Tidy (σ₁.handOver hand) p := by
  intro k writes y member e found
  have writes' : σ.Writes p k := by
    rcases k with place | q | _
    · simpa only [St.Writes, St.Holds, St.handOver_w, locks] using writes
    · exact writes
    · exact writes
  rw [St.handOver_img] at found
  refine Fine.congr (d := e) (σ := σ) ?_
    (by rw [St.handOver_w, locks]) (by rw [St.handOver_obj, obj]) rfl rfl
  cases hand with
  | none =>
    refine kept k y e writes' ?_ (by simp) found
    rw [← members]
    exact member
  | some move =>
    obtain ⟨x, o, o'⟩ := move
    obtain ⟨inList, from', to', different, -⟩ := may
    have list := (relied.same o from'.reads).list
    rw [St.handOver, St.move_members, members] at member
    split at member
    case isTrue same =>
      rw [same] at writes' ⊢
      by_cases here : y = x
      · exact fine x o o' e rfl (here ▸ found)
      · refine kept o' y e to' ((List.mem_cons.1 member).resolve_left here)
          (fun _ _ eq => here ?_) found
        cases eq
        rfl
    case isFalse other =>
      have old : y ∈ σ.members k ∧ y ≠ x := by
        split at member
        case isTrue same =>
          rw [same]
          have nodup : (σ.members o).Nodup := list.members ▸ inv.sorted.nodup o
          exact ⟨List.mem_of_mem_erase member, fun here => nodup.not_mem_erase (here ▸ member)⟩
        case isFalse notFrom =>
          refine ⟨member, ?_⟩
          rintro rfl
          refine notFrom (inv.sorted.one ((relied.same k writes'.reads).list.mem.2 member)
            (list.mem.2 inList))
      refine kept k y e writes' old.1 (fun _ _ eq => old.2 ?_) found
      cases eq
      rfl

/-! ## Writing in place -/

theorem triple_edit {B : Bytes} {error : Err} (real : h < nhashDef)
    (held : σ.Holds p (.chain h) .write)
    (may : edit.May σ p) (hands : hand.May σ p) (short : B.length ≤ writeMax)
    (bytes : ∀ τ, Rely p σ τ → Coherent room τ → writeAt τ.img.bytes (σ.w.pos p .idx) B =
    (edit.apply τ.img).bytes)
    (tidy : Tidy ((σ.edit edit).handOver hand) p) :
    Triple (discipline room env) p E σ (write .idx B error) db fun _ db' σ' =>
      db' = db ∧ σ' = ((σ.edit edit).handOver hand).seek p .idx (σ.w.pos p .idx + B.length) := by
  refine triple_write short fun τ relied inv _ => ?_
  have mayT := may.later relied
  have hands' : hand.May (σ.edit edit) p := hands.congr rfl rfl
  have handsT : hand.May (τ.edit edit) p := (hands.later relied).congr rfl rfl
  have relied' := St.seek_rely (St.handOver_rely (St.edit_rely relied may) hands') .idx
    (σ.w.pos p .idx + B.length)
  have frame : Frame p τ (((τ.edit edit).handOver hand).seek p .idx (σ.w.pos p .idx + B.length)) :=
    ((St.edit_frame mayT inv.sorted).trans (St.handOver_frame handsT)).trans
      (St.seek_frame _ p .idx _)
  have sorted := St.handOver_sorted (St.edit_sorted inv.sorted mayT) handsT
  have stored := St.handOver_stored (St.edit_stored inv.stored mayT) hand
  refine ⟨_, _, ?_, frame, ?_, relied', rfl⟩
  · rw [inv.idx, bytes τ relied inv]
    simp only [St.seek, St.handOver_w]
    rfl
  · refine inv.edited frame ?_ ?_ ?_ ⟨stored.there, stored.apart⟩ ⟨sorted.owned, sorted.one,
      sorted.nodup, sorted.listed⟩
      relied' tidy real ((relied.locks _).2 held)
    · change ((τ.edit edit).handOver hand).img.Ok
      rw [St.handOver_img]
      exact mayT.ok inv.img
    · simp only [St.seek, World.setPos, St.handOver_w, St.handOver_img]
      simp [St.edit, St.setImg, World.setBytes_bytes]
    · change ((τ.edit edit).handOver hand).img.size ≤ room
      rw [St.handOver_img]
      exact Nat.le_trans (Nat.le_of_eq mayT.size) inv.room

theorem St.handOver_seek (σ : St ι) (hand : Handing ι) (file : File) (offset : Nat) :
    (σ.handOver hand).seek p file offset = (σ.seek p file offset).handOver hand := by
  cases hand <;> rfl

/-- `_db_writeptr` as an edit. -/
theorem triple_writeptr {offset v : Nat} (real : h < nhashDef) (held : σ.Holds p (.chain h) .write)
    (small : v ≤ ptrMax)
    (may : edit.May σ p) (hands : hand.May σ p)
    (bytes : ∀ τ, Rely p (σ.seek p .idx offset) τ → Coherent room τ →
      writeAt τ.img.bytes offset (encPtr v) = (edit.apply τ.img).bytes)
    (tidy : Tidy ((σ.edit edit).handOver hand) p) :
    Triple (discipline room env) p E σ (dbWriteptr offset v) db fun _ db' σ' =>
      db' = db ∧ ∃ n, σ' = ((σ.edit edit).seek p .idx n).handOver hand := by
  unfold dbWriteptr
  rw [if_neg (by omega)]
  refine .bind (triple_seek .idx offset .writeptrLseek) ?_
  rintro - _ _ ⟨-, rfl, rfl⟩
  rw [writeptr_buffer]
  have may' : edit.May (σ.seek p .idx offset) p := by
    cases edit <;> exact may
  have held' : (σ.seek p .idx offset).Holds p (.chain h) .write := held
  refine (triple_edit (B := encPtr v) real held' may' (hands.congr rfl rfl) (by simp [writeMax]) ?_
    ?_).weaken ?_
  · intro τ relied inv
    rw [St.seek_pos]
    exact bytes τ relied inv
  · cases hand <;> exact tidy
  · rintro - _ _ ⟨rfl, rfl⟩
    refine ⟨rfl, (σ.seek p .idx offset).w.pos p .idx + (encPtr v).length, ?_⟩
    rw [St.handOver_seek]
    exact congrArg (St.handOver · hand) (St.seek_seek (σ.edit edit) p .idx offset _)

/-- A pointer of the table is rewritten. -/
theorem triple_writeptrSlot {P : Place} {u v : Nat} (real : h < nhashDef)
    (held : σ.Holds p (.chain h) .write)
    (listed : P.Listed) (heldPlace : σ.Holds p P .write) (found : σ.img.ptrAt P.slot = some u)
    (small : v ≤ ptrMax)
    (hands : hand.May σ p)
    (fine : ∀ x o o' e, hand = some (x, o, o') → σ.img.entryAt x = some e → Fine σ p e o') :
    Triple (discipline room env) p E σ (dbWriteptr P.slot v) db fun _ db' σ' =>
      db' = db ∧ ∃ σ₁, Repoints P v σ σ₁ ∧ σ' = σ₁.handOver hand := by
  refine .given fun τ relied inv => ?_
  have repoints : Repoints P v σ (σ.edit (.slot P v)) := St.setPtr_repoints listed found
  have may : (Edit.slot P v).May σ p := ⟨listed, heldPlace, small, u, found⟩
  have tidy : Tidy ((σ.edit (.slot P v)).handOver hand) p := by
    refine Tidy.handOver relied inv hands rfl rfl rfl (fun o y e writes member _ here =>
      ?_) fun x o o' e isHand here => ?_
    · rw [repoints.entry] at here
      exact (Tidy.iff relied).1 (inv.tidy p) o writes y member e here
    · rw [repoints.entry] at here
      exact fine x o o' e isHand here
  refine (triple_writeptr real held small may hands (fun τ relied inv => ?_) tidy).weaken ?_
  · exact inv.img.write_ptr (((relied.same (.at P) ⟨.write, heldPlace⟩).slot listed).trans found) v
  · rintro - _ _ ⟨rfl, n, rfl⟩
    exact ⟨rfl, (σ.edit _).seek p .idx n, ⟨repoints.entry, repoints.slot, repoints.size, rfl, rfl,
      rfl, rfl, rfl⟩, rfl⟩

omit [DecidableEq ι] in
theorem Rely.okay (relied : Rely p σ τ) (inv : Coherent room τ) {x : Nat} (reads : σ.Reads p o)
    (member : x ∈ σ.members o) (found : σ.img.entryAt x = some e) : e.Ok :=
  inv.img.entry (((relied.same o reads).list.entries x member).trans found)

/-- The pointer of a record is rewritten. -/
theorem triple_writeptrEntry {y v : Nat} (real : h < nhashDef) (held : σ.Holds p (.chain h) .write)
    (member : y ∈ σ.members o) (writes : σ.Writes p o) (found : σ.img.entryAt y = some e)
    (small : v ≤ ptrMax)
    (hands : hand.May σ p)
    (fine : ∀ x o o' e, hand = some (x, o, o') → σ.img.entryAt x = some e → Fine σ p e o') :
    Triple (discipline room env) p E σ (dbWriteptr y v) db fun _ db' σ' =>
      db' = db ∧ ∃ σ₁, Rewrites y (e.withPtr v) σ σ₁ ∧ σ' = σ₁.handOver hand := by
  refine .given fun τ relied inv => ?_
  have ok := relied.okay inv writes.reads member found
  have length : (e.withPtr v).text.length = e.text.length := rfl
  have rewrites : Rewrites y (e.withPtr v) σ (σ.edit (.entry y (e.withPtr v))) :=
    St.setEntry_rewrites found length
  have may : (Edit.entry y (e.withPtr v)).May σ p :=
    ⟨o, e, member, writes, found, ok.withPtr small, length, rfl, rfl, fun _ _ => rfl⟩
  -- the key and the data of every record are as before
  have kept {x : Nat} {d : Entry} (here : (σ.edit (.entry y (e.withPtr v))).img.entryAt
      x = some d) :
      ∃ d', σ.img.entryAt x = some d' ∧ d.key = d'.key ∧ d.data = d'.data := by
    rw [rewrites.entry] at here
    split at here
    case isTrue same =>
      cases here
      exact ⟨e, same ▸ found, rfl, rfl⟩
    case isFalse => exact ⟨d, here, rfl, rfl⟩
  have tidy : Tidy ((σ.edit (.entry y (e.withPtr v))).handOver hand) p := by
    refine Tidy.handOver relied inv hands rfl rfl rfl (fun o y d writes member _ here =>
      ?_) fun x o o' d isHand here => ?_
    · obtain ⟨d', before, key, data⟩ := kept here
      exact ((Tidy.iff relied).1 (inv.tidy p) o writes y member d' before).congr rfl rfl key data
    · obtain ⟨d', before, key, data⟩ := kept here
      exact (fine x o o' d' isHand before).congr rfl rfl key data
  refine (triple_writeptr real held small may hands (fun τ relied inv => ?_) tidy).weaken ?_
  · have now : τ.img.entryAt y = some e :=
      ((relied.same o writes.reads).list.entries y member).trans found
    have high := Image.entryAt_records now
    rw [inv.img.write_ptr (Image.ptrAt_record now), Image.setPtr, if_neg (by omega), now]
    rfl
  · rintro - _ _ ⟨rfl, n, rfl⟩
    exact ⟨rfl, (σ.edit _).seek p .idx n, ⟨rewrites.entry, rewrites.slot, rewrites.size, rfl, rfl,
      rfl, rfl, rfl⟩, rfl⟩

end

end Apue.Db
