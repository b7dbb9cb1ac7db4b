import Apue.Db.Reached

/-! # Slots used again

On the files of any calls, `_db_findfree` takes the first free record with the lengths of the key
and of the data, and only if there is one.  What `db_store` then writes covers the record and its
data to the byte: the text of an index record also has the offset and the length of the data in
decimal, and these are the old ones.
-/

namespace Apue.Db

open Apue.Base

variable {w w' : World Unit File} {db db' : DB} {img : Image} {lists : Slot → List Nat}
    {before after : List Nat} {x v : Nat}
  {e : Entry} {key data : Bytes} {s : Slot} {keylen datlen : Int}

/-- What the writes of `db_store` have done to the place of the record `e`: they cover the bytes of
its data and its own bytes, and otherwise change only the pointer of the chain. -/
structure Refilled (w w' : World Unit File) (img : Image) (c x : Nat) (e : Entry) (key data : Bytes)
    (v : Nat) : Prop where
  dat : w'.bytes .dat = writeAt (w.bytes .dat) e.doff (cstr data ++ [newline])
  region : (cstr data ++ [newline]).length = e.dlen ∧ e.doff + e.dlen ≤ (w.bytes .dat).length
  idx : w'.bytes .idx = writeAt (writeAt (w.bytes .idx) x (e.reused v key data).enc) c (encPtr x)
  record : (e.reused v key data).enc.length = e.enc.length ∧ HasAt (w.bytes .idx) x e.enc
  others : ∀ y d, y ≠ x → img.entryAt y = some d → HasAt (w.bytes .idx) y d.enc ∧
    HasAt (w'.bytes .idx) y d.enc
  otherData : ∀ y d stored, y ≠ x → img.entryAt y = some d → stored.length = d.dlen →
    HasAt (w.bytes .dat) d.doff stored →
    HasAt (w'.bytes .dat) d.doff stored

/-- The writes of `db_store` in the place of a record that is on no list. -/
theorem Placed.refilled (placed : Placed (w.bytes .idx) (w.bytes .dat) img lists) (chain : s ≠ 0)
    (found : img.entryAt x = some e) (new : ∀ t, x ∉ lists t) (smallX : x ≤ ptrMax)
    (current : Current db x e)
    (onChain : OnChain s.off db) (next : img.ptrAt s.off = some v)
    (sameKey : strlen key = e.key.length)
    (sameData : strlen data + 1 = e.dlen) :
    ∃ db' w', Exec soloKernel (storeReuse key data v db) w (.returned ((), db')) w' ∧
      Refilled w w' img s.off x e key data v := by
  have written := placed.all.entry found
  have small := placed.small next
  have textLength := Entry.reused_text_length sameKey sameData v
  obtain ⟨db', w', runs, dat, idx⟩ :=
    exec_storeReuse written current onChain smallX small sameKey sameData
  have region : (cstr data ++ [newline]).length = e.dlen := by
    rw [← sameData, List.length_append, List.length_singleton, strlen]
  have inside := placed.inside x e found
  refine ⟨db', w', runs, dat, ⟨region, inside⟩, idx, ⟨?_, placed.hasAt found⟩,
    fun y d different there => ?_,
    fun y d stored different there length stands => ?_⟩
  · rw [Entry.enc_length, Entry.enc_length, textLength]
  · have placed' := placed.relink found new (written.reused small sameKey sameData) textLength
      ⟨rfl, sameData⟩ next smallX
      fun free => absurd free chain
    refine ⟨placed.hasAt there, ?_⟩
    rw [idx]
    exact placed'.hasAt (placed.relink_entry found textLength different there)
  · rw [dat]
    refine stands.write_elsewhere (by rw [region]; exact inside) ?_
    rw [length, region]
    exact placed.apart y x d e different there found

/-- `_db_findfree` has taken the record off the free list, by one write to the pointer before it,
and has found its places. -/
structure TakenOff (w w₁ : World Unit File) (img : Image) (lists : Slot → List Nat) (db₁ : DB)
    (before : List Nat) (x : Nat)
    (after : List Nat) (e : Entry) : Prop where
  idxoff : db₁.idxoff = x
  datoff : db₁.datoff = e.doff
  bytes : w₁.bytes = Function.update w.bytes .idx
    (writeAt (w.bytes .idx) (lastCell freeOff before) (encPtr e.ptr))
  placed : Placed (w₁.bytes .idx) (w₁.bytes .dat) (img.setPtr (lastCell freeOff before) e.ptr)
    (Function.update lists 0 (before ++ after))

/-- `_db_findfree` returns 0 just if a record of the free list has these lengths, and has then taken
the first one off the list; else it returns -1 and writes nothing.  What `db_store` writes next, for
any key and data of these lengths, covers the record and its data and nothing of any other. -/
theorem findfree_exact (reached : Reached w.bytes) (intKey : IsInt keylen) (intData : IsInt datlen)
    (db : DB) :
    ∃ img lists rc db₁ w₁, Placed (w.bytes .idx) (w.bytes .dat) img lists ∧
      Exec soloKernel (dbFindfree keylen datlen db) w (.returned (rc, db₁)) w₁ ∧
      (rc = 0 ↔ ∃ x ∈ lists 0, img.Sized keylen datlen x) ∧
        (rc ≠ 0 → rc = -1 ∧ w₁.bytes = w.bytes) ∧
      (rc = 0 → ∃ before x after e, FirstFit img (lists 0) keylen datlen before x after e ∧
        TakenOff w w₁ img lists db₁ before x after e ∧
        ∀ (key data : Bytes) (s : Slot) (v : Nat), (strlen key : Int) = keylen →
          ((strlen data + 1 : Nat) : Int) = datlen → s ≠ 0 →
          OnChain s.off db → img.ptrAt s.off = some v →
          ∃ db₂ w₂, Exec soloKernel (storeReuse key data v db₁) w₁ (.returned ((), db₂)) w₂ ∧
            Refilled w₁ w₂ (img.setPtr (lastCell freeOff before) e.ptr) s.off x e key data v) := by
  obtain ⟨img, lists, placed⟩ := reached.hasPlaces
  obtain ⟨rc, db₁, w₁, runs, taken, kept⟩ := placed.exec_findfree intKey intData db
  refine ⟨img, lists, rc, db₁, w₁, placed, runs, ?_⟩
  cases taken with
  | none unfit bytes =>
    refine ⟨iff_of_false (by decide) ?_, fun _ => ⟨rfl, bytes⟩, fun zero => absurd zero (by decide)⟩
    rintro ⟨x, member, sized⟩
    exact unfit x member sized
  | @first before after x e _ _ fit current bytes =>
    have member : x ∈ lists 0 := by simp [fit.split]
    refine ⟨iff_of_true rfl ⟨x, member, e, fit.found, fit.key, fit.data⟩,
      fun nonzero => absurd rfl nonzero, fun _ => ?_⟩
    have unlinked := placed.unlink fit.split fit.found
    have idx₁ : w₁.bytes .idx = writeAt (w.bytes .idx) (lastCell freeOff before)
        (encPtr e.ptr) := by
      rw [bytes, Function.update_self]
    have dat₁ : w₁.bytes .dat = w.bytes .dat := by rw [bytes, Function.update_of_ne (by decide)]
    rw [Slot.off_zero, ← idx₁, ← dat₁] at unlinked
    refine ⟨before, x, after, e, fit, ⟨current.idxoff, current.datoff, bytes, unlinked⟩, ?_⟩
    intro key data s v keyLength dataLength chain onChain pointer
    have next : (img.setPtr (lastCell freeOff before) e.ptr).ptrAt s.off = some v := by
      rw [unlinked.start s, Function.update_of_ne chain, ← placed.start s, pointer]
    exact unlinked.refilled chain (placed.unlink_found fit.split fit.found)
      (placed.linked.unlinked fit.split)
      (placed.member_small member) current (kept _ onChain)
        next (Int.ofNat_inj.1 (keyLength.trans fit.key.symm))
      (Int.ofNat_inj.1 (dataLength.trans fit.data.symm))

/-- A record of one character is stored and deleted; its place is found for another. -/
theorem findfree_exact_deleted : ∃ db w db₁ w₁ img lists before x after e, Reached w.bytes ∧
    Exec soloKernel (dbFindfree 1 2 db) w (.returned (0, db₁)) w₁ ∧
      Placed (w.bytes .idx) (w.bytes .dat) img lists ∧
      FirstFit img (lists 0) 1 2 before x after e ∧
        TakenOff w w₁ img lists db₁ before x after e := by
  have ran : (((dbOpen ⟨true, true⟩).returns soloKernel 10000 ({}, .absent)).bind fun (ok, s₁) =>
      ((dbCall (.store [97] [120] .insert)).returns soloKernel 10000 s₁).bind fun (_, s₂) =>
      ((dbCall (.delete [97])).returns soloKernel 10000 s₂).bind fun (_, s₃) =>
      ((dbFindfree 1 2).returns soloKernel 10000 s₃).map fun (rc, _) =>
        decide (ok = true ∧
          (s₁.1.nhash = nhashDef ∧ s₁.1.hashoff = hashOff ∧ (s₁.2.bytes .dat).length < 2 ^ 63) ∧
          (s₂.1.nhash = nhashDef ∧ s₂.1.hashoff = hashOff ∧ (s₂.2.bytes .dat).length < 2 ^ 63) ∧
            rc = 0)) = some true := by
    decide +kernel
  simp only [Option.bind_eq_some_iff, Option.map_eq_some_iff] at ran
  obtain ⟨⟨ok, s₁⟩, opens, ⟨res₂, s₂⟩, stores, ⟨res₃, s₃⟩, deletes, ⟨rc, s₄⟩, finds, facts⟩ := ran
  obtain ⟨rfl, ⟨nhash₁, hashoff₁, sized₁⟩, ⟨nhash₂, hashoff₂, sized₂⟩, rfl⟩ :=
    of_decide_eq_true facts
  have created : Reached s₁.2.bytes := .created rfl (Code.returns_sound opens)
  have stored : Reached s₂.2.bytes :=
    .call created nhash₁ hashoff₁ sized₁ (fun _ same => by cases same) (Code.returns_sound stores)
  have deleted : Reached s₃.2.bytes :=
    .call stored nhash₂ hashoff₂ sized₂ (fun _ same => by cases same) (Code.returns_sound deletes)
  have found := Code.returns_sound finds
  have intKey : IsInt 1 := by decide
  have intData : IsInt 2 := by decide
  obtain ⟨img, lists, rc, db₁, w₁, placed, runs, -, -, takes⟩ :=
    findfree_exact deleted intKey intData s₃.1
  obtain ⟨same, rfl⟩ := found.deterministic runs
  cases same
  obtain ⟨before, x, after, e, fit, taken, -⟩ := takes rfl
  exact ⟨s₃.1, s₃.2, s₄.1, s₄.2, img, lists, before, x, after, e, deleted, found, placed,
    fit, taken⟩

end Apue.Db
