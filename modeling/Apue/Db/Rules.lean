import Apue.Db.Acquire

/-! # Rules for the system calls

What each system call does to the state a proof reasons about: reads and seeks move the file offset
of the process, a read under a lock returns what the state says, a lock brings the process to the
state the others have led to, and a write is one of the changes of `Apue.Db.Transform`.
-/

namespace Apue.Db

open Apue.Base St

variable {ι : Type} [DecidableEq ι] {room : Nat} {env : ι → FileCall File → St ι → Prop}
    {E : Err → St ι → Prop} {p : ι}
  {σ τ : St ι} {db : DB} {α : Type}

/-! ## Seeking -/

theorem St.seek_same (σ : St ι) (p : ι) (file : File) (offset : Nat) (o : Owner ι) :
    σ.Same (σ.seek p file offset) o :=
  .of_parts ⟨rfl, fun _ _ => rfl⟩ (fun _ _ _ _ _ => rfl) rfl rfl (fun _ _ => rfl) rfl

@[simp] theorem St.seek_pos (σ : St ι) (p : ι) (file : File) (offset : Nat) :
    (σ.seek p file offset).w.pos p file = offset := by
  simp [St.seek, World.setPos_pos]

@[simp] theorem St.seek_img (σ : St ι) (p : ι) (file : File) (offset : Nat) : (σ.seek p file offset).img = σ.img := rfl

theorem St.seek_pos_other (σ : St ι) (p : ι) {file other : File} (different : other ≠ file)
    (offset : Nat) :
    (σ.seek p file offset).w.pos p other = σ.w.pos p other := by
  simp [St.seek, World.setPos_pos, different]

@[simp] theorem St.seek_seek (σ : St ι) (p : ι) (file : File) (offset offset' : Nat) :
    (σ.seek p file offset).seek p file offset' = σ.seek p file offset' := by
  simp [St.seek, World.setPos]

theorem Coherent.seek (inv : Coherent room σ) (p : ι) (file : File) (offset : Nat) :
    Coherent room (σ.seek p file offset) :=
  inv.change (σ.seek_frame p file offset) inv.img inv.idx inv.room ⟨inv.stored.there,
    inv.stored.apart⟩
    ⟨inv.sorted.owned, inv.sorted.one, inv.sorted.nodup, inv.sorted.listed⟩
    (fun h real _ => (inv.chain h real).congr real (σ.seek_same p file offset _) rfl rfl)
    (fun _ => inv.free.congr (σ.seek_same p file offset _) rfl)
      ((inv.priv p).congr (σ.seek_same p file offset _) rfl rfl)

/-- A seek whose target the process can rely on. -/
theorem triple_lseek {file : File} {offset : Int} {whence : Whence} {target : Nat} (error : Err)
    (known : ∀ τ, Rely p σ τ → Coherent room τ → τ.w.target p file offset whence = target) :
    Triple (discipline room env) p E σ (lseek file offset whence error) db fun r db' σ' =>
      r = target ∧ db' = db ∧ σ' = σ.seek p file target := by
  refine .bind (M := fun r db' σ' => r = some target ∧ db' = db ∧ σ' = σ.seek p file target)
    (.call ?_) ?_
  · rintro τ relied inv - answer w answers
    have moved : fileKernel p (.lseek file offset whence) τ.w = some (answer, w) := answers
    rw [fileKernel, known τ relied inv, if_neg (by omega)] at moved
    cases moved
    exact ⟨τ.seek p file target, σ.seek p file target, rfl, (τ.seek_frame p file target).guar,
      inv.seek p file target,
      St.seek_rely relied file target, rfl, rfl, rfl⟩
  · rintro - _ _ ⟨rfl, rfl, rfl⟩
    exact .pure ⟨rfl, rfl, rfl⟩

theorem triple_seek (file : File) (offset : Nat) (error : Err) :
    Triple (discipline room env) p E σ (lseek file offset .set error) db fun r db' σ' =>
      r = offset ∧ db' = db ∧ σ' = σ.seek p file offset :=
  triple_lseek error fun _ _ _ => rfl

/-- Seeking nowhere tells the offset. -/
theorem triple_seekCur (file : File) (error : Err) :
    Triple (discipline room env) p E σ (lseek file 0 .cur error) db fun r db' σ' =>
      r = σ.w.pos p file ∧ db' = db ∧ σ' = σ.seek p file (σ.w.pos p file) := by
  refine triple_lseek error fun τ relied _ => ?_
  rw [World.target, congrFun relied.pos file, Int.add_zero]

/-- Seeking to the end of the data file, while no one else appends. -/
theorem triple_seekDatEnd (held : σ.Holds p .datEnd .write) (error : Err) :
    Triple (discipline room env) p E σ (lseek .dat 0 .fromEnd error) db fun r db' σ' =>
      r = σ.dat.length ∧ db' = db ∧ σ' = σ.seek p .dat σ.dat.length := by
  refine triple_lseek error fun τ relied _ => ?_
  have length : τ.dat.length = σ.dat.length := (relied.same (.at .datEnd) ⟨.write, held⟩).2
  rw [World.target, length, Int.add_zero]

/-- Seeking to the end of the index file, while no one else appends. -/
theorem triple_seekIdxEnd (held : σ.Holds p .idxEnd .write) (error : Err) :
    Triple (discipline room env) p E σ (lseek .idx 0 .fromEnd error) db fun r db' σ' =>
      r = σ.img.size ∧ db' = db ∧ σ' = σ.seek p .idx σ.img.size := by
  refine triple_lseek error fun τ relied inv => ?_
  have size : τ.img.size = σ.img.size := (relied.same (.at .idxEnd) ⟨.write, held⟩).2
  rw [World.target, inv.idx, inv.img.bytes_length, size, Int.add_zero]

/-! ## Reading -/

/-- A read returns what the file holds when it happens, at the position that the process has. -/
theorem triple_readAt {file : File} {count : Nat} {Q : Bytes → St ι → Prop}
    (step : ∀ τ, Rely p σ τ → Coherent room τ → ∃ τ' σ',
      τ'.w = (τ.seek p file
        (σ.w.pos p file + (readAt (τ.w.bytes file) (σ.w.pos p file) count).length)).w ∧
        Guar p τ τ' ∧ Coherent room τ' ∧ Rely p σ' τ' ∧
          Q (readAt (τ.w.bytes file) (σ.w.pos p file) count) σ') :
    Triple (discipline room env) p E σ (read file count) db fun r db' σ' => db' = db ∧ Q r σ' := by
  refine .call ?_
  rintro τ relied inv - answer w answers
  have pos : τ.w.pos p file = σ.w.pos p file := congrFun relied.pos file
  have moved : some (readAt (τ.w.bytes file) (τ.w.pos p file) count,
      τ.w.setPos p file (τ.w.pos p file +
        (readAt (τ.w.bytes file) (τ.w.pos p file) count).length)) = some (answer, w) := answers
  rw [pos] at moved
  cases moved
  obtain ⟨τ', σ', same, guar, inv', relied', holds⟩ := step τ relied inv
  exact ⟨τ', σ', same, guar, inv', relied', rfl, holds⟩

/-- Reading what the process can rely on. -/
theorem triple_read {file : File} {count : Nat} {B : Bytes}
    (known : ∀ τ, Rely p σ τ → Coherent room τ → readAt (τ.w.bytes file)
    (σ.w.pos p file) count = B) :
    Triple (discipline room env) p E σ (read file count) db fun r db' σ' =>
      r = B ∧ db' = db ∧ σ' = σ.seek p file (σ.w.pos p file + B.length) := by
  refine (triple_readAt (Q := fun r σ' => r = B ∧
    σ' = σ.seek p file (σ.w.pos p file + B.length)) fun τ relied inv => ?_).weaken ?_
  · rw [known τ relied inv]
    exact ⟨τ.seek p file _, σ.seek p file _, rfl, (τ.seek_frame p file _).guar, inv.seek p file _,
      St.seek_rely relied file _, rfl, rfl⟩
  · rintro r db' σ' ⟨same, value, moved⟩
    exact ⟨value, same, moved⟩

/-- Reading what others may be changing: the process is then in the state it has seen. -/
theorem triple_readSeen (file : File) (count : Nat) :
    Triple (discipline room env) p E σ (read file count) db fun r db' σ' =>
      db' = db ∧ ∃ τ, Rely p σ τ ∧ Coherent room τ ∧
        r = readAt (τ.w.bytes file) (σ.w.pos p file) count ∧
        σ' = τ.seek p file (σ.w.pos p file + r.length) := by
  refine triple_readAt fun τ relied inv => ?_
  exact ⟨τ.seek p file _, τ.seek p file _, rfl, (τ.seek_frame p file _).guar, inv.seek p file _,
    Rely.refl p _, τ, relied, inv,
    rfl, rfl⟩

/-! ## Writing -/

theorem triple_write {file : File} {buffer : Bytes} {error : Err} {Q : St ι → Prop}
    (short : buffer.length ≤ writeMax)
    (step : ∀ τ, Rely p σ τ → Coherent room τ → env p (.write file buffer) τ →
      ∃ τ' σ', τ'.w = (τ.w.setBytes file (writeAt (τ.w.bytes file) (σ.w.pos p file) buffer)).setPos
          p file
          (σ.w.pos p file + buffer.length) ∧
        Frame p τ τ' ∧ Coherent room τ' ∧ Rely p σ' τ' ∧ Q σ') :
    Triple (discipline room env) p E σ (write file buffer error) db fun _ db' σ' => db' =
      db ∧ Q σ' := by
  refine .bind (M := fun (r : Nat) db' σ' => r = buffer.length ∧ db' = db ∧ Q σ') (.call ?_) ?_
  · rintro τ relied inv given answer w answers
    have pos : τ.w.pos p file = σ.w.pos p file := congrFun relied.pos file
    have moved : fileKernel p (.write file buffer) τ.w = some (answer, w) := answers
    rw [fileKernel, List.take_of_length_le short, pos] at moved
    cases moved
    obtain ⟨τ', σ', same, frame, inv', relied', holds⟩ := step τ relied inv given
    exact ⟨τ', σ', same, frame.guar, inv', relied', rfl, rfl, holds⟩
  · rintro _ _ σ' ⟨rfl, rfl, holds⟩
    rw [if_pos rfl]
    exact .pure ⟨rfl, holds⟩

/-! ## Locking -/

/-- The locks a process has. -/
def Holding (σ : St ι) (p : ι) (held : List (Lock File)) : Prop :=
  ∀ l, (p, l) ∈ σ.w.locks ↔ l ∈ held

omit [DecidableEq ι] in
theorem Holding.later {held : List (Lock File)} (holding : Holding σ p held) (relied : Rely p σ τ) :
    Holding τ p held :=
  fun l => (relied.locks l).trans (holding l)

/-- A later state that still has what the process could rely on, with other locks perhaps. -/
structure Carries (p : ι) (σ σ' : St ι) : Prop where
  pos : σ'.w.pos p = σ.w.pos p
  status : σ'.obj.status p = σ.obj.status p
  same : ∀ o, σ.Reads p o → σ.Same σ' o
  grows : σ.Grows σ'
  lost : σ.Same σ' .lost

omit [DecidableEq ι] in
theorem Rely.carries (relied : Rely p σ τ) : Carries p σ τ :=
  ⟨relied.pos, relied.status, relied.same, relied.grows, relied.lost⟩

/-- What a lock stands for is in order. -/
def Order (σ : St ι) : Place → Prop
  | .chain h => ChainOk σ h σ.map
  | .free => FreeOk σ
  | _ => True

omit [DecidableEq ι] in
theorem Coherent.order (inv : Coherent room σ) {place : Place} (real : place.Real)
    (unheld : ∀ q, ¬σ.Holds q place .write) : Order σ place := by
  cases place with
  | chain h => exact (inv.chain h real).still unheld
  | free => exact inv.free.still unheld
  | _ => trivial

omit [DecidableEq ι] in
theorem Order.congr {σ' : St ι} {place : Place} (order : Order σ place) (real : place.Real)
    (same : σ.Same σ' (.at place)) :
    Order σ' place := by
  cases place with
  | chain h => exact (ChainOk.congr order same.1 (same.2.1 real)).rebind same.2.2
  | free => exact FreeOk.congr order same.1 same.2
  | _ => trivial

/-- The lock comes with what it stands for, in order. -/
theorem triple_lock {place : Place} {type : LockType} {file : File} {offset len : Nat} {error : Err}
    {held : List (Lock File)} (here : file = place.file ∧ .ofLen offset len = place.range)
    (real : place.Real)
    (holding : Holding σ p held) (new : ∀ type, place.lock type ∉ held) :
    Triple (discipline room env) p E σ (lockReg file type offset len error) db fun _ db' σ' =>
      db' = db ∧ Carries p σ σ' ∧ Holding σ' p (place.lock type :: held) ∧ Order σ' place ∧
        Coherent room σ' ∧
        (Alone p → σ' = σ.acquire p place type) := by
  obtain ⟨rfl, range⟩ := here
  refine .bind (M := fun (r : Bool) db' σ' => r = true ∧ db' = db ∧ Carries p σ σ' ∧
    Holding σ' p (place.lock type :: held) ∧
    Order σ' place ∧ Coherent room σ' ∧ (Alone p → σ' = σ.acquire p place type)) (.call ?_) ?_
  · rintro τ relied inv - answer w answers
    have moved : fileKernel p (.setlkw place.file type (.ofLen offset len)) τ.w =
      some (answer, w) := answers
    rw [fileKernel, range] at moved
    split at moved
    · cases moved
    case isFalse free =>
      cases moved
      have granted : τ.w.locks.blocked p (place.lock type) = false := Bool.eq_false_iff.2 free
      have unheld (type : LockType) : ¬τ.Holds p place type :=
        fun had => new type (((holding.later relied) _).1 had)
      have inv' := inv.acquire real unheld granted
      have nobody (q : ι) : ¬τ.Holds q place .write := by
        intro heldQ
        by_cases own : q = p
        · exact unheld .write (own ▸ heldQ)
        · have apart := Locks.not_blocked.1 granted q _ heldQ own
          simp [Place.lock, Lock.conflicts, Place.range_inhabited] at apart
      have same (o : Owner ι) : τ.Same (τ.acquire p place type) o :=
        .of_parts ⟨rfl, fun _ _ => rfl⟩ (fun _ _ _ _ _ => rfl) rfl rfl (fun _ _ => rfl) rfl
      refine ⟨τ.acquire p place type, τ.acquire p place type, rfl, inv.acquire_guar real unheld,
        inv', Rely.refl p _, rfl, rfl,
        ?_, ?_, ?_, inv', ?_⟩
      · exact ⟨relied.pos, relied.status, fun o reads => (relied.same o reads).trans (same o),
          relied.grows,
          relied.lost.trans (same _)⟩
      · intro l
        rw [inv.mem_acquire real unheld, relied.locks, holding l]
        simp
      · exact (inv.order real nobody).congr real (same _)
      · intro only
        rw [relied.alone only]
  · rintro _ _ σ' ⟨rfl, rfl, rest⟩
    rw [if_pos rfl]
    exact .pure ⟨rfl, rest⟩

/-- Giving up a lock on anything but a chain. -/
theorem triple_unlock {place : Place} {type : LockType} {file : File} {offset len : Nat}
    {error : Err}
    {held : List (Lock File)} (here : file = place.file ∧ .ofLen offset len = place.range)
    (real : place.Real)
    (notChain : ∀ h, place ≠ .chain h) (holding : Holding σ p (place.lock type :: held))
    (new : ∀ type, place.lock type ∉ held)
    (order : type = .write → Order σ place)
    (live : place = .free → type = .write → ∀ h x e, h < nhashDef → σ.Holds p (.chain h) .write →
      x ∈ σ.chain h → σ.img.entryAt x = some e → isBlank e.key = false → Storing σ p e ∨
        σ.map e.key = some e.data) :
    Triple (discipline room env) p E σ (unLock file offset len error) db fun _ db' σ' =>
      db' = db ∧ Carries p σ σ' ∧ Holding σ' p held ∧ Coherent room σ' ∧
        (Alone p → σ' = σ.release p place) := by
  obtain ⟨rfl, range⟩ := here
  refine .bind (M := fun (r : Bool) db' σ' => r = true ∧ db' = db ∧ Carries p σ σ' ∧
    Holding σ' p held ∧ Coherent room σ' ∧
    (Alone p → σ' = σ.release p place)) (.call ?_) ?_
  · rintro τ relied inv - answer w answers
    have moved : fileKernel p (.unlock place.file (.ofLen offset len)) τ.w =
      some (answer, w) := answers
    rw [fileKernel, range] at moved
    cases moved
    have mine := holding.later relied
    have heldNow : τ.Holds p place type := (mine _).2 List.mem_cons_self
    have inv' : Coherent room (τ.release p place) := by
      refine inv.release real notChain fun isFree heldFree => ?_
      subst isFree
      have isWrite : type = .write := by
        rcases List.mem_cons.1 ((mine _).1 heldFree) with same | old
        · exact (Place.lock_inj real real same).2.symm
        · exact absurd old (new _)
      subst isWrite
      have reads : σ.Reads p (.at .free) := ⟨.write, (holding _).2 List.mem_cons_self⟩
      refine ⟨(order rfl).congr real (relied.same _ reads),
        fun h x e realH heldH member found visible => ?_⟩
      have heldSigma : σ.Holds p (.chain h) .write := (relied.locks _).1 heldH
      obtain ⟨list, -, map⟩ := relied.same (.at (.chain h)) ⟨.write, heldSigma⟩
      have member' : x ∈ σ.chain h := list.mem.1 member
      have found' : σ.img.entryAt x = some e := (list.entries x member').symm.trans found
      rw [Storing, relied.status, map e.key ((inv.chain h realH).hashed member found)]
      exact live rfl rfl h x e realH heldSigma member' found' visible
    have same (o : Owner ι) : τ.Same (τ.release p place) o :=
      .of_parts ⟨rfl, fun _ _ => rfl⟩ (fun _ _ _ _ _ => rfl) rfl rfl (fun _ _ => rfl) rfl
    refine ⟨τ.release p place, τ.release p place, rfl, inv.release_guar real, inv', Rely.refl p _,
      rfl, rfl, ?_, ?_, inv', ?_⟩
    · exact ⟨relied.pos, relied.status, fun o reads => (relied.same o reads).trans (same o),
        relied.grows,
        relied.lost.trans (same _)⟩
    · intro l
      rw [inv.mem_release real, mine l, List.mem_cons]
      constructor
      · rintro ⟨rfl | old, other⟩
        · exact absurd ⟨rfl, rfl, rfl⟩ other
        · exact old
      · intro old
        refine ⟨.inr old, ?_⟩
        rintro ⟨-, sameFile, sameRange⟩
        refine new l.type ?_
        rwa [Place.lock, ← sameFile, ← sameRange]
    · intro only
      rw [relied.alone only]
  · rintro _ _ σ' ⟨rfl, rfl, rest⟩
    rw [if_pos rfl]
    exact .pure ⟨rfl, rest⟩

/-- A change of the map on the keys of one chain. -/
structure Local (h : Nat) (change : Map → Map) : Prop where
  elsewhere : ∀ m key, dbHash nhashDef key ≠ h → change m key = m key
  here : ∀ m m', (∀ key, dbHash nhashDef key = h → m' key = m key) →
    ∀ key, dbHash nhashDef key = h → change m' key = change m key

omit [DecidableEq ι] in
theorem update_local (key : Bytes) (v : Option Bytes) :
    Local (dbHash nhashDef key) fun m => Function.update m key v := by
  refine ⟨fun m k elsewhere => ?_, fun m m' same k here => ?_⟩
  · exact Function.update_of_ne (by rintro rfl; exact elsewhere rfl) _ _
  · rw [Function.update_apply, Function.update_apply, same k here]

omit [DecidableEq ι] in
theorem id_local (h : Nat) : Local h id := ⟨fun _ _ _ => rfl, fun _ _ same => same⟩

omit [DecidableEq ι] in
/-- The chain is in order for what the change makes of the map as long as nothing of the chain is
touched. -/
theorem ChainOk.same {σ' : St ι} {h : Nat} {change : Map → Map} (ok : ChainOk σ h (change σ.map))
    (isLocal : Local h change)
    (real : h < nhashDef) (same : σ.Same σ' (.at (.chain h))) : ChainOk σ' h (change σ'.map) := by
  obtain ⟨list, head, map⟩ := same
  exact (ok.congr list (head real)).rebind (isLocal.here _ _ map)

/-- The chain is unlocked, in order for the map the operation leaves: this is the effect of the
operation. -/
theorem triple_unlockChain {h : Nat} {type : LockType} {op : Op} {res : Res} {change : Map → Map}
    {error : Err}
    (real : h < nhashDef) (holding : Holding σ p [(Place.chain h).lock type])
    (status : σ.obj.status p = .pending op)
    (own : σ.members (.priv p) = [] ∧ σ.fresh p = none) (isLocal : Local h change)
    (spec : ∀ s : Atomic ι Map Op Res, (∀ key, dbHash nhashDef key = h → s.value key = σ.map key) →
      dbSpec s op res (change s.value))
    (chain : ChainOk σ h (change σ.map)) (reader : type = .read → ∀ m, change m = m) :
    Triple (discipline room env) p E σ (unLock .idx (chainOff h) 1 error) db fun _ db' σ' =>
      db' = db ∧ σ'.w.pos p = σ.w.pos p ∧ Holding σ' p [] ∧ σ'.obj.status p = .done op res ∧
        Coherent room σ' ∧
        σ'.members .lost = σ.members .lost ∧
          (Alone p → σ' = (σ.release p (.chain h)).setObj ⟨change σ.map,
          Function.update σ.obj.status p (.done op res)⟩) := by
  refine .bind (M := fun (r : Bool) db' σ' => r = true ∧ db' = db ∧ σ'.w.pos p = σ.w.pos p ∧
    Holding σ' p [] ∧
    σ'.obj.status p = .done op res ∧ Coherent room σ' ∧ σ'.members .lost = σ.members .lost ∧
    (Alone p → σ' = (σ.release p (.chain h)).setObj ⟨change σ.map,
      Function.update σ.obj.status p (.done op res)⟩))
    (.call ?_) ?_
  · rintro τ relied inv - answer w answers
    cases answers
    have mine := holding.later relied
    have heldNow : τ.Holds p (.chain h) type := (mine _).2 List.mem_cons_self
    have reads : σ.Reads p (.at (.chain h)) := ⟨type, (holding _).2 List.mem_cons_self⟩
    have same := relied.same _ reads
    have map := same.2.2
    obtain ⟨list', fresh⟩ := relied.same (.priv p) rfl
    let obj : Atomic ι Map Op Res := ⟨change τ.map, Function.update τ.obj.status p (.done op res)⟩
    have effect : Atomic.Step (ε := Err) dbSpec τ.obj (.effect p) obj :=
      .effect (relied.status.trans status) (spec τ.obj map)
    have order : ChainOk τ h obj.value := chain.same isLocal real same
    have locks (l : Lock File) : (p, l) ∈ τ.w.locks ↔ l = (Place.chain h).lock type := by
      simpa using mine l
    have inv' : Coherent room ((τ.release p (.chain h)).setObj obj) :=
      inv.unlockChain real locks ⟨list'.members.trans own.1, fresh.trans own.2⟩
        (fun q other => by simp [obj, other]) (fun key => isLocal.elsewhere _ key) order
    have kept : Guar p τ ((τ.release p (.chain h)).setObj obj) :=
      inv.unlockChain_guar real heldNow effect (fun key => isLocal.elsewhere _ key) fun isRead =>
        reader isRead _
    refine ⟨_, _, ?_, kept, inv', Rely.refl p _, rfl, rfl, relied.pos, ?_, ?_, inv',
      relied.lost.members, ?_⟩
    · rfl
    · intro l
      change (p, l) ∈ (τ.release p (.chain h)).w.locks ↔ _
      rw [inv.mem_release (Place.chain_real real), locks l]
      refine iff_of_false ?_ (List.not_mem_nil)
      rintro ⟨rfl, other⟩
      exact other ⟨rfl, rfl, rfl⟩
    · simp [St.setObj, obj]
    · intro only
      obtain rfl := relied.alone only
      rfl
  · rintro _ _ σ' ⟨rfl, rfl, rest⟩
    rw [if_pos rfl]
    exact .pure ⟨rfl, rest⟩

end Apue.Db
