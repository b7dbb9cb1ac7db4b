import Apue.Db.Transform

/-! # Locks and effects

Taking a lock gives the process what the lock stands for, in order; giving it up requires that it is
in order again.  The effect of an operation on the map takes place when the chain is unlocked; the
effect of an operation that reads without a chain, when it reads.
-/

namespace Apue.Db

open Apue.Base St

variable {ι : Type} [DecidableEq ι] {room : Nat} {σ τ : St ι} {p q : ι} {place other : Place}
    {type type' : LockType}

namespace St

def acquire (σ : St ι) (p : ι) (place : Place) (type : LockType) : St ι :=
  { σ with w := { σ.w with locks := σ.w.locks.acquire p (place.lock type) } }

def release (σ : St ι) (p : ι) (place : Place) : St ι :=
  { σ with w := { σ.w with locks := σ.w.locks.release p place.file place.range } }

def setObj (σ : St ι) (obj : Atomic ι Map Op Res) : St ι := { σ with obj := obj }

end St

/-! ## The lock table -/

omit [DecidableEq ι] in
/-- Locks of a process on different places do not touch. -/
theorem Coherent.whole (inv : Coherent room σ) (real : place.Real) {l : Lock File}
    (held : (p, l) ∈ σ.w.locks)
    (sameFile : l.file = place.file) (touch : l.range.overlaps place.range = true) :
    l.range = place.range := by
  obtain ⟨other, type, realOther, rfl⟩ := inv.places held
  by_cases same : other = place
  · rw [same]
    rfl
  · have := realOther.apart real same sameFile
    change (other.lock type).range.overlaps place.range = false at this
    rw [touch] at this
    cases this

theorem Coherent.mem_release (inv : Coherent room σ) (real : place.Real) {l : Lock File} :
    (q, l) ∈ (σ.release p place).w.locks ↔ (q, l) ∈ σ.w.locks ∧
    ¬(q = p ∧ l.file = place.file ∧ l.range = place.range) := by
  change (q, l) ∈ σ.w.locks.release p place.file place.range ↔ _
  by_cases own : q = p
  · subst own
    rw [Locks.mem_release_self place.range_inhabited fun m held sameFile touch =>
      inv.whole real held sameFile touch]
    simp
  · rw [Locks.mem_release_other own]
    simp [own]

theorem Coherent.holds_release (inv : Coherent room σ) (real : place.Real)
    (realOther : other.Real) :
    (σ.release p place).Holds q other type ↔ σ.Holds q other type ∧ ¬(q = p ∧ other = place) := by
  unfold St.Holds
  rw [inv.mem_release real]
  refine and_congr_right fun _ => not_congr (and_congr_right fun _ => ?_)
  constructor
  · rintro ⟨sameFile, sameRange⟩
    have sameLock : other.lock type = place.lock type := by
      simp only [Place.lock] at sameFile sameRange ⊢
      rw [sameFile, sameRange]
    exact (Place.lock_inj realOther real sameLock).1
  · rintro rfl
    exact ⟨rfl, rfl⟩

theorem Coherent.mem_acquire (inv : Coherent room σ) (real : place.Real)
    (unheld : ∀ type, ¬σ.Holds p place type)
    {l : Lock File} :
    (q, l) ∈ (σ.acquire p place type).w.locks ↔ (q = p ∧ l = place.lock type) ∨
    (q, l) ∈ σ.w.locks := by
  change (q, l) ∈ (p, place.lock type) :: (σ.release p place).w.locks ↔ _
  rw [List.mem_cons, Prod.mk.injEq, inv.mem_release real]
  refine or_congr_right ⟨And.left, fun held => ⟨held, ?_⟩⟩
  rintro ⟨rfl, sameFile, sameRange⟩
  obtain ⟨other, type', realOther, rfl⟩ := inv.places held
  have same : other = place := by
    by_contra different
    have := realOther.apart real different sameFile
    change (other.lock type').range.overlaps place.range = false at this
    rw [sameRange, place.range_inhabited] at this
    cases this
  exact unheld type' (same ▸ held)

theorem Coherent.holds_acquire (inv : Coherent room σ) (real : place.Real)
    (unheld : ∀ type, ¬σ.Holds p place type)
    (realOther : other.Real) : (σ.acquire p place type).Holds q other type' ↔
      (q = p ∧ other = place ∧ type' = type) ∨ σ.Holds q other type' := by
  unfold St.Holds
  rw [inv.mem_acquire real unheld]
  refine or_congr_left (and_congr_right fun _ =>
    ⟨fun same => Place.lock_inj realOther real same, ?_⟩)
  rintro ⟨rfl, rfl⟩
  rfl

/-! ## Taking a lock -/

theorem Coherent.acquire (inv : Coherent room σ) (real : place.Real)
    (unheld : ∀ type, ¬σ.Holds p place type)
    (granted : σ.w.locks.blocked p (place.lock type) = false) :
    Coherent room (σ.acquire p place type) where
  img := inv.img
  idx := inv.idx
  room := inv.room
  stored := ⟨inv.stored.there, inv.stored.apart⟩
  sorted := ⟨inv.sorted.owned, inv.sorted.one, inv.sorted.nodup, inv.sorted.listed⟩
  consistent := inv.consistent.acquire granted
  places held := by
    rcases (inv.mem_acquire real unheld).1 held with ⟨-, rfl⟩ | old
    · exact ⟨place, type, real, rfl⟩
    · exact inv.places old
  chain h realH := by
    have old := inv.chain h realH
    have more {q : ι} {other : Place} {type' : LockType} (realOther : other.Real) (held : σ.Holds q
        other type') :
        (σ.acquire p place type).Holds q other type' :=
          (inv.holds_acquire real unheld realOther).2 (.inr held)
    refine ⟨old.hashed, fun free => ?_, fun {q x e} held member found visible => ?_⟩
    · exact (old.still fun q held => free q (more realH held)).congr ⟨rfl, fun _ _ => rfl⟩ rfl
    · rcases (inv.holds_acquire real unheld (Place.chain_real realH)).1 held with ⟨rfl, same,
        rfl⟩ | before
      · -- the chain was in order until now
        have free (r : ι) (heldR : σ.Holds r (.chain h) .write) : False := by
          by_cases own : r = q
          · exact unheld .write (by rw [← same, ← own]; exact heldR)
          · have apart := Locks.not_blocked.1 granted r _ heldR own
            rw [← same] at apart
            simp [Place.lock, Lock.conflicts, Place.range_inhabited] at apart
        have ok := old.still free
        exact .inr (.inr ((ok.bound (old.hashed member found) e.data).2 ⟨x, member, e, found,
          rfl, rfl⟩))
      · rcases old.live before member found visible with free | storing | bound
        · exact .inl (more Place.free_real free)
        · exact .inr (.inl storing)
        · exact .inr (.inr bound)
  free := by
    refine ⟨inv.free.blank, fun free => ?_⟩
    refine (inv.free.still fun q held => free q ?_).congr ⟨rfl, fun _ _ => rfl⟩ rfl
    exact (inv.holds_acquire real unheld Place.free_real).2 (.inr held)
  priv q := by
    refine ⟨fun free => (inv.priv q).still fun h realH held => free h realH ?_, (inv.priv q).live⟩
    exact (inv.holds_acquire real unheld (Place.chain_real realH)).2 (.inr held)

theorem Coherent.acquire_guar (inv : Coherent room σ) (real : place.Real)
    (unheld : ∀ type, ¬σ.Holds p place type) :
    Guar p σ (σ.acquire p place type) where
  pos _ _ := rfl
  locks q other l := by
    rw [inv.mem_acquire real unheld]
    simp [other]
  same o _ := .of_parts ⟨rfl, fun _ _ => rfl⟩ (fun _ _ _ _ _ => rfl) rfl rfl (fun _ _ => rfl) rfl
  grows := .refl σ
  lasting _ := .refl σ
  object := .inl rfl

/-! ## Giving up a lock -/

/-- Giving up a lock on anything but a chain.  If it is the free list, this must be in order, and no
record may be left half deleted. -/
theorem Coherent.release (inv : Coherent room σ) (real : place.Real)
    (notChain : ∀ h, place ≠ .chain h)
    (free : place = .free → σ.Holds p .free .write → FreeOk σ ∧ ∀ h x e, h < nhashDef →
    σ.Holds p (.chain h) .write →
      x ∈ σ.chain h → σ.img.entryAt x = some e → isBlank e.key = false → Storing σ p e ∨
        σ.map e.key = some e.data) :
    Coherent room (σ.release p place) where
  img := inv.img
  idx := inv.idx
  room := inv.room
  stored := ⟨inv.stored.there, inv.stored.apart⟩
  sorted := ⟨inv.sorted.owned, inv.sorted.one, inv.sorted.nodup, inv.sorted.listed⟩
  consistent := inv.consistent.release p place.file place.range
  places held := inv.places ((inv.mem_release real).1 held).1
  chain h realH := by
    have realC : (Place.chain h).Real := realH
    have old := inv.chain h realH
    have kept (q : ι) : (σ.release p place).Holds q (.chain h) .write ↔
        σ.Holds q (.chain h) .write := by
      rw [inv.holds_release real realC]
      exact and_iff_left fun same => notChain h same.2.symm
    refine ⟨old.hashed, fun unheld => ?_, fun {q x e} held member found visible => ?_⟩
    · exact (old.still fun q held => unheld q ((kept q).2 held)).congr ⟨rfl, fun _ _ => rfl⟩ rfl
    · have before := (kept q).1 held
      by_cases gone : q = p ∧ Place.free = place
      · obtain ⟨rfl, rfl⟩ := gone
        rcases old.live before member found visible with heldFree | live
        · exact .inr ((free rfl heldFree).2 h x e realH before member found visible)
        · exact .inr live
      · rcases old.live before member found visible with heldFree | live
        · exact .inl ((inv.holds_release real Place.free_real).2 ⟨heldFree, gone⟩)
        · exact .inr live
  free := by
    refine ⟨inv.free.blank, fun unheld => ?_⟩
    by_cases held : place = .free ∧ σ.Holds p .free .write
    · exact (free held.1 held.2).1.congr ⟨rfl, fun _ _ => rfl⟩ rfl
    · refine (inv.free.still fun q heldQ => unheld q ?_).congr ⟨rfl, fun _ _ => rfl⟩ rfl
      refine (inv.holds_release real Place.free_real).2 ⟨heldQ, ?_⟩
      rintro ⟨rfl, same⟩
      exact held ⟨same.symm, heldQ⟩
  priv q := by
    refine ⟨fun unheld => (inv.priv q).still fun h realH held => unheld h realH ?_,
      (inv.priv q).live⟩
    refine (inv.holds_release real (Place.chain_real realH)).2 ⟨held, ?_⟩
    rintro ⟨-, same⟩
    exact notChain h same.symm

theorem Coherent.release_guar (inv : Coherent room σ) (real : place.Real) :
    Guar p σ (σ.release p place) where
  pos _ _ := rfl
  locks q other l := by
    rw [inv.mem_release real]
    simp [other]
  same o _ := .of_parts ⟨rfl, fun _ _ => rfl⟩ (fun _ _ _ _ _ => rfl) rfl rfl (fun _ _ => rfl) rfl
  grows := .refl σ
  lasting _ := .refl σ
  object := .inl rfl

/-! ## Effects -/

/-- The process holds only the lock of a chain: it unlocks the chain, in order for the map it
leaves. -/
theorem Coherent.unlockChain (inv : Coherent room σ) {h : Nat} (realH : h < nhashDef)
    (locks : ∀ l, (p, l) ∈ σ.w.locks ↔ l = (Place.chain h).lock type)
    (own : σ.members (.priv p) = [] ∧ σ.fresh p = none) {obj : Atomic ι Map Op Res}
    (status : ∀ q, q ≠ p → obj.status q = σ.obj.status q)
    (map : ∀ key, dbHash nhashDef key ≠ h → obj.value key = σ.map key)
    (chain : ChainOk σ h obj.value) :
    Coherent room ((σ.release p (.chain h)).setObj obj) where
  img := inv.img
  idx := inv.idx
  room := inv.room
  stored := ⟨inv.stored.there, inv.stored.apart⟩
  sorted := ⟨inv.sorted.owned, inv.sorted.one, inv.sorted.nodup, inv.sorted.listed⟩
  consistent := inv.consistent.release p _ _
  places held := inv.places ((inv.mem_release (Place.chain_real realH)).1 held).1
  chain k realK := by
    have real : (Place.chain h).Real := realH
    have realC : (Place.chain k).Real := realK
    have old := inv.chain k realK
    by_cases same : k = h
    · subst same
      refine ⟨old.hashed, fun _ => chain.congr ⟨rfl, fun _ _ => rfl⟩ rfl,
        fun {q x e} held member found visible => ?_⟩
      -- nobody else has the chain to write
      exfalso
      obtain ⟨heldQ, notOwn⟩ := (inv.holds_release real realC).1 held
      have heldP : σ.Holds p (.chain k) type := (locks _).2 rfl
      exact notOwn ⟨(inv.exclusive heldP heldQ).symm, rfl⟩
    · have kept (q : ι) : (σ.release p (.chain h)).Holds q (.chain k) .write ↔
          σ.Holds q (.chain k) .write := by
        rw [inv.holds_release real realC]
        exact and_iff_left fun both => same (Place.chain.inj both.2)
      have elsewhere (key : Bytes) (hash : dbHash nhashDef key = k) : obj.value key = σ.map key :=
        map key fun here => same (hash.symm.trans here)
      refine ⟨old.hashed, fun unheld => ?_, fun {q x e} held member found visible => ?_⟩
      · refine ((old.still fun q held => unheld q ((kept q).2 held)).rebind elsewhere).congr
          ⟨rfl, fun _ _ => rfl⟩ rfl
      · have before := (kept q).1 held
        have other : q ≠ p := by
          rintro rfl
          exact same (Place.chain.inj (Place.lock_inj realC real ((locks _).1 before)).1)
        change _ ∨ (∃ flag, obj.status q = _) ∨ obj.value e.key = _
        rw [status q other, elsewhere _ (old.hashed member found)]
        rcases old.live before member found visible with heldFree | live
        · exact .inl ((inv.holds_release real Place.free_real).2
            ⟨heldFree, fun both => other both.1⟩)
        · exact .inr live
  free := by
    refine ⟨inv.free.blank, fun unheld => ?_⟩
    refine (inv.free.still fun q heldQ => unheld q ?_).congr ⟨rfl, fun _ _ => rfl⟩ rfl
    exact (inv.holds_release (Place.chain_real realH) Place.free_real).2
      ⟨heldQ, fun both => by cases both.2⟩
  priv q := by
    by_cases same : q = p
    · subst same
      refine ⟨fun _ => own, fun {x e} (member : x ∈ σ.members (.priv q)) => ?_⟩
      rw [own.1] at member
      cases member
    · refine ⟨fun unheld => (inv.priv q).still fun k realK held => unheld k realK ?_,
        fun member found visible => ?_⟩
      · exact (inv.holds_release (Place.chain_real realH) (Place.chain_real realK)).2
          ⟨held, fun both => same both.1⟩
      · change ∃ flag, obj.status q = _
        rw [status q same]
        exact (inv.priv q).live member found visible

theorem Coherent.unlockChain_guar (inv : Coherent room σ) {h : Nat} (realH : h < nhashDef)
    (held : σ.Holds p (.chain h) type) {obj : Atomic ι Map Op Res}
    (effect : Atomic.Step (ε := Err) dbSpec σ.obj (.effect p) obj)
    (map : ∀ key, dbHash nhashDef key ≠ h → obj.value key = σ.map key)
    (reader : type = .read → obj.value = σ.map) :
    Guar p σ ((σ.release p (.chain h)).setObj obj) where
  pos _ _ := rfl
  locks q other l := by
    change (q, l) ∈ (σ.release p (.chain h)).w.locks ↔ _
    rw [inv.mem_release (Place.chain_real realH)]
    simp [other]
  same o untouched := by
    have list : SameList σ ((σ.release p (.chain h)).setObj obj) o := ⟨rfl, fun _ _ => rfl⟩
    rcases o with (k | _ | _ | _) | q | _
    · refine ⟨list, fun _ => rfl, fun key hash => ?_⟩
      by_cases same : k = h
      · cases type with
        | read => exact congrFun (reader rfl) key
        | write => exact absurd (same ▸ held) untouched
      · exact map key fun here => same (hash.symm.trans here)
    · exact ⟨list, rfl⟩
    · exact ⟨list, rfl⟩
    · exact ⟨list, rfl⟩
    · exact ⟨list, rfl⟩
    · exact list
  grows := .refl σ
  lasting _ := .refl σ
  object := .inr effect

section Status

omit [DecidableEq ι]

variable {obj : Atomic ι Map Op Res}

/-- A process that is changing no chain can change how far it is with its operation. -/
theorem Coherent.setStatus (inv : Coherent room σ)
    (unheld : ∀ h < nhashDef, ¬σ.Holds p (.chain h) .write)
    (status : ∀ q, q ≠ p → obj.status q = σ.obj.status q) (value : obj.value = σ.map) :
    Coherent room (σ.setObj obj) where
  img := inv.img
  idx := inv.idx
  room := inv.room
  stored := ⟨inv.stored.there, inv.stored.apart⟩
  sorted := ⟨inv.sorted.owned, inv.sorted.one, inv.sorted.nodup, inv.sorted.listed⟩
  consistent := inv.consistent
  places := inv.places
  chain h real := by
    have old := inv.chain h real
    refine ⟨old.hashed, fun free => ?_, fun {q x e} held member found visible => ?_⟩
    · rw [show (σ.setObj obj).map = σ.map from value]
      exact (old.still free).congr ⟨rfl, fun _ _ => rfl⟩ rfl
    · have other : q ≠ p := by
        rintro rfl
        exact unheld h real held
      change _ ∨ (∃ flag, obj.status q = _) ∨ obj.value e.key = _
      rw [status q other, value]
      exact old.live held member found visible
  free := ⟨inv.free.blank, fun free => (inv.free.still free).congr ⟨rfl, fun _ _ => rfl⟩ rfl⟩
  priv q := by
    refine ⟨(inv.priv q).still, fun {x e} (member : x ∈ σ.members (.priv q)) found visible => ?_⟩
    have other : q ≠ p := by
      rintro rfl
      rw [((inv.priv q).still unheld).1] at member
      cases member
    change ∃ flag, obj.status q = _
    rw [status q other]
    exact (inv.priv q).live member found visible

theorem St.setObj_same (value : obj.value = σ.map) (o : Owner ι) : σ.Same (σ.setObj obj) o :=
  .of_parts ⟨rfl, fun _ _ => rfl⟩ (fun _ _ _ _ _ => rfl) rfl rfl (fun _ _ => rfl) value

theorem St.setObj_rely (other : q ≠ p) (status : obj.status q = σ.obj.status q)
    (value : obj.value = σ.map) :
    Rely q σ (σ.setObj obj) where
  alone only := absurd (only p).symm other
  pos := rfl
  locks _ := Iff.rfl
  status := status
  same o _ := St.setObj_same value o
  grows := .refl σ
  lasting _ := .refl σ
  lost := St.setObj_same value _

end Status

end Apue.Db
