import Apue.Db.Transform
import Mathlib.Data.List.Nodup

/-! # Chains and the free list

A record put in front of a list, a record taken out of a list, and a record whose data is
overwritten: the list is in order again, for the bindings one expects.
-/

namespace Apue.Db

open Apue.Base St

variable {ι : Type} {σ σ' : St ι} {h x : Nat} {m : Map} {e : Entry} {before after : List Nat}

theorem chainOff_notMem (real : h < nhashDef) {xs : List Nat}
    (records : ∀ z ∈ xs, ∃ e, σ.img.entryAt z = some e) :
    chainOff h ∉ xs := by
  intro member
  obtain ⟨e, found⟩ := records _ member
  have high := Image.entryAt_records found
  have low := chainOff_lt real
  omega

theorem ChainOk.records (ok : ChainOk σ h m) : ∀ z ∈ σ.chain h, ∃ e, σ.img.entryAt z = some e := by
  intro z member
  obtain ⟨e, found, -⟩ := ok.entries z member
  exact ⟨e, found⟩

theorem FreeOk.records (ok : FreeOk σ) : ∀ z ∈ σ.free, ∃ e, σ.img.entryAt z = some e := by
  intro z member
  obtain ⟨e, found, -⟩ := ok.entries z member
  exact ⟨e, found⟩

/-- The list without one of its records, which had the binding of its key. -/
theorem ChainOk.remove (ok : ChainOk σ h m) (real : h < nhashDef)
    (split : σ.chain h = before ++ x :: after)
    (found : σ.img.entryAt x = some e) (chain : σ'.chain h = before ++ after)
    (cell : σ'.img.ptrAt (lastCell (chainOff h) before) = some e.ptr)
    (rest : ∀ z, z = chainOff h ∨ z ∈ before ++ after → z ≠ lastCell (chainOff h) before →
      σ'.img.ptrAt z = σ.img.ptrAt z)
    (entries : ∀ z ∈ before ++ after, ∀ d, σ.img.entryAt z = some d →
    ∃ u, σ'.img.entryAt z = some (d.withPtr u)) :
    ChainOk σ' h (Function.update m e.key none) := by
  have distinct : (chainOff h :: (before ++ x :: after)).Nodup :=
    List.nodup_cons.2 ⟨split ▸ chainOff_notMem real ok.records, split ▸ ok.nodup⟩
  have inChain {z : Nat} (member : z ∈ before ++ after) : z ∈ σ.chain h := by
    rw [split]
    rcases List.mem_append.1 member with left | right
    · exact List.mem_append_left _ left
    · exact List.mem_append_right _ (List.mem_cons_of_mem _ right)
  have notX {z : Nat} (member : z ∈ before ++ after) : z ≠ x := by
    rintro rfl
    have nodup := split ▸ ok.nodup
    rw [List.nodup_middle] at nodup
    exact (List.nodup_cons.1 nodup).1 member
  have inX : x ∈ σ.chain h := by simp [split]
  -- every record left is an old one, up to its pointer
  have old {z : Nat} {d : Entry} (member : z ∈ before ++ after) (now : σ'.img.entryAt z = some d) :
      ∃ d', σ.img.entryAt z = some d' ∧ d.key = d'.key ∧ d.data = d'.data := by
    obtain ⟨d', was, _⟩ := ok.entries z (inChain member)
    obtain ⟨u, now'⟩ := entries z member d' was
    rw [now'] at now
    cases now
    exact ⟨d', was, rfl, rfl⟩
  constructor
  · rw [chain]
    refine (split ▸ ok.linked : Linked σ.img.ptrAt (chainOff h) (before ++ x :: after)).remove
      distinct ?_ ?_
    · rw [cell, Image.ptrAt_record found]
    · intro z member different
      refine rest z ?_ different
      rcases List.mem_cons.1 member with rfl | inList
      · exact .inl rfl
      · exact .inr inList
  · rw [chain]
    have nodup := split ▸ ok.nodup
    rw [List.nodup_middle] at nodup
    exact (List.nodup_cons.1 nodup).2
  · intro z member
    rw [chain] at member
    obtain ⟨d, was, hash⟩ := ok.entries z (inChain member)
    obtain ⟨u, now⟩ := entries z member d was
    exact ⟨_, now, hash⟩
  · intro y z d d' memberY memberZ foundY foundZ sameKey
    rw [chain] at memberY memberZ
    obtain ⟨f, wasY, keyY, -⟩ := old memberY foundY
    obtain ⟨f', wasZ, keyZ, -⟩ := old memberZ foundZ
    exact ok.distinct (inChain memberY) (inChain memberZ) wasY wasZ
      (by rw [← keyY, ← keyZ, sameKey])
  · intro key hash data
    rw [chain, Function.update_apply]
    split
    case isTrue same =>
      simp only [reduceCtorEq, false_iff, not_exists, not_and]
      intro z member d now sameKey
      obtain ⟨d', was, keyZ, -⟩ := old member now
      exact absurd (ok.distinct (inChain member) inX was found (by rw [← keyZ, sameKey, same]))
        (notX member)
    case isFalse different =>
      rw [ok.bound hash data]
      constructor
      · rintro ⟨z, member, d, was, sameKey, sameData⟩
        rw [split] at member
        have left : z ∈ before ++ after := by
          rcases List.mem_append.1 member with inBefore | inRest
          · exact List.mem_append_left _ inBefore
          · rcases List.mem_cons.1 inRest with rfl | inAfter
            · rw [found] at was
              cases was
              exact absurd sameKey.symm different
            · exact List.mem_append_right _ inAfter
        obtain ⟨u, now⟩ := entries z left d was
        exact ⟨z, left, _, now, sameKey, sameData⟩
      · rintro ⟨z, member, d, now, sameKey, sameData⟩
        obtain ⟨d', was, keyZ, dataZ⟩ := old member now
        exact ⟨z, inChain member, d', was, by rw [← keyZ, sameKey], by rw [← dataZ, sameData]⟩

/-- A record in front of its chain, for a key that had none. -/
theorem ChainOk.push (ok : ChainOk σ h m) (absent : m e.key = none)
    (hash : dbHash nhashDef e.key = h)
    (chain : σ'.chain h = x :: σ.chain h) (head : σ'.img.ptrAt (chainOff h) = some x)
    (found : σ'.img.entryAt x = some e) (next : σ.img.ptrAt (chainOff h) = some e.ptr)
    (new : x ∉ σ.chain h)
    (rest : ∀ z ∈ σ.chain h, σ'.img.entryAt z = σ.img.entryAt z) :
    ChainOk σ' h (Function.update m e.key (some e.data)) := by
  have nonzero : x ≠ 0 := by
    have high := Image.entryAt_records found
    have : 0 < recordsOff := by decide
    omega
  -- no record on the chain had the key
  have others {z : Nat} {d : Entry} (member : z ∈ σ.chain h) (was : σ.img.entryAt z = some d) :
      d.key ≠ e.key := by
    intro same
    have := (ok.bound hash d.data).2 ⟨z, member, d, was, same, rfl⟩
    rw [absent] at this
    cases this
  constructor
  · rw [chain]
    refine ok.linked.push nonzero head ?_ fun z member => ?_
    · rw [Image.ptrAt_record found, next]
    · obtain ⟨d, was, -⟩ := ok.entries z member
      rw [Image.ptrAt_record was, Image.ptrAt_record ((rest z member).trans was)]
  · rw [chain]
    exact List.nodup_cons.2 ⟨new, ok.nodup⟩
  · intro z member
    rw [chain] at member
    rcases List.mem_cons.1 member with rfl | inChain
    · exact ⟨e, found, hash⟩
    · rw [rest z inChain]
      exact ok.entries z inChain
  · intro y z d d' memberY memberZ foundY foundZ sameKey
    rw [chain] at memberY memberZ
    rcases List.mem_cons.1 memberY with rfl | inY <;> rcases List.mem_cons.1 memberZ with rfl | inZ
    · rfl
    · rw [found] at foundY
      cases foundY
      exact absurd sameKey.symm (others inZ ((rest z inZ).symm.trans foundZ))
    · rw [found] at foundZ
      cases foundZ
      exact absurd sameKey (others inY ((rest y inY).symm.trans foundY))
    · exact ok.distinct inY inZ ((rest y inY).symm.trans foundY)
        ((rest z inZ).symm.trans foundZ) sameKey
  · intro key hashKey data
    rw [chain, Function.update_apply]
    split
    case isTrue same =>
      simp only [Option.some.injEq]
      constructor
      · rintro rfl
        exact ⟨x, List.mem_cons_self, e, found, same.symm, rfl⟩
      · rintro ⟨z, member, d, now, sameKey, sameData⟩
        rcases List.mem_cons.1 member with rfl | inChain
        · rw [found] at now
          cases now
          exact sameData
        · exact absurd (sameKey.trans same) (others inChain ((rest z inChain).symm.trans now))
    case isFalse different =>
      rw [ok.bound hashKey data]
      constructor
      · rintro ⟨z, member, d, was, both⟩
        exact ⟨z, List.mem_cons_of_mem _ member, d, (rest z member).trans was, both⟩
      · rintro ⟨z, member, d, now, sameKey, sameData⟩
        rcases List.mem_cons.1 member with rfl | inChain
        · rw [found] at now
          cases now
          exact absurd sameKey.symm different
        · exact ⟨z, inChain, d, (rest z inChain).symm.trans now, sameKey, sameData⟩

/-- New data for a record of the chain. -/
theorem ChainOk.overwrite (ok : ChainOk σ h m) (real : h < nhashDef) (member : x ∈ σ.chain h)
    (found : σ.img.entryAt x = some e) {data : Bytes}
    (rewrites : Rewrites x { e with data := data } σ σ') :
    ChainOk σ' h (Function.update m e.key (some data)) := by
  have chain : σ'.chain h = σ.chain h := by rw [St.chain, rewrites.members]
  have here : σ'.img.entryAt x = some { e with data := data } := by rw [rewrites.entry, if_pos rfl]
  have rest {z : Nat} (different : z ≠ x) : σ'.img.entryAt z = σ.img.entryAt z := by
    rw [rewrites.entry, if_neg different]
  -- every record has an old one with its key and its pointer
  have old {z : Nat} {d : Entry} (now : σ'.img.entryAt z = some d) :
      ∃ d', σ.img.entryAt z = some d' ∧ d.key = d'.key ∧ d.ptr = d'.ptr ∧ (z ≠ x → d = d') := by
    by_cases same : z = x
    · rw [same, here] at now
      cases now
      exact ⟨e, same ▸ found, rfl, rfl, fun different => absurd same different⟩
    · exact ⟨d, (rest same).symm.trans now, rfl, rfl, fun _ => rfl⟩
  constructor
  · rw [chain]
    refine ok.linked.congr (rewrites.slot _ (chainOff_lt real)) fun z inChain => ?_
    obtain ⟨d, was, -⟩ := ok.entries z inChain
    by_cases same : z = x
    · rw [same, Image.ptrAt_record here, Image.ptrAt_record found]
    · rw [Image.ptrAt_record was, Image.ptrAt_record ((rest same).trans was)]
  · rw [chain]
    exact ok.nodup
  · intro z inChain
    rw [chain] at inChain
    obtain ⟨d, was, hash⟩ := ok.entries z inChain
    by_cases same : z = x
    · rw [same, found] at was
      cases was
      exact ⟨{ e with data := data }, same ▸ here, hash⟩
    · exact ⟨d, (rest same).trans was, hash⟩
  · intro y z d d' memberY memberZ foundY foundZ sameKey
    rw [chain] at memberY memberZ
    obtain ⟨f, wasY, keyY, -⟩ := old foundY
    obtain ⟨f', wasZ, keyZ, -⟩ := old foundZ
    exact ok.distinct memberY memberZ wasY wasZ (by rw [← keyY, ← keyZ, sameKey])
  · intro key hashKey data'
    rw [chain, Function.update_apply]
    split
    case isTrue same =>
      simp only [Option.some.injEq]
      constructor
      · rintro rfl
        exact ⟨x, member, _, here, same.symm, rfl⟩
      · rintro ⟨z, inChain, d, now, sameKey, sameData⟩
        obtain ⟨d', was, keyZ, -⟩ := old now
        have isX : z = x := ok.distinct inChain member was found (by rw [← keyZ, sameKey, same])
        rw [isX, here] at now
        cases now
        exact sameData
    case isFalse different =>
      rw [ok.bound hashKey data']
      refine exists_congr fun z => and_congr_right fun inChain => ?_
      by_cases isX : z = x
      · rw [isX, here, found]
        simp only [Option.some.injEq, exists_eq_left']
        refine iff_of_false ?_ ?_ <;>
        · rintro ⟨sameKey, -⟩
          exact different sameKey.symm
      · rw [rest isX]

/-- A blank record in front of the free list. -/
theorem FreeOk.push (ok : FreeOk σ) (free : σ'.free = x :: σ.free)
    (head : σ'.img.ptrAt freeOff = some x)
    (found : σ'.img.entryAt x = some e) (blank : isBlank e.key = true)
    (next : σ.img.ptrAt freeOff = some e.ptr)
    (new : x ∉ σ.free) (rest : ∀ z ∈ σ.free, σ'.img.entryAt z = σ.img.entryAt z) : FreeOk σ' := by
  have nonzero : x ≠ 0 := by
    have high := Image.entryAt_records found
    have : 0 < recordsOff := by decide
    omega
  constructor
  · rw [free]
    refine ok.linked.push nonzero head ?_ fun z member => ?_
    · rw [Image.ptrAt_record found, next]
    · obtain ⟨d, was, -⟩ := ok.entries z member
      rw [Image.ptrAt_record was, Image.ptrAt_record ((rest z member).trans was)]
  · rw [free]
    exact List.nodup_cons.2 ⟨new, ok.nodup⟩
  · intro z member
    rw [free] at member
    rcases List.mem_cons.1 member with rfl | inList
    · exact ⟨e, found, blank⟩
    · rw [rest z inList]
      exact ok.entries z inList

/-- The free list without one of its records. -/
theorem FreeOk.remove (ok : FreeOk σ) (split : σ.free = before ++ x :: after)
    (found : σ.img.entryAt x = some e)
    (free : σ'.free = before ++ after) (cell : σ'.img.ptrAt (lastCell freeOff before) = some e.ptr)
    (rest : ∀ z, z = freeOff ∨ z ∈ before ++ after → z ≠ lastCell freeOff before →
    σ'.img.ptrAt z = σ.img.ptrAt z)
    (entries : ∀ z ∈ before ++ after, ∀ d, σ.img.entryAt z = some d →
    ∃ u, σ'.img.entryAt z = some (d.withPtr u)) :
    FreeOk σ' := by
  have nodup := split ▸ ok.nodup
  have notFirst : freeOff ∉ before ++ x :: after := by
    rw [← split]
    intro member
    exact ok.linked.ne_zero member rfl
  constructor
  · rw [free]
    refine (split ▸ ok.linked : Linked σ.img.ptrAt freeOff (before ++ x :: after)).remove
      (List.nodup_cons.2 ⟨notFirst, nodup⟩) ?_ ?_
    · rw [cell, Image.ptrAt_record found]
    · intro z member different
      refine rest z ?_ different
      rcases List.mem_cons.1 member with rfl | inList
      · exact .inl rfl
      · exact .inr inList
  · rw [free]
    rw [List.nodup_middle] at nodup
    exact (List.nodup_cons.1 nodup).2
  · intro z member
    rw [free] at member
    have inFree : z ∈ σ.free := by
      rw [split]
      rcases List.mem_append.1 member with left | right
      · exact List.mem_append_left _ left
      · exact List.mem_append_right _ (List.mem_cons_of_mem _ right)
    obtain ⟨d, was, blank⟩ := ok.entries z inFree
    obtain ⟨u, now⟩ := entries z member d was
    exact ⟨_, now, blank⟩

end Apue.Db
