import Apue.Db.Cursor

/-! # What a whole scan lists

`db_rewind` and then `db_nextrec` until it reports the end.  The scan knows nothing of the chains:
it takes the records of the index file one after the other and leaves out those with a blank key.
The records on the free list are blank and no record is on no list, so what it returns are the
records on the chains, which are the bindings of the map.
-/

namespace Apue.Db

open Apue.Base St

variable {d : Layout} {w w' : World Unit File} {db db' : DB}

/-! ## The map, with scans in between -/

def Op.scans : Op → Bool
  | .rewind | .nextrec => true
  | _ => false

/-- The calls that are not part of a scan. -/
def mapCalls (calls : List (Op × Res)) : List (Op × Res) := calls.filter fun call => !call.1.scans

theorem mapCalls_scan {calls : List (Op × Res)} {op : Op} (scans : op.scans = true) (res : Res) :
    mapCalls (calls ++ [(op, res)]) = mapCalls calls := by simp [mapCalls, scans]

theorem mapCalls_snoc {calls : List (Op × Res)} {op : Op} (other : op.scans = false) (res : Res) :
    mapCalls (calls ++ [(op, res)]) = mapCalls calls ++ [(op, res)] := by simp [mapCalls, other]

/-- The files stand for the map that the other calls have made, whatever scans there were. -/
theorem Session.ordinary_map {calls : List (Op × Res)} {db₀ : DB} {w₀ : World Unit File}
    {d₀ : Layout} (start : Usable w₀ db₀ d₀)
    (session : Session Ordinary db₀ w₀ calls db w) :
    ∃ d, Usable w db d ∧ d.lost = d₀.lost ∧ mapRun d₀.map (mapCalls calls) = some d.map := by
  induction session with
  | start => exact ⟨d₀, start, rfl, rfl⟩
  | @call calls db₁ db₂ w₁ w₂ op res earlier may returns inductionHypothesis =>
    obtain ⟨d, usable, lost, run⟩ := inductionHypothesis
    have called (admits : Admits w₁ op) (other : op.scans = false) :
        ∃ d', Usable w₂ db₂ d' ∧ d'.lost = d₀.lost ∧
          mapRun d₀.map (mapCalls (calls ++ [(op, res)])) = some d'.map := by
      obtain ⟨res', db', w', d', runs, usable', lost', answer⟩ := usable.call admits
      obtain ⟨same, rfl⟩ := returns.deterministic runs
      cases same
      refine ⟨d', usable', lost'.trans lost, ?_⟩
      rw [mapCalls_snoc other]
      exact mapRun_snoc run answer
    -- a scan leaves the map as it is, the other calls change it as they say
    cases op with
    | fetch key => exact called may rfl
    | store key data flag => exact called may rfl
    | delete key => exact called may rfl
    | «open» oflag => exact may.elim
    | rewind =>
      obtain ⟨db', w', runs, usable', -, -⟩ := usable.rewind
      obtain ⟨same, rfl⟩ := returns.deterministic (Exec.bind runs (.ret _ _))
      cases same
      exact ⟨d, usable', lost, by rw [mapCalls_scan rfl]; exact run⟩
    | nextrec =>
      obtain ⟨⟨record, db'⟩, w', runs, last⟩ := Exec.of_bind_returned returns
      obtain ⟨-, kept⟩ := usable.nextrec_any runs
      cases last
      exact ⟨d, kept record _ rfl, lost, by rw [mapCalls_scan rfl]; exact run⟩

/-! ## The undeleted records -/

/-- The keys and the data of the undeleted records, in the order of the index file. -/
def Image.listing (img : Image) : List (Bytes × Bytes) :=
  (img.recs.filter fun e => !isBlank e.key).map fun e => (e.key, e.data)

theorem scanFrom_all {n offset : Nat} (recs : List Entry) (early : n ≤ offset) :
    scanFrom n offset recs = (recs.filter fun e => !isBlank e.key).map fun e =>
      (e.key, e.data) := by
  induction recs generalizing offset with
  | nil => rfl
  | cons e recs inductionHypothesis =>
    rw [scanFrom, inductionHypothesis (Nat.le_add_right_of_le early)]
    cases blank : isBlank e.key with
    | true => simp [blank]
    | false => simp [blank, early]

theorem Image.scan_records (img : Image) : img.scan recordsOff = img.listing :=
  scanFrom_all img.recs (Nat.le_refl _)

theorem Image.entryAt_middle {img : Image} {before after : List Entry} {e : Entry}
    (split : img.recs = before ++ e :: after) :
    img.entryAt (recordsOff + (tiles Entry.enc before).length) = some e := by
  rw [Image.entryAt, if_neg (by omega), Nat.add_sub_cancel_left, split]
  exact tileAt_middle Entry.enc_solid before after e

/-- The scan is not longer than the index file has records. -/
theorem Image.listing_length (img : Image) : img.listing.length ≤ img.recs.length := by
  rw [Image.listing, List.length_map]
  exact List.length_filter_le _ _

namespace DbRep

variable {idx dat : Bytes} (rep : DbRep idx dat d) (none : d.lost = [])

include rep none

/-- An undeleted record is on the chain of its key. -/
theorem onChain {x : Nat} {e : Entry} (found : d.img.entryAt x = some e)
    (visible : isBlank e.key = false) :
    x ∈ d.chain (dbHash nhashDef e.key) := by
  have member := (rep.every x).1 (by rw [found]; rfl)
  rw [Layout.mem_offsets, none] at member
  rcases member with ⟨h, real, member⟩ | member | member
  · rw [rep.hashed h real x member e found]
    exact member
  · rw [rep.blank x member e found] at visible
    cases visible
  · cases member

theorem mem_listing {key data : Bytes} :
    (key, data) ∈ d.img.listing ↔ d.map key = some data ∧ isBlank key = false := by
  rw [← Image.scan_records, Image.mem_scan, rep.map_iff]
  constructor
  · rintro ⟨x, e, found, -, visible, rfl, rfl⟩
    exact ⟨⟨x, rep.onChain none found visible, e, found, rfl, rfl⟩, visible⟩
  · rintro ⟨⟨x, -, e, found, rfl, rfl⟩, visible⟩
    exact ⟨x, e, found, Image.entryAt_records found, visible, rfl, rfl⟩

/-- Two undeleted records have different keys. -/
theorem listing_nodup : (d.img.listing.map Prod.fst).Nodup := by
  have apart : d.img.recs.Pairwise fun e e' => isBlank e.key = false → e.key ≠ e'.key := by
    rw [List.pairwise_iff_forall_sublist]
    intro e e' inOrder visible same
    obtain ⟨before, later, split, behind⟩ := List.cons_sublist_iff.1 inOrder
    obtain ⟨front, back, earlier⟩ := List.append_of_mem behind.1
    obtain ⟨middle, after, rest⟩ := List.append_of_mem (List.singleton_sublist.1 behind.2)
    have first : d.img.recs = front ++ e :: (back ++ later) := by simp [split, earlier]
    have second : d.img.recs = (front ++ e :: (back ++ middle)) ++ e' :: after := by
      simp [split, earlier, rest]
    -- both records are on the chain of the one key, where no key is twice
    have here := Image.entryAt_middle first
    have there := Image.entryAt_middle second
    have member := rep.onChain none here visible
    have member' := rep.onChain none there (same ▸ visible)
    have offsets := rep.distinct _ (dbHash_lt e.key) _ member _ (same ▸ member') e e'
      here there same
    have solid := e.enc_solid
    simp only [tiles, List.flatMap_append, List.flatMap_cons, List.length_append] at offsets
    omega
  rw [Image.listing, List.map_map, List.Nodup, List.pairwise_map]
  exact (apart.filter _).imp_of_mem fun member _ different =>
    different (by simpa using (List.mem_filter.1 member).2)

end DbRep

/-! ## The scan -/

/-- A scan of a whole database reached from a new one returns every binding of the map whose key is
not blank exactly once, in the order of the index file, and nothing else, in at most one call more
than there are records. -/
theorem scan_exact {calls : List (Op × Res)} {db₀ db₁ : DB} {w₀ w₁ : World Unit File}
    (unlocked : w₀.locks = [])
    (opens : Exec soloKernel (dbOpen ⟨true, true⟩ db₀) w₀ (.returned (true, db₁)) w₁)
    (session : Session Ordinary db₁ w₁ calls db w) :
    ∃ m d db₂ w₂ db₃ w₃, mapRun (fun _ => none) (mapCalls calls) = some m ∧
      DbRep (w.bytes .idx) (w.bytes .dat) d ∧
      Exec soloKernel (dbRewind db) w (.returned ((), db₂)) w₂ ∧ Scan db₂ w₂ d.img.listing db₃ w₃ ∧
      (∀ records db' w', Scan db₂ w₂ records db' w' → records = d.img.listing) ∧
      (∀ key data, (key, data) ∈ d.img.listing ↔ m key = some data ∧ isBlank key = false) ∧
      (d.img.listing.map Prod.fst).Nodup ∧ d.img.listing.length + 1 ≤ d.img.recs.length + 1 := by
  obtain ⟨start, -, -⟩ := Usable.of_open unlocked opens
  obtain ⟨d, usable, lost, run⟩ := session.ordinary_map start
  obtain ⟨db₂, w₂, rewinds, usable₂, -, pos⟩ := usable.rewind
  obtain ⟨db₃, w₃, scans, -, -⟩ := usable₂.scan (.inl pos)
  rw [pos, Image.scan_records] at scans
  refine ⟨d.map, d, db₂, w₂, db₃, w₃, run, usable.rep, rewinds, scans, ?_,
    fun key data => usable.rep.mem_listing lost,
    usable.rep.listing_nodup lost, Nat.succ_le_succ d.img.listing_length⟩
  intro records db' w' other
  exact (other.deterministic scans).1

/-- The scan of a database with one record. -/
theorem scan_exact_one : ∃ db₁ w₁ db w db₂ w₂ db₃ w₃,
    Exec soloKernel (dbOpen ⟨true, true⟩ {}) .absent (.returned (true, db₁)) w₁ ∧
      Exec soloKernel (dbCall (.store [97] [98] .insert) db₁) w₁ (.returned (.rc 0, db)) w ∧
      Exec soloKernel (dbRewind db) w (.returned ((), db₂)) w₂ ∧
        Scan db₂ w₂ [([97], [98])] db₃ w₃ := by
  obtain ⟨db₁, w₁, opens, usable, dat, -⟩ := exec_dbOpen_new (w := .absent) rfl (fun _ => rfl) {}
  have admits : Admits w₁ (.store [97] [98] .insert) := by
    refine ⟨⟨by simp [NulFree], by decide, by simp [NulFree], by decide, by decide⟩, by decide, ?_, ?_, ?_⟩
    · rw [dat]
      decide
    · rw [dat]
      decide
    · rw [usable.rep.index, usable.rep.wellFormed.bytes_length]
      decide
  obtain ⟨res, db, w, d', stores, -, -, answer⟩ := usable.call admits
  have session : Session Ordinary db₁ w₁ [(.store [97] [98] .insert, res)] db w :=
    .call .start admits stores
  obtain ⟨m, d, db₂, w₂, db₃, w₃, run, -, rewinds, scans, -, bindings, once, -⟩ :=
    scan_exact rfl opens session
  -- the map has the one binding
  obtain ⟨rfl, map⟩ : res = .rc 0 ∧ d'.map = Function.update (fun _ => none) [97] (some [98]) := by
    have outcome : mapCall (fun _ => none) (.store [97] [98] .insert) = some (res, d'.map) := answer
    simp only [mapCall, mapStore, Option.isSome_none, Bool.false_eq_true, if_false,
      Option.some.injEq, Prod.mk.injEq] at outcome
    exact ⟨outcome.1.symm, outcome.2.symm⟩
  have run' : mapRun (fun _ => none) ([] ++ [(.store [97] [98] .insert, .rc 0)]) = some d'.map :=
    mapRun_snoc rfl answer
  obtain rfl : m = d'.map := Option.some.inj (run.symm.trans run')
  have only : d.img.listing = [([97], [98])] := by
    refine List.perm_singleton.1
      ((List.perm_ext_iff_of_nodup (List.Nodup.of_map _ once) (List.nodup_singleton _)).2 ?_)
    rintro ⟨key, data⟩
    rw [bindings, List.mem_singleton, Prod.mk.injEq, map]
    by_cases same : key = [97]
    · subst same
      have visible : isBlank [97] = false := by decide
      simp [visible, eq_comm]
    · simp [same]
  rw [only] at scans
  exact ⟨db₁, w₁, db, w, db₂, w₂, db₃, w₃, opens, stores, rewinds, scans⟩

end Apue.Db
