import Apue.Db.Invariant

/-! # Whole scans

What `db_nextrec` returns until it reports the end of the index file, as a function of the place
where the scan goes on.
-/

namespace Apue.Db

open Apue.Base St

variable {d : Layout} {img : Image} {n m : Nat} {w w' : World Unit File} {db db' : DB}

/-! ## The records from an offset on -/

/-- The undeleted records among those that start at `offset`, as far as they start at `n` or after
it. -/
def scanFrom (n : Nat) : Nat → List Entry → List (Bytes × Bytes)
  | _, [] => []
  | offset, e :: recs =>
    let rest := scanFrom n (offset + e.enc.length) recs
    if n ≤ offset ∧ isBlank e.key = false then (e.key, e.data) :: rest else rest

/-- What a scan returns that goes on at `n`. -/
def Image.scan (img : Image) (n : Nat) : List (Bytes × Bytes) := scanFrom n recordsOff img.recs

theorem mem_scanFrom {record : Bytes × Bytes} {offset : Nat} {recs : List Entry} :
    record ∈ scanFrom n offset recs ↔
    ∃ y e, tileAt Entry.enc recs y = some e ∧ n ≤ offset + y ∧ isBlank e.key = false ∧
      record = (e.key, e.data) := by
  induction recs generalizing offset with
  | nil => simp [scanFrom, tileAt]
  | cons e recs inductionHypothesis =>
    have solid := e.enc_solid
    have rest : record ∈ scanFrom n (offset + e.enc.length) recs ↔ ∃ y e', y ≠ 0 ∧
        tileAt Entry.enc (e :: recs) y = some e' ∧
        n ≤ offset + y ∧ isBlank e'.key = false ∧ record = (e'.key, e'.data) := by
      rw [inductionHypothesis]
      constructor
      · rintro ⟨y, e', found, later, visible, same⟩
        refine ⟨e.enc.length + y, e', by omega, ?_, by omega, visible, same⟩
        rw [tileAt, if_neg (by omega), if_neg (by omega), Nat.add_sub_cancel_left]
        exact found
      · rintro ⟨y, e', nonzero, found, later, visible, same⟩
        rw [tileAt, if_neg nonzero] at found
        split at found
        · cases found
        · exact ⟨y - e.enc.length, e', found, by omega, visible, same⟩
    have here : (n ≤ offset ∧ isBlank e.key = false) ∧ record = (e.key, e.data) ↔
        ∃ e', tileAt Entry.enc (e :: recs) 0 = some e' ∧
        n ≤ offset + 0 ∧ isBlank e'.key = false ∧ record = (e'.key, e'.data) := by
      simp [tileAt, and_assoc]
    have split : (∃ y e', tileAt Entry.enc (e :: recs) y = some e' ∧ n ≤ offset + y ∧
        isBlank e'.key = false ∧
        record = (e'.key, e'.data)) ↔
          ((n ≤ offset ∧ isBlank e.key = false) ∧ record = (e.key, e.data)) ∨
          record ∈ scanFrom n (offset + e.enc.length) recs := by
      rw [here, rest]
      constructor
      · rintro ⟨y, e', found⟩
        by_cases zero : y = 0
        · exact .inl ⟨e', zero ▸ found⟩
        · exact .inr ⟨y, e', zero, found⟩
      · intro found
        cases found with
        | inl found => exact ⟨0, found⟩
        | inr found =>
          obtain ⟨y, e', -, found⟩ := found
          exact ⟨y, e', found⟩
    rw [split, scanFrom]
    split <;> simp_all

/-- A scan returns the undeleted records from its offset on. -/
theorem Image.mem_scan {key data : Bytes} : (key, data) ∈ img.scan n ↔
    ∃ x e, img.entryAt x = some e ∧ n ≤ x ∧ isBlank e.key = false ∧ e.key = key ∧
      e.data = data := by
  rw [Image.scan, mem_scanFrom]
  constructor
  · rintro ⟨y, e, found, later, visible, same⟩
    cases same
    refine ⟨recordsOff + y, e, ?_, later, visible, rfl, rfl⟩
    rw [Image.entryAt, if_neg (by omega), Nat.add_sub_cancel_left]
    exact found
  · rintro ⟨x, e, found, later, visible, sameKey, sameData⟩
    have start := Image.entryAt_records found
    refine ⟨x - recordsOff, e, Image.entryAt_tile found, by omega, visible, ?_⟩
    rw [sameKey, sameData]

/-- Two offsets with no undeleted record between them. -/
theorem scanFrom_congr {offset : Nat} {recs : List Entry}
    (agree : ∀ y e, tileAt Entry.enc recs y = some e → isBlank e.key = false →
    (n ≤ offset + y ↔ m ≤ offset + y)) :
    scanFrom n offset recs = scanFrom m offset recs := by
  induction recs generalizing offset with
  | nil => rfl
  | cons e recs inductionHypothesis =>
    have solid := e.enc_solid
    have first : (n ≤ offset ∧ isBlank e.key = false) ↔ (m ≤ offset ∧ isBlank e.key = false) :=
      and_congr_left fun visible => agree 0 e rfl visible
    have rest : scanFrom n (offset + e.enc.length) recs =
        scanFrom m (offset + e.enc.length) recs := by
      apply inductionHypothesis
      intro y e' found visible
      have := agree (e.enc.length + y) e' (by
        rw [tileAt, if_neg (by omega), if_neg (by omega), Nat.add_sub_cancel_left]
        exact found) visible
      rw [Nat.add_assoc]
      exact this
    simp only [scanFrom, rest, first]

theorem Image.scan_congr
    (agree : ∀ x e, img.entryAt x = some e → isBlank e.key = false → (n ≤ x ↔ m ≤ x)) :
    img.scan n = img.scan m := by
  apply scanFrom_congr
  intro y e found visible
  apply agree (recordsOff + y) e _ visible
  rw [Image.entryAt, if_neg (by omega), Nat.add_sub_cancel_left]
  exact found

theorem scanFrom_suffix {offset : Nat} (recs : List Entry) (le : n ≤ m) :
    scanFrom m offset recs <:+ scanFrom n offset recs := by
  induction recs generalizing offset with
  | nil => exact List.suffix_refl _
  | cons e recs inductionHypothesis =>
    have rest := @inductionHypothesis (offset + e.enc.length)
    simp only [scanFrom]
    by_cases later : m ≤ offset
    · have same : scanFrom m (offset + e.enc.length) recs =
          scanFrom n (offset + e.enc.length) recs :=
        scanFrom_congr fun y _ _ _ => by omega
      have first : (n ≤ offset ∧ isBlank e.key = false) ↔ (m ≤ offset ∧ isBlank e.key = false) :=
        and_congr_left fun _ => by omega
      simp [same, first]
    · rw [if_neg (fun holds => later holds.1)]
      split
      · exact rest.trans (List.suffix_cons ..)
      · exact rest

theorem Image.scan_suffix (img : Image) (le : n ≤ m) : img.scan m <:+ img.scan n :=
  scanFrom_suffix img.recs le

/-- The records that start before the offset are left out. -/
theorem scanFrom_skip {offset : Nat} (recs rest : List Entry)
    (early : offset + (tiles Entry.enc recs).length ≤ n) :
    scanFrom n offset (recs ++ rest) =
      scanFrom n (offset + (tiles Entry.enc recs).length) rest := by
  induction recs generalizing offset with
  | nil => simp [tiles]
  | cons r recs inductionHypothesis =>
    have solid := r.enc_solid
    simp only [tiles, List.flatMap_cons, List.length_append] at early ⊢
    rw [List.cons_append, scanFrom, if_neg (by omega),
      inductionHypothesis (by simp only [tiles]; omega), Nat.add_assoc]

/-- An undeleted record comes first in the scan that goes on at it. -/
theorem Image.scan_at {x : Nat} {e : Entry} (found : img.entryAt x = some e)
    (visible : isBlank e.key = false) :
    img.scan x = (e.key, e.data) :: img.scan (x + 11 + e.text.length) := by
  obtain ⟨before, after, split, length⟩ := tileAt_split (Image.entryAt_tile found)
  have start := Image.entryAt_records found
  have enc := e.enc_length
  have atX : recordsOff + (tiles Entry.enc before).length = x := by omega
  rw [Image.scan, Image.scan, split, scanFrom_skip before _ (by omega),
    scanFrom_skip before _ (by omega), atX]
  rw [scanFrom, scanFrom, if_pos ⟨Nat.le_refl _, visible⟩, if_neg (by omega)]
  congr 1
  apply scanFrom_congr
  intro y _ _ _
  omega

/-- The scan that goes on later returns fewer records if an undeleted one is left out. -/
theorem Image.scan_length_lt {x : Nat} {e : Entry} (found : img.entryAt x = some e)
    (visible : isBlank e.key = false)
    (from_n : n ≤ x) (before_m : x < m) : (img.scan m).length < (img.scan n).length := by
  have inner : (img.scan x).length ≤ (img.scan n).length := (img.scan_suffix from_n).length_le
  have first := Image.scan_at found visible
  have same : img.scan (x + 1) = img.scan (x + 11 + e.text.length) := by
    apply Image.scan_congr
    intro y d foundY _
    refine ⟨fun later => ?_, fun later => by omega⟩
    exact Image.entryAt_apart found foundY (by omega)
  have outer : (img.scan m).length ≤ (img.scan (x + 1)).length :=
    (img.scan_suffix before_m).length_le
  rw [same] at outer
  rw [first, List.length_cons] at inner
  omega

theorem Image.scan_eq_iff : img.scan n = img.scan m ↔
    ∀ x e, img.entryAt x = some e → isBlank e.key = false → (n ≤ x ↔ m ≤ x) := by
  refine ⟨fun same x e found visible => ?_, Image.scan_congr⟩
  have lengths := congrArg List.length same
  constructor
  · intro from_n
    by_contra early
    have := Image.scan_length_lt found visible from_n (Nat.lt_of_not_le early)
    omega
  · intro from_m
    by_contra early
    have := Image.scan_length_lt found visible from_m (Nat.lt_of_not_le early)
    omega

/-- One call of `db_nextrec` takes the first record off the scan. -/
theorem NextIs.scan {record : Option (Bytes × Bytes)} {n' : Nat} (next : NextIs img n record n') :
    img.scan n = match record with
      | some record => record :: img.scan n'
      | none => [] := by
  cases next with
  | inl next =>
    obtain ⟨x, e, found, visible, later, skips, rfl, rfl⟩ := next
    have same : img.scan n = img.scan x := by
      apply Image.scan_congr
      intro y d foundY visibleY
      refine ⟨fun from_n => ?_, fun _ => by omega⟩
      by_contra early
      have := skips y d from_n (by omega) foundY
      rw [visibleY] at this
      cases this
    rw [same]
    exact Image.scan_at found visible
  | inr next =>
    obtain ⟨rfl, -, skips⟩ := next
    rw [List.eq_nil_iff_forall_not_mem]
    intro (key, data) member
    obtain ⟨x, e, found, later, visible, -⟩ := Image.mem_scan.1 member
    have := skips x e later found
    rw [visible] at this
    cases this

/-! ## Runs of scans -/

/-- The records the calls of `db_nextrec` return, up to the call that reports the end. -/
inductive Scan : DB → World Unit File → List (Bytes × Bytes) → DB → World Unit File → Prop where
  | finish {db db' : DB} {w w' : World Unit File} (last : Exec soloKernel (dbNextrec db) w (.returned (none, db')) w') :
      Scan db w [] db' w'
  | record {db db₁ db' : DB} {w w₁ w' : World Unit File} {record : Bytes × Bytes} {records : List (Bytes × Bytes)}
      (first : Exec soloKernel (dbNextrec db) w (.returned (some record, db₁)) w₁)
        (rest : Scan db₁ w₁ records db' w') :
      Scan db w (record :: records) db' w'

theorem Scan.deterministic {records₁ records₂ : List (Bytes × Bytes)} {db₁ db₂ : DB}
    {w₁ w₂ : World Unit File}
    (first : Scan db w records₁ db₁ w₁) (second : Scan db w records₂ db₂ w₂) :
    records₁ = records₂ ∧ db₁ = db₂ ∧ w₁ = w₂ := by
  induction first generalizing records₂ with
  | finish last =>
    cases second with
    | finish last' =>
      obtain ⟨same, rfl⟩ := last.deterministic last'
      cases same
      exact ⟨rfl, rfl, rfl⟩
    | record first' rest' =>
      obtain ⟨same, -⟩ := last.deterministic first'
      cases same
  | record first rest inductionHypothesis =>
    cases second with
    | finish last' =>
      obtain ⟨same, -⟩ := first.deterministic last'
      cases same
    | record first' rest' =>
      obtain ⟨same, rfl⟩ := first.deterministic first'
      cases same
      obtain ⟨rfl, same⟩ := inductionHypothesis rest'
      exact ⟨rfl, same⟩

/-- From the start of a record on, a scan runs to the end of the file.  The induction is on what is
left of the file. -/
theorem Usable.scan (usable : Usable w db d) (boundary : Boundary d.img (w.pos () .idx)) :
    ∃ db' w', Scan db w (d.img.scan (w.pos () .idx)) db' w' ∧ Usable w' db' d ∧
      w'.bytes = w.bytes := by
  induction isLeft : d.img.size - w.pos () .idx using Nat.strongRecOn generalizing w db with
  | _ left inductionHypothesis =>
    obtain ⟨record, db₁, w₁, runs, usable₁, bytes₁, next, boundary₁⟩ := usable.nextrec boundary
    have scans := next.scan
    cases record with
    | none =>
      refine ⟨db₁, w₁, ?_, usable₁, bytes₁⟩
      rw [scans]
      exact .finish runs
    | some record =>
      have further : d.img.size - w₁.pos () .idx < left := by
        cases next with
        | inl next =>
          obtain ⟨x, e, found, -, later, -, -, pos⟩ := next
          have inside := Image.entryAt_bound found
          omega
        | inr next => cases next.1
      obtain ⟨db', w', rest, usable', bytes'⟩ := inductionHypothesis _ further usable₁ boundary₁ rfl
      refine ⟨db', w', ?_, usable', bytes'.trans bytes₁⟩
      rw [scans]
      exact .record runs rest

end Apue.Db
