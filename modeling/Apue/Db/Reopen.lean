import Apue.Db.Cursor

/-! # Opening a database again

What a process that ends inside an operation leaves in the files, and what the next one that opens
them sees: the bindings `db_fetch` finds and the records a scan returns.
-/

namespace Apue.Db

open Apue.Base St

variable {room : Nat} {d d' : Layout} {w w' : World Unit File} {db db' : DB} {idx dat : Bytes}
    {key data : Bytes}

/-! ## What is left in the files -/

/-- The layout of the files when the process ends: the records it was moving are lost. -/
def St.left (σ : St Unit) : Layout :=
  ⟨σ.img, σ.chain, σ.free, σ.members .lost ++ σ.members (.priv ())⟩

theorem St.left_offsets (σ : St Unit) :
    σ.left.offsets = σ.layout.offsets ++ σ.members (.priv ()) := by
  simp [Layout.offsets, St.left, St.layout]

/-- A process that ends with a chain locked leaves a database, with the bindings the chain stands
for. -/
theorem Coherent.left {σ : St Unit} (inv : Coherent room σ)
    (holding : Holding σ () [(keyPlace key).lock .write]) {m : Map}
    (chain : ChainOk σ (dbHash nhashDef key) m)
    (elsewhere : ∀ k, dbHash nhashDef k ≠ dbHash nhashDef key → m k = σ.map k) :
    DbRep (σ.w.bytes .idx) (σ.w.bytes .dat) σ.left ∧ σ.left.map = m := by
  have unheld {place : Place} (real : place.Real) (other : place ≠ keyPlace key) (q : Unit) :
      ¬σ.Holds q place .write := by
    intro held
    have inList := (holding _).1 held
    rw [List.mem_singleton] at inList
    exact other (Place.lock_inj real (keyPlace_real key) inList).1
  refine inv.rep_of (fun h real =>
    ?_) (inv.free.still (unheld Place.free_real (by simp [keyPlace]))) ?_ fun x => ?_
  · by_cases same : h = dbHash nhashDef key
    · rw [same]
      exact chain
    · have still := (inv.chain h real).still
        (unheld (Place.chain_real real) (by simpa [keyPlace] using same))
      apply still.rebind
      intro k hash
      apply elsewhere
      rw [hash]
      exact same
  · change σ.left.offsets.Nodup
    rw [St.left_offsets, List.nodup_append']
    refine ⟨St.layout_nodup inv.sorted, inv.sorted.nodup _, fun x inLists own => ?_⟩
    obtain ⟨o, notPriv, member⟩ := (St.mem_layout inv.sorted).1 inLists
    exact notPriv () (inv.sorted.one member own)
  · change x ∈ σ.left.offsets ↔ _
    rw [St.left_offsets, List.mem_append, St.mem_layout inv.sorted]
    constructor
    · rintro (⟨o, -, member⟩ | own)
      · exact ⟨o, member⟩
      · exact ⟨_, own⟩
    · rintro ⟨o, member⟩
      by_cases own : o = .priv ()
      · subst own
        exact .inr member
      · exact .inl ⟨o, fun _ => own, member⟩

/-- Bytes at the end of the data file belong to no record. -/
theorem DbRep.grow (rep : DbRep idx dat d) (more : Bytes) : DbRep idx (dat ++ more) d :=
  { rep with regions := fun x e found => (rep.regions x e found).append more }

/-- The layout with a record more, on no list. -/
def Layout.append (d : Layout) (e : Entry) : Layout :=
  { d with img := d.img.append e, lost := d.lost ++ [d.img.size] }

theorem Layout.append_entryAt {e : Entry} {x : Nat} :
    (d.append e).img.entryAt x = if x = d.img.size then some e else d.img.entryAt x :=
    Image.entryAt_append

theorem Layout.append_found {e e' : Entry} {x : Nat} (found : d.img.entryAt x = some e') :
    (d.append e).img.entryAt x = some e' := by
  rw [append_entryAt, if_neg, found]
  rintro rfl
  rw [Image.entryAt_size] at found
  cases found

/-- A record and its data appended to the two files, on no list. -/
theorem DbRep.append (rep : DbRep idx dat d) {e : Entry} (ok : e.Ok) (atEnd : e.doff = dat.length) :
    DbRep (idx ++ e.enc) (dat ++ (e.data ++ [newline])) (d.append e) := by
  have listed {x : Nat} (member : x ∈ d.offsets) :
      (d.append e).img.entryAt x = d.img.entryAt x := by
    obtain ⟨e', found⟩ := Option.isSome_iff_exists.1 ((rep.every x).2 member)
    rw [found]
    exact Layout.append_found found
  have pointer {x : Nat} (member : x ∈ d.offsets) : (d.append e).img.ptrAt x = d.img.ptrAt x := by
    obtain ⟨e', found⟩ := Option.isSome_iff_exists.1 ((rep.every x).2 member)
    rw [Image.ptrAt_record found, Image.ptrAt_record (Layout.append_found found)]
  have slot {off : Nat} (low : off < recordsOff) :
      (d.append e).img.ptrAt off = d.img.ptrAt off := by
    rw [Image.ptrAt, Image.ptrAt, if_pos low, if_pos low]
    rfl
  have inChain {h x : Nat} (real : h < nhashDef) (member : x ∈ d.chain h) : x ∈ d.offsets :=
    Layout.mem_offsets.2 (.inl ⟨h, real, member⟩)
  have inFree {x : Nat} (member : x ∈ d.free) : x ∈ d.offsets :=
    Layout.mem_offsets.2 (.inr (.inl member))
  have new : d.img.size ∉ d.offsets := by
    rw [← rep.every, Image.entryAt_size]
    simp
  have offsets : (d.append e).offsets = d.offsets ++ [d.img.size] := by
    simp [Layout.offsets, Layout.append]
  have region {x : Nat} {e' : Entry} (found : d.img.entryAt x = some e') :
      e'.doff + e'.dlen ≤ dat.length := by
    have inside := (rep.regions x e' found).bound
    rw [List.length_append, List.length_singleton] at inside
    exact inside
  exact
    { wellFormed := rep.wellFormed.append ok
      index := by rw [rep.index]; exact Image.append_bytes.symm
      chains := fun h real =>
        (rep.chains h real).congr (slot (chainOff_lt real)) fun x member =>
          pointer (inChain real member)
      freeList := rep.freeList.congr (slot (by decide)) fun x member => pointer (inFree member)
      once := by
        rw [offsets, List.nodup_append']
        refine ⟨rep.once, List.nodup_singleton _, fun x member last => new ?_⟩
        rwa [List.mem_singleton.1 last] at member
      every := fun x => by
        rw [offsets, List.mem_append, List.mem_singleton, ← rep.every, Layout.append_entryAt]
        split
        case isTrue last => simp [last]
        case isFalse earlier => simp [earlier]
      hashed := fun h real x member e' found => by
        rw [listed (inChain real member)] at found
        exact rep.hashed h real x member e' found
      distinct := fun h real x member y member' e₁ e₂ found found' => by
        rw [listed (inChain real member)] at found
        rw [listed (inChain real member')] at found'
        exact rep.distinct h real x member y member' e₁ e₂ found found'
      blank := fun x member e' found => by
        rw [listed (inFree member)] at found
        exact rep.blank x member e' found
      regions := fun x e' found => by
        rw [Layout.append_entryAt] at found
        split at found
        · cases found
          rw [atEnd]
          exact HasAt.at_end ..
        · exact (rep.regions x e' found).append _
      apart := fun x y e₁ e₂ different found found' => by
        rw [Layout.append_entryAt] at found found'
        split at found
        case isTrue lastX =>
          rw [if_neg (fun lastY => different (lastX.trans lastY.symm))] at found'
          cases found
          exact .inr (atEnd ▸ region found')
        case isFalse =>
          split at found'
          · cases found'
            exact .inl (atEnd ▸ region found)
          · exact rep.apart x y e₁ e₂ different found found' }

theorem Layout.append_map (rep : DbRep idx dat d) {e : Entry} : (d.append e).map = d.map := by
  funext k
  have same : ∀ x ∈ d.chain (dbHash nhashDef k), (d.append e).dataFor k x = d.dataFor k x := by
    intro x member
    obtain ⟨e', found⟩ := rep.record (dbHash_lt k) member
    rw [Layout.dataFor, Layout.dataFor, Layout.append_found found, found]
  have asMap (f : Nat → Option Bytes) (xs : List Nat) :
      xs.findSome? f = (xs.map f).findSome? id := by
    rw [List.findSome?_map, Function.id_comp]
  rw [Layout.map, Layout.map, asMap, asMap]
  exact congrArg _ (List.map_congr_left same)

/-! ## The records of a scan -/

/-- A scan of a database returns what is bound, and what is lost, as far as the key is not blank. -/
theorem DbRep.mem_scan_iff (rep : DbRep idx dat d) : (key, data) ∈ d.img.scan recordsOff ↔
    isBlank key = false ∧ (d.map key = some data ∨ ∃ x ∈ d.lost, ∃ e, d.img.entryAt x = some e ∧
      e.key = key ∧ e.data = data) := by
  rw [Image.mem_scan]
  constructor
  · rintro ⟨x, e, found, -, visible, rfl, rfl⟩
    refine ⟨visible, ?_⟩
    have listed := (rep.every x).1 (by rw [found]; rfl)
    rw [Layout.mem_offsets] at listed
    obtain ⟨h, real, member⟩ | member | member := listed
    · have hash := rep.hashed h real x member e found
      subst hash
      exact .inl (rep.map_iff.2 ⟨x, member, e, found, rfl, rfl⟩)
    · rw [rep.blank x member e found] at visible
      cases visible
    · exact .inr ⟨x, member, e, found, rfl, rfl⟩
  · rintro ⟨visible, bound | ⟨x, -, e, found, rfl, rfl⟩⟩
    · obtain ⟨x, -, e, found, rfl, rfl⟩ := rep.map_iff.1 bound
      exact ⟨x, e, found, Image.entryAt_records found, visible, rfl, rfl⟩
    · exact ⟨x, e, found, Image.entryAt_records found, visible, rfl, rfl⟩

theorem Layout.mem_append_scan {e : Entry} : (key, data) ∈ (d.append e).img.scan recordsOff ↔
    (key, data) ∈ d.img.scan recordsOff ∨ isBlank e.key = false ∧ e.key = key ∧ e.data = data := by
  rw [Image.mem_scan, Image.mem_scan]
  constructor
  · intro ⟨x, e', found, later, visible, sameKey, sameData⟩
    rw [append_entryAt] at found
    split at found
    · cases found
      exact .inr ⟨visible, sameKey, sameData⟩
    · exact .inl ⟨x, e', found, later, visible, sameKey, sameData⟩
  · rintro (⟨x, e', found, later, visible, sameKey, sameData⟩ | ⟨visible, sameKey, sameData⟩)
    · exact ⟨x, e', append_found found, later, visible, sameKey, sameData⟩
    · refine ⟨d.img.size, e, ?_, Nat.le_add_right .., visible, sameKey, sameData⟩
      rw [append_entryAt, if_pos rfl]

/-! ## Opening -/

/-- The two files are there, and the process may open them. -/
def Openable (w : World Unit File) : Prop :=
  ∀ file, w.present file = true ∧ w.denied () file = false

theorem Openable.call {c : FileCall File} {answer : FileCall.Answer c} (openable : Openable w)
    (answers : soloKernel c w = some (answer, w')) : Openable w' := by
  refine fun file => ⟨?_, ?_⟩
  · cases c with
    | openFile opened creat trunc =>
      simp only [soloKernel, fileKernel] at answers
      split at answers
      · cases answers
        exact (openable file).1
      · cases answers
        by_cases same : file = opened
        · simp [same]
        · simpa [same] using (openable file).1
    | lseek sought offset whence =>
      simp only [soloKernel, fileKernel] at answers
      split at answers <;> cases answers <;> exact (openable file).1
    | setlkw locked type range =>
      simp only [soloKernel, fileKernel] at answers
      split at answers <;> cases answers
      exact (openable file).1
    | _ =>
      cases answers
      exact (openable file).1
  · rw [fileKernel_denied answers]
    exact (openable file).2

/-- No call of a process makes the files go. -/
theorem Openable.exec {α : Type} {x : Prog (FileSig File) Err α} {outcome : Outcome Err α}
    (openable : Openable w)
    (runs : Exec soloKernel x w outcome w') : Openable w' := by
  induction runs with
  | ret value w => exact openable
  | abort error w => exact openable
  | loop _ inductionHypothesis => exact inductionHypothesis openable
  | call answers rest inductionHypothesis => exact inductionHypothesis (openable.call answers)

/-- A file that has been opened is there, and so is what was there before. -/
theorem present_of_open {file : File} {creat trunc : Bool}
    (opens : soloKernel (.openFile file creat trunc) w = some (true, w')) :
    w'.present = Function.update w.present file true ∧ w'.denied = w.denied := by
  refine ⟨?_, fileKernel_denied opens⟩
  change fileKernel () (.openFile file creat trunc) w = some (true, w') at opens
  rw [fileKernel] at opens
  split at opens <;> cases opens
  rfl

theorem Openable.of_open
    (opens : Exec soloKernel (dbOpen ⟨true, true⟩ db) w (.returned (true, db')) w') :
    Openable w' := by
  have granted := dbOpen_granted opens
  obtain ⟨idxfd, w₁, opened₁, rest⟩ := Exec.of_call opens
  obtain ⟨datfd, w₂, opened₂, rest⟩ := Exec.of_call rest
  have fileOpened {w w' : World Unit File}
      {file : File} {fd : Bool} (granted : w.denied () file = false)
      (opens : soloKernel (.openFile file true true) w = some (fd, w')) : fd = true := by
    change fileKernel () (.openFile file true true) w = some (fd, w') at opens
    rw [fileKernel, granted, if_neg (by simp)] at opens
    cases opens
    rfl
  obtain rfl := fileOpened (granted .idx) opened₁
  obtain ⟨present₁, denied₁⟩ := present_of_open opened₁
  have granted₁ : w₁.denied () .dat = false := by rw [denied₁, granted]
  obtain rfl := fileOpened granted₁ opened₂
  obtain ⟨present₂, denied₂⟩ := present_of_open opened₂
  have openable : Openable w₂ := by
    intro file
    rw [present₂, present₁, denied₂, denied₁]
    refine ⟨?_, granted file⟩
    cases file <;> simp
  exact openable.exec rest

theorem Session.openable {allowed : World Unit File → Op → Prop} {calls : List (Op × Res)}
    {db₁ : DB} {w₁ : World Unit File}
    (session : Session allowed db₁ w₁ calls db w) (openable : Openable w₁) : Openable w := by
  induction session with
  | start => exact openable
  | call _ _ returns inductionHypothesis => exact inductionHypothesis.exec returns

/-- Opening files that are there neither creates nor initializes anything. -/
theorem exec_dbOpen_again (openable : Openable w) (db : DB) :
    ∃ w', Exec soloKernel (dbOpen ⟨false, false⟩ db) w
    (.returned (true, { idxoff := recordsOff })) w' ∧ w'.bytes = w.bytes ∧ w'.locks = w.locks ∧
      w'.pos () .idx = recordsOff := by
  let opened (w : World Unit File) (file : File) : World Unit File :=
    { (w.setBytes file (w.bytes file)).setPos () file 0 with present := Function.update w.present file true }
  have opens (w : World Unit File) (file : File) (here : w.present file =
      true) (granted : w.denied () file = false) :
      soloKernel (.openFile file false false) w = some (true, opened w file) := by
    change fileKernel () (.openFile file false false) w = _
    rw [fileKernel, here, granted, if_neg (by simp)]
    rfl
  have openedDat : (opened w .idx).present .dat = true := by simpa [opened] using (openable .dat).1
  let w' := (opened (opened w .idx) .dat).setPos () .idx recordsOff
  have seek : soloKernel (.lseek .idx recordsOff .set) (opened (opened w .idx) .dat) =
    some (some recordsOff, w') := rfl
  refine ⟨w', ?_, ?_, rfl, by simp [w', World.setPos_pos]⟩
  · refine .call (opens w .idx (openable .idx).1 (openable .idx).2)
      (.call (opens _ .dat openedDat (openable .dat).2) ?_)
    exact .call seek (.ret _ _)
  · funext file
    simp [w', opened, World.setBytes, World.setPos]

/-- What `db_fetch` returns for the key, once the database is opened. -/
def Fetched (w : World Unit File) (key : Bytes) (data : Option Bytes) : Prop :=
  ∃ db₁ w₁ db₂ w₂, Exec soloKernel (dbOpen ⟨false, false⟩ {}) w (.returned (true, db₁)) w₁ ∧
    Exec soloKernel (dbFetch key db₁) w₁ (.returned (data, db₂)) w₂

/-- What a scan returns, once the database is opened. -/
def Returned (w : World Unit File) (records : List (Bytes × Bytes)) : Prop :=
  ∃ db₁ w₁ db₂ w₂, Exec soloKernel (dbOpen ⟨false, false⟩ {}) w (.returned (true, db₁)) w₁ ∧
    Scan db₁ w₁ records db₂ w₂

/-- Opened in the one state and in the other, the database has the same bindings and the same set of
records. -/
def SameView (w w' : World Unit File) : Prop :=
  (∀ key, NulFree key → ∀ data, Fetched w key data ↔ Fetched w' key data) ∧
    ∃ records records', Returned w records ∧ Returned w' records' ∧ ∀ record, record ∈ records ↔
      record ∈ records'

theorem Fetched.deterministic {data₁ data₂ : Option Bytes} (first : Fetched w key data₁)
    (second : Fetched w key data₂) :
    data₁ = data₂ := by
  obtain ⟨db₁, w₁, db₂, w₂, opens, fetches⟩ := first
  obtain ⟨db₃, w₃, db₄, w₄, opens', fetches'⟩ := second
  obtain ⟨same, rfl⟩ := opens.deterministic opens'
  cases same
  cases (fetches.deterministic fetches').1
  rfl

theorem Returned.deterministic {records₁ records₂ : List (Bytes × Bytes)}
    (first : Returned w records₁)
    (second : Returned w records₂) : records₁ = records₂ := by
  obtain ⟨db₁, w₁, db₂, w₂, opens, scans⟩ := first
  obtain ⟨db₃, w₃, db₄, w₄, opens', scans'⟩ := second
  obtain ⟨same, rfl⟩ := opens.deterministic opens'
  cases same
  exact (scans.deterministic scans').1

/-- A database that nobody has open, and that the process may open. -/
structure Closed (w : World Unit File) (d : Layout) : Prop where
  rep : DbRep (w.bytes .idx) (w.bytes .dat) d
  unlocked : w.locks = []
  openable : Openable w

theorem Closed.usable (closed : Closed w d) :
    ∃ db₁ w₁, Exec soloKernel (dbOpen ⟨false, false⟩ {}) w (.returned (true, db₁)) w₁ ∧
    Usable w₁ db₁ d ∧ w₁.pos () .idx = recordsOff := by
  obtain ⟨w₁, opens, bytes, locks, pos⟩ := exec_dbOpen_again closed.openable {}
  exact ⟨_, w₁, opens,
    ⟨by rw [bytes]; exact closed.rep, locks.trans closed.unlocked, rfl, rfl⟩, pos⟩

theorem Closed.fetched (closed : Closed w d) (clean : NulFree key) {found : Option Bytes} :
    Fetched w key found ↔ found = d.map key := by
  obtain ⟨db₁, w₁, opens, usable, -⟩ := closed.usable
  obtain ⟨db₂, w₂, fetches, -⟩ := usable.fetch clean
  have here : Fetched w key (d.map key) := ⟨db₁, w₁, db₂, w₂, opens, fetches⟩
  constructor
  · intro fetched
    exact fetched.deterministic here
  · rintro rfl
    exact here

theorem Closed.returned (closed : Closed w d) : Returned w (d.img.scan recordsOff) := by
  obtain ⟨db₁, w₁, opens, usable, pos⟩ := closed.usable
  obtain ⟨db₂, w₂, scans, -⟩ := usable.scan (.inl pos)
  rw [pos] at scans
  exact ⟨db₁, w₁, db₂, w₂, opens, scans⟩

/-- Two databases look the same if they have the same bindings and the same undeleted records. -/
theorem Closed.sameView_iff (closed : Closed w d) (closed' : Closed w' d') : SameView w w' ↔
    (∀ key, NulFree key → d'.map key = d.map key) ∧
      ∀ record, record ∈ d.img.scan recordsOff ↔ record ∈ d'.img.scan recordsOff := by
  constructor
  · intro ⟨fetches, records, records', first, second, same⟩
    refine ⟨fun key clean => ?_, ?_⟩
    · have there := (fetches key clean (d.map key)).1 ((closed.fetched clean).2 rfl)
      exact ((closed'.fetched clean).1 there).symm
    · rw [first.deterministic closed.returned, second.deterministic closed'.returned] at same
      exact same
  · intro ⟨bindings, same⟩
    refine ⟨fun key clean found => ?_, _, _, closed.returned, closed'.returned, same⟩
    rw [closed.fetched clean, closed'.fetched clean, bindings key clean]

end Apue.Db
