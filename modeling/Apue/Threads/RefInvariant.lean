import Apue.Threads.RefCount

/-! # What a thread may rely on

What a thread may rely on at a place follows from the locks it holds there and from its reference:
`f_count` belongs to the holder of `f_lock`, the chains to the holder of `hashlock`, and an object
to a thread that has the only reference to it, while the object is on no chain or the thread holds
`hashlock`.  A step of one thread keeps all this for the others (`Rely`), and what it does for the
thread itself is one lemma for each kind of step.

The gap in `foo_rele` between its two looks at the count is harmless because the caller keeps its
reference through it.
-/

namespace Apue.Threads.RefCount

open Apue.Base

variable {ι : Type}

/-- What a thread has at a place: the locks, the object it has a reference to, the object nobody
else has a reference to, and the object whose mutex only it can initialise or destroy. -/
structure Rights where
  hash : Bool := false
  lock : Option Nat := none
  owner : Option Nat := none
  sole : Option Nat := none
  raw : Option Nat := none

def Pc.rights : Pc → Rights
  | .idle | .fault | .findHash _ => {}
  | .allocCount fp _ | .allocId fp _ | .allocInit fp _ | .allocFree fp | .releFree fp =>
    { owner := some fp, sole := some fp, raw := some fp }
  | .allocHash fp _ | .releDestroy fp => { owner := some fp, sole := some fp }
  | .allocHead fp _ | .allocNext fp _ _ | .allocLink fp _ =>
    { hash := true, owner := some fp, sole := some fp }
  | .allocLock fp | .releRelock fp => { hash := true, owner := some fp }
  | .allocUnhash fp | .releRecheck fp => { hash := true, lock := some fp, owner := some fp }
  | .allocUnlock fp | .releTest fp | .releUnlock fp => { lock := some fp, owner := some fp }
  | .holdLock found fp => { hash := found, owner := if found then none else some fp }
  | .holdLoad found fp | .holdStore found fp _ | .holdUnlock found fp =>
    { hash := found, lock := some fp, owner := if found then none else some fp }
  | .findHead _ | .findTest _ _ | .findNext _ _ | .findUnhash _ | .decUnhash => { hash := true }
  | .releLock fp | .releHash fp => { owner := some fp }
  | .decLoad second fp | .decStore second fp _ =>
    { hash := second, lock := some fp, owner := some fp }
  | .decUnlock second fp => { hash := second, lock := some fp }
  | .releId fp | .releHead fp _ | .releFirst fp _ | .releFirstStore fp _ _ | .releWhile fp _ | .releStep fp _
  | .releNext fp _ | .releNextStore fp _ _ | .releUnhash fp =>
    { hash := true, lock := some fp, owner := some fp, sole := some fp }
  | .releLast fp => { lock := some fp, owner := some fp, sole := some fp }

/-- The object comes later in its chain than the other one. -/
def Behind (chains : Fin nhash → List Nat) (fp tfp : Nat) : Prop :=
  ∃ idx before mid after, chains idx = before ++ tfp :: (mid ++ fp :: after)

def Next (chains : Fin nhash → List Nat) (fp tfp : Nat) : Prop :=
  ∃ idx before after, chains idx = before ++ tfp :: fp :: after

theorem Behind.mem_chain {chains : Fin nhash → List Nat} {fp tfp : Nat}
    (behind : Behind chains fp tfp) :
    ∃ idx, tfp ∈ chains idx := by
  obtain ⟨idx, before, mid, after, split⟩ := behind
  exact ⟨idx, by simp [split]⟩

/-- What a thread knows about the values it has loaded. -/
def Pc.Regs (s : State ι) (chains : Fin nhash → List Nat) : Pc → Prop
  | .fault => False
  | .allocId fp _ | .allocFree fp => s.fCount fp = 1
  | .allocInit fp id => s.fCount fp = 1 ∧ s.fId fp = id
  | .allocHash fp id | .allocHead fp id => s.fId fp = id
  | .allocNext fp id head => s.fId fp = id ∧ s.fh (hash id) = head
  | .allocLink fp id => s.fId fp = id ∧ s.fNext fp = s.fh (hash id)
  | .holdLock found fp | .holdLoad found fp => found = true → ∃ idx, fp ∈ chains idx
  | .holdStore found fp count => s.fCount fp = count ∧ (found = true → ∃ idx, fp ∈ chains idx)
  | .findTest id fp => ∀ a ∈ fp, a ∈ chains (hash id)
  | .findNext id fp => fp ∈ chains (hash id)
  | .decLoad _ fp => s.fCount fp ≠ 1
  | .decStore _ fp count => s.fCount fp = count ∧ count ≠ 1
  | .releHead fp idx => hash (s.fId fp) = idx
  | .releFirst fp idx => s.fh idx = some fp
  | .releFirstStore fp idx next => s.fh idx = some fp ∧ s.fNext fp = next
  | .releWhile fp tfp => ∃ b ∈ tfp, Behind chains fp b
  | .releStep fp tfp => s.fNext tfp ≠ some fp ∧ Behind chains fp tfp
  | .releNext fp tfp => Next chains fp tfp
  | .releNextStore fp tfp next => s.fNext fp = next ∧ Next chains fp tfp
  | _ => True

structure Holds (s : State ι) (chains : Fin nhash → List Nat) (t : ι) (pc : Pc) : Prop where
  hash : s.hashlock = some t ↔ pc.rights.hash = true
  lock : ∀ a, s.fLock a = .held t ↔ pc.rights.lock = some a
  own : ∀ a, pc.rights.owner = some a → t ∈ s.refs a
  sole : ∀ a, pc.rights.sole = some a → s.refs a = [t]
  mutex : ∀ a, pc.offChain = some a → pc.rights.lock = none →
    s.fLock a = if pc.rights.raw = none then .free else .uninit
  regs : pc.Regs s chains

structure State.Inv (s : State ι) (chains : Fin nhash → List Nat) : Prop where
  thread : ∀ t, Holds s chains t (s.pc t)
  live : ∀ a, s.live a = true ↔ s.refs a ≠ []
  count : ∀ a, s.fLock a ≠ .uninit → s.refs a ≠ [] ∧ (s.fCount a).toInt = (s.refs a).length
  raw : ∀ a, s.refs a ≠ [] → s.fLock a = .uninit → ∃ t, (s.pc t).rights.raw = some a
  chain : ∀ idx, Chain s.fNext (s.fh idx) (chains idx)
  nodup : ∀ idx, (chains idx).Nodup
  mem : ∀ idx a, a ∈ chains idx ↔ s.refs a ≠ [] ∧ RefCount.hash (s.fId a) = idx ∧
    ∀ t, (s.pc t).offChain ≠ some a
  counted : ∀ a, s.mallocs a = s.frees a + if s.live a = true then 1 else 0

variable {s s' : State ι} {chains chains' : Fin nhash → List Nat} {t u : ι} {pc : Pc} {a : Nat}

/-! ## What the other threads rely on -/

/-- What a step of another thread leaves alone. -/
structure Rely (s : State ι) (chains : Fin nhash → List Nat) (s' : State ι)
    (chains' : Fin nhash → List Nat) (u : ι) :
    Prop where
  pc : s'.pc u = s.pc u
  hash : s'.hashlock = some u ↔ s.hashlock = some u
  lock : ∀ a, s'.fLock a = .held u ↔ s.fLock a = .held u
  own : ∀ a, u ∈ s.refs a → u ∈ s'.refs a
  sole : ∀ a, (s.pc u).rights.sole = some a → s'.refs a = s.refs a ∧ s'.fId a = s.fId a ∧
    s'.fCount a = s.fCount a
  count : ∀ a, (s.pc u).rights.lock = some a → s'.fCount a = s.fCount a
  links : (s.pc u).rights.hash = true → s'.fh = s.fh ∧ s'.fNext = s.fNext ∧ chains' = chains
  mutex : ∀ a, (s.pc u).offChain = some a → s'.fLock a = s.fLock a

/-- A step on the hash chains only. -/
theorem Rely.of_links
    (same : s'.hashlock = s.hashlock ∧ s'.fLock = s.fLock ∧ s'.refs = s.refs ∧ s'.fId = s.fId ∧
    s'.fCount = s.fCount) (pc : s'.pc u = s.pc u)
    (links : (s.pc u).rights.hash = true → s'.fh = s.fh ∧ s'.fNext = s.fNext ∧ chains' = chains) :
    Rely s chains s' chains' u := by
  obtain ⟨hash, lock, refs, id, count⟩ := same
  refine ⟨pc, ?_, fun a => ?_, fun a owns => ?_, fun a _ => ?_, fun a _ => ?_, links, fun a _ => ?_⟩
  · rw [hash]
  · rw [lock]
  · rwa [refs]
  · simp only [refs, id, count, and_self]
  · rw [count]
  · rw [lock]

/-- A step on the references and counts of an object only. -/
theorem Rely.of_objects
    (same : s'.hashlock = s.hashlock ∧ s'.fLock = s.fLock ∧ s'.fh = s.fh ∧ s'.fNext = s.fNext)
    (pc : s'.pc u = s.pc u) (own : ∀ a, u ∈ s.refs a → u ∈ s'.refs a)
    (sole : ∀ a, (s.pc u).rights.sole = some a → s'.refs a = s.refs a ∧ s'.fId a = s.fId a ∧
    s'.fCount a = s.fCount a)
    (count : ∀ a, (s.pc u).rights.lock = some a → s'.fCount a = s.fCount a) :
    Rely s chains s' chains u := by
  obtain ⟨hash, lock, heads, links⟩ := same
  refine ⟨pc, ?_, fun a => ?_, own, sole, count, fun _ => ⟨heads, links, rfl⟩, fun a _ => ?_⟩
  · rw [hash]
  · rw [lock]
  · rw [lock]

/-- The registers of a thread are safe: what they were loaded from is the thread's own or behind a
lock it has. -/
theorem Rely.regs (rely : Rely s chains s' chains' u) (holds : (s.pc u).Regs s chains) :
    (s.pc u).Regs s' chains' := by
  have sole := rely.sole
  have count := rely.count
  have links := rely.links
  cases at_ : s.pc u
  all_goals rw [at_] at holds sole count links
  case fault => exact holds
  -- the fields of an object that nobody else has
  case allocId | allocFree => exact (sole _ rfl).2.2.trans holds
  case allocInit fp id =>
    obtain ⟨_, sameId, sameCount⟩ := sole fp rfl
    exact ⟨sameCount.trans holds.1, sameId.trans holds.2⟩
  case allocHash | allocHead => exact (sole _ rfl).2.1.trans holds
  case allocNext fp id head =>
    obtain ⟨heads, _, _⟩ := links rfl
    exact ⟨(sole fp rfl).2.1.trans holds.1, by rw [heads, holds.2]⟩
  case allocLink fp id =>
    obtain ⟨heads, next, _⟩ := links rfl
    exact ⟨(sole fp rfl).2.1.trans holds.1, by rw [heads, next, holds.2]⟩
  case releHead fp idx =>
    have same : RefCount.hash (s'.fId fp) = RefCount.hash (s.fId fp) := by rw [(sole fp rfl).2.1]
    exact same.trans holds
  -- the count of a locked object
  case decLoad second fp =>
    have same := count fp rfl
    simpa [Pc.Regs, same] using holds
  case decStore second fp value => exact ⟨(count fp rfl).trans holds.1, holds.2⟩
  -- the hash chains
  case holdLock | holdLoad =>
    intro found
    obtain ⟨_, _, rfl⟩ := links found
    exact holds found
  case holdStore found fp value =>
    refine ⟨(count fp rfl).trans holds.1, fun found => ?_⟩
    obtain ⟨_, _, rfl⟩ := links found
    exact holds.2 found
  case findTest | findNext | releWhile | releNext =>
    obtain ⟨_, _, rfl⟩ := links rfl
    exact holds
  case releFirst fp idx =>
    have heads := (links rfl).1
    simpa [Pc.Regs, heads] using holds
  case releFirstStore fp idx next =>
    obtain ⟨heads, nexts, _⟩ := links rfl
    simpa [Pc.Regs, heads, nexts] using holds
  case releStep | releNextStore =>
    obtain ⟨_, nexts, rfl⟩ := links rfl
    simpa [Pc.Regs, nexts] using holds
  all_goals trivial

theorem Rely.holds (rely : Rely s chains s' chains' u) (holds : Holds s chains u (s.pc u)) :
    Holds s' chains' u (s'.pc u) := by
  rw [rely.pc]
  constructor
  · rw [rely.hash]
    exact holds.hash
  · intro a
    rw [rely.lock]
    exact holds.lock a
  · exact fun a owner => rely.own a (holds.own a owner)
  · intro a sole
    rw [(rely.sole a sole).1]
    exact holds.sole a sole
  · intro a off
    rw [rely.mutex a off]
    exact holds.mutex a off
  · exact rely.regs holds.regs

/-! ## What excludes what -/

section Places

attribute [local simp] Pc.rights Pc.offChain

theorem Pc.sole_cases (sole : pc.rights.sole = some a) :
    pc.offChain = some a ∨ pc.rights.hash = true ∧ pc.rights.lock = some a := by
  cases pc <;> simp_all

theorem Pc.offChain_sole (off : pc.offChain = some a) : pc.rights.sole = some a := by
  cases pc <;> simp_all

/-- Where an object is on no chain, the thread has its mutex or none. -/
theorem Pc.lock_of_offChain (off : pc.offChain = some a) (other : pc.rights.lock ≠ some a) :
    pc.rights.lock = none := by
  cases pc <;> simp_all

theorem Pc.raw_offChain (raw : pc.rights.raw = some a) : pc.offChain = some a := by
  cases pc <;> simp_all

end Places

namespace State.Inv

/-- What the thread that is at a place has. -/
theorem own (inv : s.Inv chains) (at_ : s.pc t = pc) : Holds s chains t pc := by
  rw [← at_]
  exact inv.thread t

theorem live_of_mem (inv : s.Inv chains) (owns : t ∈ s.refs a) : s.live a = true :=
  (inv.live a).mpr (List.ne_nil_of_mem owns)

theorem live_of_chain (inv : s.Inv chains) {idx : Fin nhash} (there : a ∈ chains idx) :
    s.live a = true :=
  (inv.live a).mpr ((inv.mem idx a).mp there).1

/-- The thread has come to the object by its reference or along a chain. -/
def Reaches (s : State ι) (chains : Fin nhash → List Nat) (t : ι) (a : Nat) : Prop :=
  t ∈ s.refs a ∨ s.hashlock = some t ∧ ∃ idx, a ∈ chains idx

theorem live_of_reaches (inv : s.Inv chains) (reaches : Reaches s chains t a) :
    s.live a = true := by
  obtain owns | ⟨_, idx, there⟩ := reaches
  · exact inv.live_of_mem owns
  · exact inv.live_of_chain there

/-- Nobody else comes to the object of a sole owner. -/
theorem eq_of_sole (inv : s.Inv chains) (sole : (s.pc u).rights.sole = some a)
    (reaches : Reaches s chains t a) : t = u := by
  have refs : s.refs a = [u] := (inv.thread u).sole a sole
  obtain owns | ⟨locked, idx, there⟩ := reaches
  · simpa [refs] using owns
  · obtain off | ⟨hash, _⟩ := Pc.sole_cases sole
    · exact absurd off (((inv.mem idx a).mp there).2.2 u)
    · have mine : s.hashlock = some u := (inv.thread u).hash.mpr hash
      rw [locked, Option.some.injEq] at mine
      exact mine

theorem eq_of_lock (inv : s.Inv chains) (first : (s.pc t).rights.lock = some a)
    (second : (s.pc u).rights.lock = some a) :
    t = u := by
  have one := ((inv.thread t).lock a).mpr first
  have two := ((inv.thread u).lock a).mpr second
  rw [one, Mutex.held.injEq] at two
  exact two

theorem eq_of_hash (inv : s.Inv chains) (first : (s.pc t).rights.hash = true)
    (second : (s.pc u).rights.hash = true) :
    t = u := by
  have one := (inv.thread t).hash.mpr first
  have two := (inv.thread u).hash.mpr second
  rw [one, Option.some.injEq] at two
  exact two

/-- A mutex that somebody comes to is initialised. -/
theorem init_of_reaches (inv : s.Inv chains) (reaches : Reaches s chains t a)
    (other : (s.pc t).rights.raw ≠ some a) :
    s.fLock a ≠ .uninit := by
  intro uninit
  have refs : s.refs a ≠ [] := (inv.live a).mp (inv.live_of_reaches reaches)
  obtain ⟨u, raw⟩ := inv.raw a refs uninit
  obtain rfl := inv.eq_of_sole (Pc.offChain_sole (Pc.raw_offChain raw)) reaches
  exact other raw

/-! ## Walking the chains -/

/-- A sole owner that has not started to remove its object finds it on its chain. -/
theorem on_chain (inv : s.Inv chains) (sole : (s.pc t).rights.sole = some a)
    (on : (s.pc t).offChain = none) :
    a ∈ chains (RefCount.hash (s.fId a)) := by
  have refs : s.refs a = [t] := (inv.thread t).sole a sole
  refine (inv.mem _ a).mpr ⟨by simp [refs], rfl, fun u off => ?_⟩
  obtain rfl := inv.eq_of_sole (Pc.offChain_sole off)
    (.inl (by rw [refs]; exact List.mem_singleton_self t))
  simp [on] at off

theorem head_behind {idx : Fin nhash} (inv : s.Inv chains) (there : fp ∈ chains idx)
    (other : s.fh idx ≠ some fp) :
    ∃ b ∈ s.fh idx, Behind chains fp b := by
  obtain ⟨before, after, split⟩ := List.append_of_mem there
  have first := (inv.chain idx).first_eq
  cases before with
  | nil =>
    rw [split] at first
    exact absurd first other
  | cons b mid =>
    refine ⟨b, ?_, idx, [], mid, after, by simp [split]⟩
    rw [first, split]
    rfl

/-- The loop finds the element in front of the object or comes one step nearer to it. -/
theorem next_behind {tfp : Nat} (inv : s.Inv chains) (behind : Behind chains fp tfp) :
    s.fNext tfp = some fp ∧ Next chains fp tfp ∨ s.fNext tfp ≠ some fp ∧
      ∃ b ∈ s.fNext tfp, Behind chains fp b := by
  obtain ⟨idx, before, mid, after, split⟩ := behind
  have next : s.fNext tfp = (mid ++ fp :: after).head? := (split ▸ inv.chain idx).next_eq
  cases mid with
  | nil => exact .inl ⟨next, idx, before, after, split⟩
  | cons b mid =>
    have distinct := split ▸ inv.nodup idx
    have apart : b ≠ fp := by
      rintro rfl
      simp [List.nodup_append] at distinct
    have leads : s.fNext tfp = some b := next
    refine .inr ⟨by simpa [leads] using apart, b, leads, idx, before ++ [tfp], mid, after, by simp [split]⟩

theorem unlinked_mem {idx : Fin nhash} {before after : List Nat} (inv : s.Inv chains)
    (split : chains idx = before ++ fp :: after) (other : Fin nhash) (a : Nat) :
    a ∈ Function.update chains idx (before ++ after) other ↔ a ∈ chains other ∧ a ≠ fp := by
  by_cases here : other = idx
  · obtain rfl := here
    have distinct := split ▸ inv.nodup other
    have outside : fp ∉ before ++ after := (List.nodup_middle.mp distinct).notMem
    have members : a ∈ chains other ↔ a = fp ∨ a ∈ before ++ after := by simp [split, or_left_comm]
    rw [Function.update_self, members]
    constructor
    · intro there
      exact ⟨.inr there, fun same => outside (same ▸ there)⟩
    · rintro ⟨same | there, apart⟩
      · exact absurd same apart
      · exact there
  · rw [Function.update_of_ne here]
    have there : fp ∈ chains idx := by simp [split]
    refine ⟨fun member => ⟨member, ?_⟩, And.left⟩
    rintro rfl
    have one := ((inv.mem idx a).mp there).2.1
    have two := ((inv.mem other a).mp member).2.1
    exact here (two.symm.trans one)

theorem unlinked_nodup {idx : Fin nhash} {before after : List Nat} (inv : s.Inv chains)
    (split : chains idx = before ++ fp :: after) (other : Fin nhash) :
    (Function.update chains idx (before ++ after) other).Nodup := by
  by_cases here : other = idx
  · obtain rfl := here
    have distinct := split ▸ inv.nodup other
    simpa using (List.nodup_middle.mp distinct).of_cons
  · simpa [here] using inv.nodup other

end State.Inv

/-! ## Steps that leave the objects and their references as they are -/

variable [DecidableEq ι] {m : State ι} {old : Pc} {fp : Nat}

theorem offChain_update (at_ : s.pc t = old) (off : pc.offChain = old.offChain) :
    (∀ u, (Function.update s.pc t pc u).offChain ≠ some a) ↔ ∀ u, (s.pc u).offChain ≠ some a := by
  have same (u : ι) : (Function.update s.pc t pc u).offChain = (s.pc u).offChain := by
    by_cases here : u = t
    · obtain rfl := here
      simp [at_, off]
    · simp [here]
  simp only [same]

theorem raw_goto (at_ : s.pc t = old) (pcs : m.pc = s.pc) (raw : pc.rights.raw = old.rights.raw)
    (there : ∃ u, (s.pc u).rights.raw = some a) :
    ∃ u, ((m.goto t pc).pc u).rights.raw = some a := by
  obtain ⟨u, there⟩ := there
  refine ⟨u, ?_⟩
  by_cases same : u = t
  · obtain rfl := same
    simpa [State.goto, at_, raw] using there
  · simpa [State.goto, pcs, same] using there

@[simp] theorem goto_self : (m.goto t pc).pc t = pc := by
  simp [State.goto]

theorem goto_other (pcs : m.pc = s.pc) (other : u ≠ t) : (m.goto t pc).pc u = s.pc u := by
  simp [State.goto, pcs, other]

namespace State.Inv

theorem threads (inv : s.Inv chains) (t : ι) (others : ∀ u, u ≠ t → Rely s chains s' chains' u)
    (mine : Holds s' chains' t (s'.pc t))
    (u : ι) : Holds s' chains' u (s'.pc u) := by
  by_cases same : u = t
  · rwa [same]
  · exact (others u same).holds (inv.thread u)

/-- A step that changes no list of references and no chain. -/
theorem quiet (inv : s.Inv chains) (at_ : s.pc t = old)
    (same : m.pc = s.pc ∧ m.refs = s.refs ∧ m.fId = s.fId ∧ m.live = s.live ∧
    m.mallocs = s.mallocs ∧ m.frees = s.frees)
    (off : pc.offChain = old.offChain) (others : ∀ u, u ≠ t → Rely s chains (m.goto t pc) chains u)
    (mine : Holds m chains t pc)
    (count : ∀ a, m.fLock a ≠ .uninit → m.refs a ≠ [] ∧ (m.fCount a).toInt = (m.refs a).length)
    (raw : ∀ a, m.refs a ≠ [] → m.fLock a = .uninit → ∃ u, ((m.goto t pc).pc u).rights.raw = some a)
    (chain : ∀ idx, Chain m.fNext (m.fh idx) (chains idx)) : (m.goto t pc).Inv chains := by
  obtain ⟨pcs, refs, fId, live, mallocs, frees⟩ := same
  refine ⟨inv.threads t others ?_, ?_, count, raw, chain, inv.nodup, ?_, ?_⟩
  · rw [goto_self]
    exact ⟨mine.hash, mine.lock, mine.own, mine.sole, mine.mutex, mine.regs⟩
  · simp only [goto, live, refs]
    exact inv.live
  · intro idx a
    simp only [goto, pcs, refs, fId]
    rw [inv.mem idx a, offChain_update at_ off]
  · simp only [goto, live, mallocs, frees]
    exact inv.counted

/-- Only the place changes. -/
theorem goto (inv : s.Inv chains) (at_ : s.pc t = old)
    (same : pc.rights.hash = old.rights.hash ∧ pc.rights.lock = old.rights.lock ∧
    pc.rights.raw = old.rights.raw)
    (off : pc.offChain = old.offChain) (own : ∀ a, pc.rights.owner = some a → t ∈ s.refs a)
    (sole : ∀ a, pc.rights.sole = some a → s.refs a = [t]) (regs : pc.Regs s chains) :
    (s.goto t pc).Inv chains := by
  obtain ⟨hash, lock, raw⟩ := same
  have mine := inv.own at_
  refine inv.quiet at_ ⟨rfl, rfl, rfl, rfl, rfl, rfl⟩ off ?_ ?_ ?_ ?_ ?_
  · exact fun u other => .of_links ⟨rfl, rfl, rfl, rfl, rfl⟩ (goto_other rfl other) fun _ =>
      ⟨rfl, rfl, rfl⟩
  · refine ⟨?_, ?_, own, sole, ?_, regs⟩
    · rw [hash]
      exact mine.hash
    · rw [lock]
      exact mine.lock
    · rw [off, lock, raw]
      exact mine.mutex
  · exact inv.count
  · exact fun a refs uninit => raw_goto at_ rfl raw (inv.raw a refs uninit)
  · exact inv.chain

/-- The place changes and everything the thread has stays. -/
theorem goto_same (inv : s.Inv chains) (at_ : s.pc t = old) (rights : pc.rights = old.rights)
    (off : pc.offChain = old.offChain) (regs : pc.Regs s chains) : (s.goto t pc).Inv chains := by
  have mine := inv.own at_
  apply inv.goto at_ (by simp [rights]) off
  · rw [rights]
    exact mine.own
  · rw [rights]
    exact mine.sole
  · exact regs

/-- `hashlock` changes, and nobody else has it before or after. -/
theorem setHash (inv : s.Inv chains) (at_ : s.pc t = old) {v : Option ι} {b : Bool}
    (before : ∀ u, u ≠ t → s.hashlock ≠ some u) (after : ∀ u, u ≠ t → v ≠ some u)
    (held : v = some t ↔ b = true)
    (rights : pc.rights = { old.rights with hash := b }) (off : pc.offChain = old.offChain)
    (regs : pc.Regs { s with hashlock := v } chains) :
    ({ s with hashlock := v }.goto t pc).Inv chains := by
  have mine := inv.own at_
  refine inv.quiet at_ ⟨rfl, rfl, rfl, rfl, rfl, rfl⟩ off ?_ ?_ ?_ ?_ ?_
  · intro u other
    exact ⟨goto_other rfl other, iff_of_false (after u other) (before u other), fun _ => Iff.rfl,
      fun _ owns => owns,
      fun _ _ => ⟨rfl, rfl, rfl⟩, fun _ _ => rfl, fun _ => ⟨rfl, rfl, rfl⟩, fun _ _ => rfl⟩
  · refine ⟨?_, ?_, ?_, ?_, ?_, regs⟩
    · rw [rights]
      exact held
    · rw [rights]
      exact mine.lock
    · rw [rights]
      exact mine.own
    · rw [rights]
      exact mine.sole
    · rw [off, rights]
      exact mine.mutex
  · exact inv.count
  · exact fun a refs uninit => raw_goto at_ rfl (by rw [rights]) (inv.raw a refs uninit)
  · exact inv.chain

theorem lockHash (inv : s.Inv chains) (at_ : s.pc t = old) (steps : s.lockHash t pc = some s')
    (rights : pc.rights = { old.rights with hash := true }) (off : pc.offChain = old.offChain)
    (regs : pc.Regs { s with hashlock := some t } chains) : s'.Inv chains := by
  simp only [State.lockHash] at steps
  split at steps
  · rename_i free
    obtain rfl := Option.some.inj steps
    refine inv.setHash at_ (fun u _ => by simp [free]) (fun u other same =>
      ?_) (iff_of_true rfl rfl) rights off regs
    exact other (Option.some.inj same).symm
  · simp at steps

theorem unlockHash (inv : s.Inv chains) (at_ : s.pc t = old) (steps : s.unlockHash t pc = some s')
    (held : old.rights.hash = true) (rights : pc.rights = { old.rights with hash := false })
    (off : pc.offChain = old.offChain) (regs : pc.Regs { s with hashlock := none } chains) :
    s'.Inv chains := by
  have locked : s.hashlock = some t := (inv.own at_).hash.mpr held
  simp only [State.unlockHash, locked, if_true] at steps
  obtain rfl := Option.some.inj steps
  refine inv.setHash at_ (fun u other same => ?_) (by simp) (by simp) rights off regs
  rw [locked] at same
  exact other (Option.some.inj same).symm

/-- The mutex of an object changes, and nobody else has it before or after. -/
theorem setLock (inv : s.Inv chains) (at_ : s.pc t = old) {v : Mutex ι}
    (before : ∀ u, u ≠ t → s.fLock fp ≠ .held u) (after : ∀ u, u ≠ t → v ≠ .held u)
    (apart : ∀ u, u ≠ t → (s.pc u).offChain ≠ some fp)
    (count : v ≠ .uninit → s.refs fp ≠ [] ∧ (s.fCount fp).toInt = (s.refs fp).length)
    (rawNew : v = .uninit → pc.rights.raw = some fp)
    (rawOld : ∀ a, a ≠ fp → old.rights.raw = some a → pc.rights.raw = some a)
    (off : pc.offChain = old.offChain)
    (mine : Holds { s with fLock := Function.update s.fLock fp v } chains t pc) :
    ({ s with fLock := Function.update s.fLock fp v }.goto t pc).Inv chains := by
  refine inv.quiet at_ ⟨rfl, rfl, rfl, rfl, rfl, rfl⟩ off ?_ mine ?_ ?_ inv.chain
  · intro u other
    refine ⟨goto_other rfl other, Iff.rfl, fun a => ?_, fun _ owns => owns,
      fun _ _ => ⟨rfl, rfl, rfl⟩, fun _ _ => rfl,
      fun _ => ⟨rfl, rfl, rfl⟩, fun a here => ?_⟩
    · by_cases same : a = fp
      · obtain rfl := same
        simp [State.goto, before u other, after u other]
      · simp [State.goto, same]
    · have elsewhere : a ≠ fp := by
        rintro rfl
        exact apart u other here
      simp [State.goto, elsewhere]
  · intro a
    by_cases same : a = fp
    · obtain rfl := same
      simpa using count
    · simpa [same] using inv.count a
  · intro a refs uninit
    by_cases same : a = fp
    · obtain rfl := same
      exact ⟨t, by simpa using rawNew (by simpa using uninit)⟩
    · obtain ⟨u, there⟩ := inv.raw a refs (by simpa [same] using uninit)
      refine ⟨u, ?_⟩
      by_cases own : u = t
      · obtain rfl := own
        rw [at_] at there
        simpa using rawOld a same there
      · rwa [goto_other rfl own]

theorem lock (inv : s.Inv chains) (at_ : s.pc t = old) (steps : s.lock t fp pc = some s')
    (unlocked : old.rights.lock = none) (raw : old.rights.raw = none)
    (reaches : Reaches s chains t fp)
    (rights : pc.rights = { old.rights with lock := some fp }) (off : pc.offChain = old.offChain)
    (regs : pc.Regs { s with fLock := Function.update s.fLock fp (.held t) } chains) :
    s'.Inv chains := by
  have mine := inv.own at_
  have initialised : s.fLock fp ≠ .uninit := inv.init_of_reaches reaches (by simp [at_, raw])
  simp only [State.lock, inv.live_of_reaches reaches, if_true] at steps
  split at steps
  · rename_i uninit
    exact absurd uninit initialised
  · rename_i free
    obtain rfl := Option.some.inj steps
    apply inv.setLock at_
    · simp [free]
    · intro u other same
      rw [Mutex.held.injEq] at same
      exact other same.symm
    · intro u other here
      exact other (inv.eq_of_sole (Pc.offChain_sole here) reaches).symm
    · exact fun _ => inv.count fp initialised
    · simp
    · simp [raw]
    · exact off
    · refine ⟨?_, fun a => ?_, ?_, ?_, ?_, regs⟩
      · rw [rights]
        exact mine.hash
      · by_cases same : a = fp
        · obtain rfl := same
          simp [rights]
        · have apart : fp ≠ a := fun h => same h.symm
          simp [rights, same, apart, mine.lock a, unlocked]
      · rw [rights]
        exact mine.own
      · rw [rights]
        exact mine.sole
      · simp [rights]
  · simp at steps

theorem unlock (inv : s.Inv chains) (at_ : s.pc t = old) (steps : s.unlock t fp pc = some s')
    (held : old.rights.lock = some fp) (raw : old.rights.raw = none)
    (less : pc.rights.hash = old.rights.hash ∧ pc.rights.lock = none ∧ pc.rights.raw = none)
    (own : ∀ a, pc.rights.owner = some a → old.rights.owner = some a)
    (sole : ∀ a, pc.rights.sole = some a → old.rights.sole = some a)
    (off : pc.offChain = old.offChain) (here : ∀ a, pc.offChain = some a → a = fp)
    (regs : pc.Regs { s with fLock := Function.update s.fLock fp .free } chains) :
    s'.Inv chains := by
  have mine := inv.own at_
  obtain ⟨hash, lock, rawNew⟩ := less
  have locked : s.fLock fp = .held t := (mine.lock fp).mpr held
  have count := inv.count fp (by simp [locked])
  simp only [State.unlock, locked, (inv.live fp).mpr count.1, and_self, if_true] at steps
  obtain rfl := Option.some.inj steps
  apply inv.setLock at_
  · intro u other
    have apart : t ≠ u := fun same => other same.symm
    simp [locked, apart]
  · simp
  · intro u other off
    by_cases locking : (s.pc u).rights.lock = some fp
    · exact other (inv.eq_of_lock locking (by simp [at_, held]))
    · have holder := (inv.thread u).mutex fp off (Pc.lock_of_offChain off locking)
      split at holder <;> simp [locked] at holder
  · exact fun _ => count
  · simp
  · simp [raw]
  · exact off
  · refine ⟨?_, fun a => ?_, fun a owner => mine.own a (own a owner),
      fun a only => mine.sole a (sole a only),
      fun a off _ => ?_, regs⟩
    · rw [hash]
      exact mine.hash
    · by_cases same : a = fp
      · obtain rfl := same
        simp [lock]
      · have apart : fp ≠ a := fun h => same h.symm
        simp [lock, same, mine.lock a, held, apart]
    · simp [here a off, rawNew]

theorem mutexInit {id : Int} (inv : s.Inv chains) (at_ : s.pc t = .allocInit fp id) :
    ({ s with fLock := Function.update s.fLock fp .free }.goto t (.allocHash fp id)).Inv
      chains := by
  have mine := inv.own at_
  have refs : s.refs fp = [t] := mine.sole fp rfl
  have uninit : s.fLock fp = .uninit := mine.mutex fp rfl rfl
  apply inv.setLock at_
  · simp [uninit]
  · simp
  · intro u other off
    exact other (inv.eq_of_sole (Pc.offChain_sole off) (.inl (by simp [refs]))).symm
  · simp [refs, mine.regs.1]
  · simp
  · intro a elsewhere raw
    exact absurd (Option.some.inj raw).symm elsewhere
  · rfl
  · refine ⟨mine.hash, fun a => ?_, mine.own, mine.sole, ?_, mine.regs.2⟩
    · by_cases same : a = fp
      · obtain rfl := same
        simp [Pc.rights]
      · simpa [same, Pc.rights] using mine.lock a
    · intro a off _
      obtain rfl := Option.some.inj off
      simp [Pc.rights]

theorem mutexDestroy (inv : s.Inv chains) (at_ : s.pc t = .releDestroy fp) :
    ({ s with fLock := Function.update s.fLock fp .uninit }.goto t (.releFree fp)).Inv chains := by
  have mine := inv.own at_
  have refs : s.refs fp = [t] := mine.sole fp rfl
  have free : s.fLock fp = .free := mine.mutex fp rfl rfl
  apply inv.setLock at_
  · simp [free]
  · simp
  · intro u other off
    exact other (inv.eq_of_sole (Pc.offChain_sole off) (.inl (by simp [refs]))).symm
  · simp
  · exact fun _ => rfl
  · simp [Pc.rights]
  · rfl
  · refine ⟨mine.hash, fun a => ?_, mine.own, mine.sole, ?_, trivial⟩
    · by_cases same : a = fp
      · obtain rfl := same
        simp [Pc.rights]
      · simpa [same, Pc.rights] using mine.lock a
    · intro a off _
      obtain rfl := Option.some.inj off
      simp [Pc.rights]

/-! ## Stores to the fields -/

theorem firstCount {id : Int} (inv : s.Inv chains) (at_ : s.pc t = .allocCount fp id) :
    ({ s with fCount := Function.update s.fCount fp 1 }.goto t (.allocId fp id)).Inv chains := by
  have mine := inv.own at_
  have refs : s.refs fp = [t] := mine.sole fp rfl
  refine inv.quiet at_ ⟨rfl, rfl, rfl, rfl, rfl, rfl⟩ rfl ?_ ?_ ?_ ?_ inv.chain
  · intro u other
    refine .of_objects ⟨rfl, rfl, rfl, rfl⟩ (goto_other rfl other) (fun _ owns =>
      owns) (fun a sole => ⟨rfl, rfl, ?_⟩)
      fun a locking => ?_
    · have elsewhere : a ≠ fp := by
        rintro rfl
        exact other (inv.eq_of_sole sole (.inl (by simp [refs]))).symm
      simp [State.goto, elsewhere]
    · have elsewhere : a ≠ fp := by
        rintro rfl
        have locked := ((inv.thread u).lock a).mpr locking
        have uninit : s.fLock a = .uninit := mine.mutex a rfl rfl
        simp [locked] at uninit
      simp [State.goto, elsewhere]
  · exact ⟨mine.hash, mine.lock, mine.own, mine.sole, mine.mutex, by simp [Pc.Regs]⟩
  · intro a initialised
    by_cases same : a = fp
    · obtain rfl := same
      simp [refs]
    · simpa [same] using inv.count a initialised
  · exact fun a refs uninit => raw_goto at_ rfl rfl (inv.raw a refs uninit)

/-- The allocator alone knows the object. -/
theorem storeId {id : Int} (inv : s.Inv chains) (at_ : s.pc t = .allocId fp id) :
    ({ s with fId := Function.update s.fId fp id }.goto t (.allocInit fp id)).Inv chains := by
  have mine := inv.own at_
  have refs : s.refs fp = [t] := mine.sole fp rfl
  refine ⟨inv.threads t ?_ ?_, inv.live, inv.count, ?_, inv.chain, inv.nodup, ?_, inv.counted⟩
  · intro u other
    refine .of_objects ⟨rfl, rfl, rfl, rfl⟩ (goto_other rfl other) (fun _ owns =>
      owns) (fun a sole => ⟨rfl, ?_, rfl⟩)
      fun _ _ => rfl
    have elsewhere : a ≠ fp := by
      rintro rfl
      exact other (inv.eq_of_sole sole (.inl (by simp [refs]))).symm
    simp [State.goto, elsewhere]
  · rw [goto_self]
    exact ⟨mine.hash, mine.lock, mine.own, mine.sole, mine.mutex, mine.regs, by simp [State.goto]⟩
  · exact fun a refs uninit => raw_goto at_ rfl rfl (inv.raw a refs uninit)
  · intro idx a
    have elsewhere : (∀ u, (s.pc u).offChain ≠ some a) → a ≠ fp := by
      rintro off rfl
      exact off t (by simp [at_, Pc.offChain])
    refine (inv.mem idx a).trans (and_congr_right' ?_)
    have private_ : (Pc.allocInit fp id).offChain = (Pc.allocId fp id).offChain := rfl
    simp only [State.goto]
    rw [offChain_update at_ private_]
    refine and_congr_left fun off => ?_
    simp [elsewhere off]

theorem storeNext {id : Int} {head : Option Nat} (inv : s.Inv chains)
    (at_ : s.pc t = .allocNext fp id head) :
    ({ s with fNext := Function.update s.fNext fp head }.goto t (.allocLink fp id)).Inv chains := by
  have mine := inv.own at_
  refine inv.quiet at_ ⟨rfl, rfl, rfl, rfl, rfl, rfl⟩ rfl ?_ ?_ inv.count ?_ ?_
  · intro u other
    refine .of_links ⟨rfl, rfl, rfl, rfl, rfl⟩ (goto_other rfl other) fun hash => ?_
    exact absurd (inv.eq_of_hash hash (by simp [at_, Pc.rights])) other
  · exact ⟨mine.hash, mine.lock, mine.own, mine.sole, mine.mutex,
      mine.regs.1, by simpa using mine.regs.2.symm⟩
  · exact fun a refs uninit => raw_goto at_ rfl rfl (inv.raw a refs uninit)
  · intro idx
    refine (inv.chain idx).update (fun there => ?_) head
    exact ((inv.mem idx fp).mp there).2.2 t (by simp [at_, Pc.offChain])

/-- The holder of `f_lock` adds or drops a reference and sets the count to match. -/
theorem setCount {c : BitVec 32} {l : List ι} (inv : s.Inv chains) (at_ : s.pc t = old)
    (held : old.rights.lock = some fp)
    (reaches : Reaches s chains t fp) (count : c.toInt = l.length) (some_ : l ≠ [])
    (others : ∀ u, u ≠ t → u ∈ s.refs fp → u ∈ l) (off : pc.offChain = none ∧ old.offChain = none)
    (less : pc.rights.hash = old.rights.hash ∧ pc.rights.lock = old.rights.lock ∧
    pc.rights.raw = old.rights.raw)
    (own : ∀ a, pc.rights.owner = some a → a = fp ∧ t ∈ l) (sole : pc.rights.sole = none)
    (regs : pc.Regs s chains ∧ ∀ m : State ι, pc.Regs m chains ↔ pc.Regs s chains) :
    ({ s with fCount := Function.update s.fCount fp c, refs := Function.update s.refs fp l }.goto t
      pc).Inv chains := by
  have mine := inv.own at_
  obtain ⟨hash, lock, raw⟩ := less
  have before : s.refs fp ≠ [] := (inv.live fp).mp (inv.live_of_reaches reaches)
  have refs (a : Nat) : Function.update s.refs fp l a ≠ [] ↔ s.refs a ≠ [] := by
    by_cases same : a = fp
    · obtain rfl := same
      simp [some_, before]
    · simp [same]
  refine ⟨inv.threads t ?_ ?_, fun a => ?_, ?_, ?_, inv.chain, inv.nodup, ?_, inv.counted⟩
  · intro u other
    refine .of_objects ⟨rfl, rfl, rfl, rfl⟩ (goto_other rfl other) (fun a owns => ?_) (fun a sole =>
      ?_) fun a locking => ?_
    · by_cases same : a = fp
      · obtain rfl := same
        simpa [State.goto] using others u other owns
      · simpa [State.goto, same] using owns
    · have elsewhere : a ≠ fp := by
        rintro rfl
        exact other (inv.eq_of_sole sole reaches).symm
      simp [State.goto, elsewhere]
    · have elsewhere : a ≠ fp := by
        rintro rfl
        exact other (inv.eq_of_lock locking (by simp [at_, held]))
      simp [State.goto, elsewhere]
  · rw [goto_self]
    refine ⟨?_, ?_, fun a owner => ?_, ?_, ?_, (regs.2 _).mpr regs.1⟩
    · rw [hash]
      exact mine.hash
    · rw [lock]
      exact mine.lock
    · obtain ⟨rfl, there⟩ := own a owner
      simpa [State.goto] using there
    · simp [sole]
    · simp [off.1]
  · exact (inv.live a).trans (refs a).symm
  · intro a initialised
    refine ⟨(refs a).mpr (inv.count a initialised).1, ?_⟩
    by_cases same : a = fp
    · obtain rfl := same
      simpa [State.goto] using count
    · simpa [State.goto, same] using (inv.count a initialised).2
  · exact fun a there uninit => raw_goto at_ rfl raw (inv.raw a ((refs a).mp there) uninit)
  · intro idx a
    simp only [State.goto]
    rw [inv.mem idx a, offChain_update at_ (off.1.trans off.2.symm)]
    exact and_congr_left' (refs a).symm

/-! ## Onto a chain and off it -/

/-- The object becomes the first of its chain. -/
theorem link {id : Int} (inv : s.Inv chains) (at_ : s.pc t = .allocLink fp id) :
    ({ s with fh := Function.update s.fh (RefCount.hash id) (some fp) }.goto t (.allocLock fp)).Inv
      (Function.update chains (RefCount.hash id) (fp :: chains (RefCount.hash id))) := by
  have mine := inv.own at_
  obtain ⟨fId, fNext⟩ := mine.regs
  have refs : s.refs fp = [t] := mine.sole fp rfl
  have outside (idx : Fin nhash) : fp ∉ chains idx := fun there =>
    ((inv.mem idx fp).mp there).2.2 t (by simp [at_, Pc.offChain])
  have only (u : ι) (off : (s.pc u).offChain = some fp) : u = t := by
    exact (inv.eq_of_sole (Pc.offChain_sole off) (.inl (by simp [refs]))).symm
  refine ⟨inv.threads t ?_ ?_, inv.live, inv.count, ?_, fun idx => ?_, fun idx => ?_,
    fun idx a => ?_, inv.counted⟩
  · intro u other
    refine .of_links ⟨rfl, rfl, rfl, rfl, rfl⟩ (goto_other rfl other) fun hash => ?_
    exact absurd (inv.eq_of_hash hash (by simp [at_, Pc.rights])) other
  · rw [goto_self]
    exact ⟨mine.hash, mine.lock, mine.own, by simp [Pc.rights], by simp [Pc.offChain], trivial⟩
  · exact fun a refs uninit => raw_goto at_ rfl rfl (inv.raw a refs uninit)
  · by_cases here : idx = RefCount.hash id
    · obtain rfl := here
      simp only [State.goto, Function.update_self]
      exact ⟨rfl, fNext ▸ inv.chain (RefCount.hash id)⟩
    · simpa [State.goto, here] using inv.chain idx
  · by_cases here : idx = RefCount.hash id
    · obtain rfl := here
      simp only [Function.update_self]
      exact List.nodup_cons.mpr ⟨outside _, inv.nodup _⟩
    · simpa [here] using inv.nodup idx
  · have others (u : ι) : (Function.update s.pc t (.allocLock fp) u).offChain ≠ some a ↔
        (s.pc u).offChain ≠ some a ∨ a = fp := by
      by_cases same : a = fp
      · obtain rfl := same
        by_cases self : u = t
        · simp [self, Pc.offChain]
        · simpa [self] using fun off => self (only u off)
      · by_cases self : u = t
        · obtain rfl := self
          have apart : fp ≠ a := fun h => same h.symm
          simp [at_, Pc.offChain, same, apart]
        · simp [self, same]
    simp only [State.goto]
    by_cases same : a = fp
    · obtain rfl := same
      by_cases here : idx = RefCount.hash id
      · obtain rfl := here
        simp [refs, fId, others]
      · have apart : RefCount.hash id ≠ idx := fun h => here h.symm
        simp [here, outside idx, fId, apart]
    · simp only [others, same, or_false]
      by_cases here : idx = RefCount.hash id
      · obtain rfl := here
        simpa [same] using inv.mem (RefCount.hash id) a
      · simpa [here] using inv.mem idx a

/-- The object of a sole owner is taken off its chain. -/
theorem unlink {fh : Fin nhash → Option Nat} {fNext : Nat → Option Nat} (inv : s.Inv chains)
    (at_ : s.pc t = old)
    (rights : old.rights = (Pc.releUnhash fp).rights) (on : old.offChain = none)
    (chain : ∀ idx, Chain fNext (fh idx) (chains' idx)) (nodup : ∀ idx, (chains' idx).Nodup)
    (mem : ∀ idx a, a ∈ chains' idx ↔ a ∈ chains idx ∧ a ≠ fp) :
    ({ s with fh := fh, fNext := fNext }.goto t (.releUnhash fp)).Inv chains' := by
  have mine := inv.own at_
  refine ⟨inv.threads t ?_ ?_, inv.live, inv.count, ?_, chain, nodup, fun idx a => ?_, inv.counted⟩
  · intro u other
    refine .of_links ⟨rfl, rfl, rfl, rfl, rfl⟩ (goto_other rfl other) fun hash => ?_
    exact absurd (inv.eq_of_hash hash (by rw [at_, rights]; rfl)) other
  · rw [goto_self]
    refine ⟨?_, ?_, ?_, ?_, ?_, trivial⟩
    · rw [← rights]
      exact mine.hash
    · rw [← rights]
      exact mine.lock
    · rw [← rights]
      exact mine.own
    · rw [← rights]
      exact mine.sole
    · simp [Pc.rights]
  · exact fun a refs uninit => raw_goto at_ rfl (by rw [rights]) (inv.raw a refs uninit)
  · have others : (∀ u, (Function.update s.pc t (.releUnhash fp) u).offChain ≠ some a) ↔
        (∀ u, (s.pc u).offChain ≠ some a) ∧ a ≠ fp := by
      constructor
      · intro off
        have apart : a ≠ fp := by
          rintro rfl
          exact off t (by simp [Pc.offChain])
        refine ⟨fun u => ?_, apart⟩
        by_cases self : u = t
        · simp [self, at_, on]
        · simpa [self] using off u
      · rintro ⟨off, apart⟩ u
        by_cases self : u = t
        · have apart : fp ≠ a := fun h => apart h.symm
          simp [self, Pc.offChain, apart]
        · simpa [self] using off u
    simp only [State.goto]
    rw [mem idx a, inv.mem idx a, others]
    simp only [and_assoc]

/-- The objects that are off their chains are the same where a thread moves on and leaves this one
as it is. -/
theorem offChain_update (at_ : s.pc t = old)
    (same : pc.offChain = some a ↔ old.offChain = some a) (u : ι) :
    (Function.update s.pc t pc u).offChain ≠ some a ↔ (s.pc u).offChain ≠ some a := by
  by_cases self : u = t
  · simp [self, at_, same]
  · simp [self]

/-! ## Allocation and release -/

theorem malloc {id : Int} (inv : s.Inv chains) (at_ : s.pc t = .idle) (free : ¬s.live fp = true) :
    ({ s with
      live := Function.update s.live fp true
      fLock := Function.update s.fLock fp .uninit
      refs := Function.update s.refs fp [t]
      mallocs := Function.update s.mallocs fp (s.mallocs fp + 1) }.goto t (.allocCount fp id)).Inv
        chains := by
  have mine := inv.own at_
  have refs : s.refs fp = [] := by
    by_contra some_
    exact free ((inv.live fp).mpr some_)
  have uninit : s.fLock fp = .uninit := by
    by_contra initialised
    exact (inv.count fp initialised).1 refs
  have same : Function.update s.fLock fp .uninit = s.fLock := by
    rw [← uninit, Function.update_eq_self]
  have outside (idx : Fin nhash) : fp ∉ chains idx :=
    fun there => ((inv.mem idx fp).mp there).1 refs
  simp only [same]
  refine ⟨inv.threads t ?_ ?_, fun a => ?_, fun a initialised => ?_, fun a some_ locked => ?_,
    inv.chain, inv.nodup,
    fun idx a => ?_, fun a => ?_⟩
  · intro u other
    refine .of_objects ⟨rfl, rfl, rfl, rfl⟩ (goto_other rfl other) (fun a owns => ?_) (fun a sole =>
      ?_) fun _ _ => rfl
    · have elsewhere : a ≠ fp := by
        rintro rfl
        simp [refs] at owns
      simpa [State.goto, elsewhere] using owns
    · have elsewhere : a ≠ fp := by
        rintro rfl
        have only := (inv.thread u).sole a sole
        simp [refs] at only
      simp [State.goto, elsewhere]
  · rw [goto_self]
    refine ⟨mine.hash, mine.lock, fun a owner => ?_, fun a sole => ?_, fun a off _ => ?_, trivial⟩
    · obtain rfl := Option.some.inj owner
      simp [State.goto]
    · obtain rfl := Option.some.inj sole
      simp [State.goto]
    · obtain rfl := Option.some.inj off
      simpa [State.goto, Pc.rights] using uninit
  · by_cases here : a = fp
    · simp [State.goto, here]
    · simpa [State.goto, here] using inv.live a
  · have elsewhere : a ≠ fp := by
      rintro rfl
      exact initialised uninit
    simpa [State.goto, elsewhere] using inv.count a initialised
  · by_cases here : a = fp
    · exact ⟨t, by simp [here, Pc.rights]⟩
    · obtain ⟨u, raw⟩ := inv.raw a (by simpa [State.goto, here] using some_) locked
      have other : u ≠ t := by
        rintro rfl
        simp [at_, Pc.rights] at raw
      exact ⟨u, by rwa [goto_other rfl other]⟩
  · by_cases here : a = fp
    · obtain rfl := here
      refine iff_of_false (outside idx) fun there => there.2.2 t ?_
      simp [Pc.offChain]
    · have same : Pc.offChain (.allocCount fp id) = some a ↔ Pc.idle.offChain = some a :=
        iff_of_false (fun own => here (Option.some.inj own).symm) (by simp [Pc.offChain])
      simp only [State.goto, offChain_update at_ same]
      simpa [here] using inv.mem idx a
  · by_cases here : a = fp
    · obtain rfl := here
      have before := inv.counted a
      simp only [free, Bool.false_eq_true, if_false] at before
      simp [State.goto, before]
    · simpa [State.goto, here] using inv.counted a

theorem freeFoo (inv : s.Inv chains) (at_ : s.pc t = old)
    (rights : old.rights = { owner := some fp, sole := some fp, raw := some fp })
    (off : old.offChain = some fp)
    (steps : s.freeFoo t fp = some s') : s'.Inv chains := by
  have mine := inv.own at_
  have refs : s.refs fp = [t] := mine.sole fp (by rw [rights])
  have uninit : s.fLock fp = .uninit := by simpa [rights] using mine.mutex fp off (by rw [rights])
  have live : s.live fp = true := inv.live_of_mem (t := t) (by simp [refs])
  simp only [State.freeFoo, access, live, if_true, refs, List.erase_cons_head] at steps
  obtain rfl := Option.some.inj steps
  refine ⟨inv.threads t ?_ ?_, fun a => ?_, fun a initialised => ?_, fun a some_ locked => ?_,
    inv.chain, inv.nodup,
    fun idx a => ?_, fun a => ?_⟩
  · intro u other
    refine .of_objects ⟨rfl, rfl, rfl, rfl⟩ (goto_other rfl other) (fun a owns => ?_) (fun a sole =>
      ?_) fun _ _ => rfl
    · have elsewhere : a ≠ fp := by
        rintro rfl
        exact other (by simpa [refs] using owns)
      simpa [State.goto, elsewhere] using owns
    · have elsewhere : a ≠ fp := by
        rintro rfl
        exact other (inv.eq_of_sole sole (.inl (by simp [refs]))).symm
      simp [State.goto, elsewhere]
  · rw [goto_self]
    have hash := mine.hash
    have lock := mine.lock
    rw [rights] at hash lock
    exact ⟨hash, lock, by simp [Pc.rights], by simp [Pc.rights], by simp [Pc.offChain], trivial⟩
  · by_cases here : a = fp
    · simp [State.goto, here]
    · simpa [State.goto, here] using inv.live a
  · have elsewhere : a ≠ fp := by
      rintro rfl
      exact initialised uninit
    simpa [State.goto, elsewhere] using inv.count a initialised
  · have elsewhere : a ≠ fp := by
      rintro rfl
      simp [State.goto] at some_
    obtain ⟨u, raw⟩ := inv.raw a (by simpa [State.goto, elsewhere] using some_) locked
    have other : u ≠ t := by
      rintro rfl
      rw [at_, rights, Option.some.injEq] at raw
      exact elsewhere raw.symm
    exact ⟨u, by rwa [goto_other rfl other]⟩
  · by_cases here : a = fp
    · obtain rfl := here
      refine iff_of_false (fun there => ((inv.mem idx a).mp there).2.2 t (by rw [at_, off]))
        fun there => there.1 ?_
      simp [State.goto]
    · have same : Pc.idle.offChain = some a ↔ old.offChain = some a := by
        rw [off]
        exact iff_of_false (by simp [Pc.offChain]) fun own => here (Option.some.inj own).symm
      simp only [State.goto, offChain_update at_ same]
      simpa [here] using inv.mem idx a
  · by_cases here : a = fp
    · obtain rfl := here
      have before := inv.counted a
      simp only [live, if_true] at before
      simp [State.goto, before]
    · simpa [State.goto, here] using inv.counted a

theorem give (inv : s.Inv chains) (at_ : s.pc t = .idle) (owns : t ∈ s.refs fp) (u : ι) :
    State.Inv { s with refs := Function.update s.refs fp (u :: (s.refs fp).erase t) } chains := by
  have mine := inv.own at_
  have before : s.refs fp ≠ [] := List.ne_nil_of_mem owns
  have refs (a : Nat) : Function.update s.refs fp (u :: (s.refs fp).erase t) a ≠ [] ↔
      s.refs a ≠ [] := by
    by_cases same : a = fp
    · obtain rfl := same
      simp [before]
    · simp [same]
  refine ⟨inv.threads t ?_ ?_, fun a => ?_, ?_, ?_, inv.chain, inv.nodup, fun idx a => ?_,
    inv.counted⟩
  · intro v other
    refine .of_objects ⟨rfl, rfl, rfl, rfl⟩ rfl (fun a there => ?_) (fun a sole =>
      ?_) fun _ _ => rfl
    · by_cases same : a = fp
      · obtain rfl := same
        simp [(List.mem_erase_of_ne other).mpr there]
      · simpa [same] using there
    · have elsewhere : a ≠ fp := by
        rintro rfl
        exact other (inv.eq_of_sole sole (.inl owns)).symm
      simp [elsewhere]
  · rw [at_]
    exact ⟨mine.hash, mine.lock, by simp [Pc.rights], by simp [Pc.rights], mine.mutex, trivial⟩
  · exact (inv.live a).trans (refs a).symm
  · intro a initialised
    refine ⟨(refs a).mpr (inv.count a initialised).1, ?_⟩
    by_cases same : a = fp
    · obtain rfl := same
      have positive : 0 < (s.refs a).length := List.length_pos_of_mem owns
      have length : (u :: (s.refs a).erase t).length = (s.refs a).length := by
        rw [List.length_cons, List.length_erase_of_mem owns]
        omega
      simpa only [Function.update_self, length] using (inv.count a initialised).2
    · simpa [same] using (inv.count a initialised).2
  · exact fun a there uninit => inv.raw a ((refs a).mp there) uninit
  · rw [inv.mem idx a]
    exact and_congr_left' (refs a).symm

theorem access_of_mem {next : State ι} (inv : s.Inv chains) (owns : t ∈ s.refs fp)
    (steps : s.access t fp next = some s') :
    next = s' := by
  simpa [access, inv.live_of_mem owns] using steps

theorem access_of_chain {next : State ι} {idx : Fin nhash} (inv : s.Inv chains)
    (there : fp ∈ chains idx)
    (steps : s.access t fp next = some s') : next = s' := by
  simpa [access, inv.live_of_chain there] using steps

theorem unlinkFirst {idx : Fin nhash} (inv : s.Inv chains)
    (at_ : s.pc t = .releFirstStore fp idx (s.fNext fp))
    (first : s.fh idx = some fp) :
    ∃ chains', ({ s with fh := Function.update s.fh idx (s.fNext fp) }.goto t (.releUnhash fp)).Inv
      chains' := by
  have list := inv.chain idx
  have head := list.first_eq
  rw [first] at head
  cases split : chains idx with
  | nil => simp [split] at head
  | cons b after =>
    obtain rfl : fp = b := by simpa [split] using head
    have whole : chains idx = [] ++ fp :: after := split
    refine ⟨Function.update chains idx ([] ++ after),
      inv.unlink at_ rfl rfl (fun other => ?_) (inv.unlinked_nodup whole)
      (inv.unlinked_mem whole)⟩
    by_cases here : other = idx
    · obtain rfl := here
      simpa using (split ▸ list).2
    · simpa [here] using inv.chain other

theorem unlinkNext {tfp : Nat} (inv : s.Inv chains)
    (at_ : s.pc t = .releNextStore fp tfp (s.fNext fp))
    (next : Next chains fp tfp) :
    ∃ chains', ({ s with fNext := Function.update s.fNext tfp (s.fNext fp) }.goto t
      (.releUnhash fp)).Inv chains' := by
  obtain ⟨idx, before, after, split⟩ := next
  have whole : chains idx = (before ++ [tfp]) ++ fp :: after := by simp [split]
  refine ⟨Function.update chains idx ((before ++ [tfp]) ++ after),
    inv.unlink at_ rfl rfl (fun other => ?_)
    (inv.unlinked_nodup whole) (inv.unlinked_mem whole)⟩
  by_cases here : other = idx
  · obtain rfl := here
    simpa using (split ▸ inv.chain other).unlink (split ▸ inv.nodup other)
  · rw [Function.update_of_ne here]
    refine (inv.chain other).update (fun there => here ?_) _
    have one := ((inv.mem idx tfp).mp (by simp [split])).2.1
    have two := ((inv.mem other tfp).mp there).2.1
    exact two.symm.trans one

end State.Inv

end Apue.Threads.RefCount
