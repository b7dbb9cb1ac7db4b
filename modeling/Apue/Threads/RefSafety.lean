import Apue.Threads.RefInvariant

/-! # Two locks protect the reference counts

The steps one by one, and what follows in every reachable state.
-/

namespace Apue.Threads.RefCount

open Apue.Base

variable {ι : Type} {s s' : State ι} {chains : Fin nhash → List Nat} {t u : ι} {pc : Pc} {fp : Nat}

namespace State.Inv

/-- `foo_hold` comes to the object by a reference of its caller or, called by `foo_find`, along the
chain. -/
theorem reaches_of_hold {found : Bool} (mine : Holds s chains t pc) (hash : pc.rights.hash = found)
    (owner : pc.rights.owner = if found then none else some fp)
    (there : found = true → ∃ idx, fp ∈ chains idx) :
    Reaches s chains t fp := by
  cases found with
  | false => exact .inl (mine.own fp owner)
  | true => exact .inr ⟨mine.hash.mpr hash, there rfl⟩

variable [DecidableEq ι]

theorem access_of_reaches {next : State ι} (inv : s.Inv chains) (reaches : Reaches s chains t fp)
    (steps : s.access t fp next = some s') : next = s' := by
  simpa [access, inv.live_of_reaches reaches] using steps

/-- `foo_hold` has one reference more to count. -/
theorem run_holdStore {found : Bool} {count : BitVec 32} (inv : s.Inv chains)
    (at_ : s.pc t = .holdStore found fp count)
    (room : (s.refs fp).length < 2 ^ 31 - 1) (steps : s.run t = some s') : s'.Inv chains := by
  have mine := inv.own at_
  simp only [State.run, at_] at steps
  obtain ⟨loaded, there⟩ := mine.regs
  have reaches := reaches_of_hold mine rfl rfl there
  obtain rfl := inv.access_of_reaches reaches steps
  have locked : s.fLock fp = .held t := (mine.lock fp).mpr rfl
  refine inv.setCount at_ rfl reaches ?_ (List.cons_ne_nil t _) ?_ ⟨rfl, rfl⟩ ⟨rfl, rfl, rfl⟩ ?_ rfl
    ⟨trivial, fun _ => Iff.rfl⟩
  · have counted : count.toInt = (s.refs fp).length := by
      rw [← loaded, (inv.count fp (by simp [locked])).2]
    rw [toInt_succ (by omega), counted]
    rfl
  · exact fun u _ owns => List.mem_cons_of_mem t owns
  · intro a owner
    cases found with
    | false =>
      obtain rfl := Option.some.inj owner
      exact ⟨rfl, List.mem_cons_self⟩
    | true => simp [Pc.rights] at owner

/-- `foo_find` goes on to the object behind one of the chain. -/
theorem run_findNext {id : Int} (inv : s.Inv chains) (at_ : s.pc t = .findNext id fp)
    (steps : s.run t = some s') : s'.Inv chains := by
  have mine := inv.own at_
  simp only [State.run, at_] at steps
  have there : fp ∈ chains (RefCount.hash id) := mine.regs
  obtain rfl := inv.access_of_chain there steps
  obtain ⟨before, after, split⟩ := List.append_of_mem there
  have chain := inv.chain (RefCount.hash id)
  rw [split] at chain
  refine inv.goto_same at_ rfl rfl fun a next => ?_
  rw [chain.next_eq] at next
  rw [split]
  exact List.mem_append_right _ (List.mem_cons_of_mem fp (List.mem_of_mem_head? next))

/-- With both locks held a count of 1 tells `foo_rele` that the reference is the last one. -/
theorem run_releRecheck (inv : s.Inv chains) (at_ : s.pc t = .releRecheck fp)
    (steps : s.run t = some s') : s'.Inv chains := by
  have mine := inv.own at_
  simp only [State.run, at_] at steps
  have owns := mine.own fp rfl
  obtain rfl := inv.access_of_mem owns steps
  split
  · rename_i more
    exact inv.goto_same at_ rfl rfl more
  · -- the count is still 1, so nobody else has a reference
    rename_i last
    have locked : s.fLock fp = .held t := (mine.lock fp).mpr rfl
    have counted := (inv.count fp (by simp [locked])).2
    rw [toInt_eq_one.mpr (not_not.mp last)] at counted
    have one : (s.refs fp).length = 1 := by omega
    obtain ⟨u, only⟩ := List.length_eq_one_iff.mp one
    obtain rfl : t = u := by simpa [only] using owns
    refine inv.goto at_ ⟨rfl, rfl, rfl⟩ rfl mine.own (fun a sole => ?_) trivial
    obtain rfl := Option.some.inj sole
    exact only

/-- `foo_rele` gives back a reference that is not the last one. -/
theorem run_decStore {second : Bool} {count : BitVec 32} (inv : s.Inv chains)
    (at_ : s.pc t = .decStore second fp count)
    (steps : s.run t = some s') : s'.Inv chains := by
  have mine := inv.own at_
  simp only [State.run, at_] at steps
  obtain ⟨loaded, more⟩ := mine.regs
  have owns := mine.own fp rfl
  obtain rfl := inv.access_of_mem owns steps
  have locked : s.fLock fp = .held t := (mine.lock fp).mpr rfl
  have length : count.toInt = (s.refs fp).length := by
    rw [← loaded, (inv.count fp (by simp [locked])).2]
  have several : count.toInt ≠ 1 := fun one => more (toInt_eq_one.mp one)
  have erased := List.length_erase_of_mem owns
  have positive := List.length_pos_of_mem owns
  refine inv.setCount at_ rfl (.inl owns) ?_ ?_ ?_ ⟨rfl, rfl⟩ ⟨rfl, rfl, rfl⟩ nofun rfl
    ⟨trivial, fun _ => Iff.rfl⟩
  · rw [toInt_pred (by omega), erased, length]
    omega
  · refine List.ne_nil_of_length_pos ?_
    omega
  · exact fun u other there => (List.mem_erase_of_ne other).mpr there

/-- The search of `foo_rele` cannot run off the chain. -/
theorem run_releWhile {p : Option Nat} (inv : s.Inv chains) (at_ : s.pc t = .releWhile fp p)
    (steps : s.run t = some s') : s'.Inv chains := by
  have mine := inv.own at_
  simp only [State.run, at_] at steps
  obtain ⟨tfp, rfl, behind⟩ := mine.regs
  obtain ⟨_, there⟩ := Behind.mem_chain behind
  obtain rfl := inv.access_of_chain there steps
  obtain ⟨found, next⟩ | ⟨other, _⟩ := inv.next_behind behind
  · rw [if_neg (not_not.mpr found)]
    exact inv.goto_same at_ rfl rfl next
  · rw [if_pos other]
    exact inv.goto_same at_ rfl rfl ⟨other, behind⟩

theorem run (inv : s.Inv chains) (room : ¬s.Overcounts (.run t)) (runs : s.run t = some s') :
    ∃ chains', s'.Inv chains' := by
  have mine := inv.thread t
  have steps := runs
  cases at_ : s.pc t
  all_goals
    rw [at_] at mine
    simp only [State.run, at_] at steps
  case idle | fault | allocInit => simp at steps
  case allocCount fp id =>
    obtain rfl := inv.access_of_mem (mine.own fp rfl) steps
    exact ⟨chains, inv.firstCount at_⟩
  case allocId fp id =>
    obtain rfl := inv.access_of_mem (mine.own fp rfl) steps
    exact ⟨chains, inv.storeId at_⟩
  case allocFree fp => exact ⟨chains, inv.freeFoo at_ rfl rfl steps⟩
  case allocHash fp id => exact ⟨chains, inv.lockHash at_ steps rfl rfl mine.regs⟩
  case allocHead fp id =>
    obtain rfl := Option.some.inj steps
    exact ⟨chains, inv.goto_same at_ rfl rfl ⟨mine.regs, rfl⟩⟩
  case allocNext fp id head =>
    obtain rfl := inv.access_of_mem (mine.own fp rfl) steps
    exact ⟨chains, inv.storeNext at_⟩
  case allocLink fp id =>
    obtain rfl := Option.some.inj steps
    exact ⟨_, inv.link at_⟩
  case allocLock fp =>
    exact ⟨chains, inv.lock at_ steps rfl rfl (.inl (mine.own fp rfl)) rfl rfl trivial⟩
  case allocUnhash fp => exact ⟨chains, inv.unlockHash at_ steps rfl rfl rfl trivial⟩
  case allocUnlock fp =>
    exact ⟨chains, inv.unlock at_ steps rfl rfl ⟨rfl, rfl, rfl⟩ nofun nofun rfl nofun trivial⟩
  case holdLock found fp =>
    have reaches := reaches_of_hold mine rfl rfl mine.regs
    exact ⟨chains, inv.lock at_ steps rfl rfl reaches rfl rfl mine.regs⟩
  case holdLoad found fp =>
    obtain rfl := inv.access_of_reaches (reaches_of_hold mine rfl rfl mine.regs) steps
    exact ⟨chains, inv.goto_same at_ rfl rfl ⟨rfl, mine.regs⟩⟩
  case holdStore found fp count =>
    have below : (s.refs fp).length < 2 ^ 31 - 1 := by
      by_contra full
      exact room ⟨fp, by simp [State.increments, at_], Nat.le_of_not_lt full⟩
    exact ⟨chains, inv.run_holdStore at_ below runs⟩
  case holdUnlock found fp =>
    cases found with
    | false =>
      exact ⟨chains, inv.unlock at_ steps rfl rfl ⟨rfl, rfl, rfl⟩ nofun nofun rfl nofun trivial⟩
    | true =>
      exact ⟨chains, inv.unlock at_ steps rfl rfl ⟨rfl, rfl, rfl⟩ nofun nofun rfl nofun trivial⟩
  case findHash id => exact ⟨chains, inv.lockHash at_ steps rfl rfl trivial⟩
  case findHead id =>
    obtain rfl := Option.some.inj steps
    refine ⟨chains, inv.goto_same at_ rfl rfl fun a first => ?_⟩
    rw [(inv.chain (RefCount.hash id)).first_eq] at first
    exact List.mem_of_mem_head? first
  case findTest id p =>
    cases p with
    | none =>
      obtain rfl := Option.some.inj steps
      exact ⟨chains, inv.goto_same at_ rfl rfl trivial⟩
    | some fp =>
      have there : fp ∈ chains (RefCount.hash id) := mine.regs fp rfl
      obtain rfl := inv.access_of_chain there steps
      split
      · exact ⟨chains, inv.goto_same at_ rfl rfl fun _ => ⟨_, there⟩⟩
      · exact ⟨chains, inv.goto_same at_ rfl rfl there⟩
  case findNext id fp => exact ⟨chains, inv.run_findNext at_ runs⟩
  case findUnhash r => exact ⟨chains, inv.unlockHash at_ steps rfl rfl rfl trivial⟩
  case releLock fp =>
    exact ⟨chains, inv.lock at_ steps rfl rfl (.inl (mine.own fp rfl)) rfl rfl trivial⟩
  case releTest fp =>
    obtain rfl := inv.access_of_mem (mine.own fp rfl) steps
    split
    · exact ⟨chains, inv.goto_same at_ rfl rfl trivial⟩
    · rename_i more
      exact ⟨chains, inv.goto_same at_ rfl rfl more⟩
  case releUnlock fp =>
    exact ⟨chains, inv.unlock at_ steps rfl rfl ⟨rfl, rfl, rfl⟩ (fun _ owner => owner) nofun
      rfl nofun trivial⟩
  case releHash fp => exact ⟨chains, inv.lockHash at_ steps rfl rfl trivial⟩
  case releRelock fp =>
    exact ⟨chains, inv.lock at_ steps rfl rfl (.inl (mine.own fp rfl)) rfl rfl trivial⟩
  case releRecheck fp => exact ⟨chains, inv.run_releRecheck at_ runs⟩
  case decLoad second fp =>
    obtain rfl := inv.access_of_mem (mine.own fp rfl) steps
    exact ⟨chains, inv.goto_same at_ rfl rfl ⟨rfl, mine.regs⟩⟩
  case decStore second fp count => exact ⟨chains, inv.run_decStore at_ runs⟩
  case decUnlock second fp =>
    cases second with
    | false =>
      exact ⟨chains, inv.unlock at_ steps rfl rfl ⟨rfl, rfl, rfl⟩ nofun nofun rfl nofun trivial⟩
    | true =>
      exact ⟨chains, inv.unlock at_ steps rfl rfl ⟨rfl, rfl, rfl⟩ nofun nofun rfl nofun trivial⟩
  case decUnhash => exact ⟨chains, inv.unlockHash at_ steps rfl rfl rfl trivial⟩
  case releId fp =>
    obtain rfl := inv.access_of_mem (mine.own fp rfl) steps
    exact ⟨chains, inv.goto_same at_ rfl rfl rfl⟩
  case releHead fp idx =>
    obtain rfl := Option.some.inj steps
    split
    · rename_i first
      exact ⟨chains, inv.goto_same at_ rfl rfl first⟩
    · rename_i other
      have index : RefCount.hash (s.fId fp) = idx := mine.regs
      have there := inv.on_chain (t := t) (a := fp) (by rw [at_]; rfl) (by rw [at_]; rfl)
      rw [index] at there
      exact ⟨chains, inv.goto_same at_ rfl rfl (inv.head_behind there other)⟩
  case releFirst fp idx =>
    obtain rfl := inv.access_of_mem (mine.own fp rfl) steps
    exact ⟨chains, inv.goto_same at_ rfl rfl ⟨mine.regs, rfl⟩⟩
  case releFirstStore fp idx next =>
    obtain ⟨first, rfl⟩ := mine.regs
    obtain rfl := Option.some.inj steps
    exact inv.unlinkFirst at_ first
  case releWhile fp p => exact ⟨chains, inv.run_releWhile at_ runs⟩
  case releStep fp tfp =>
    obtain ⟨other, behind⟩ := mine.regs
    obtain ⟨_, there⟩ := Behind.mem_chain behind
    obtain rfl := inv.access_of_chain there steps
    obtain ⟨found, _⟩ | ⟨_, nearer⟩ := inv.next_behind behind
    · exact absurd found other
    · exact ⟨chains, inv.goto_same at_ rfl rfl nearer⟩
  case releNext fp tfp =>
    obtain rfl := inv.access_of_mem (mine.own fp rfl) steps
    exact ⟨chains, inv.goto_same at_ rfl rfl ⟨rfl, mine.regs⟩⟩
  case releNextStore fp tfp next =>
    obtain ⟨rfl, next⟩ := mine.regs
    obtain ⟨idx, before, after, split⟩ := id next
    have there : tfp ∈ chains idx := by simp [split]
    obtain rfl := inv.access_of_chain there steps
    exact inv.unlinkNext at_ next
  case releUnhash fp => exact ⟨chains, inv.unlockHash at_ steps rfl rfl rfl trivial⟩
  case releLast fp =>
    exact ⟨chains, inv.unlock at_ steps rfl rfl ⟨rfl, rfl, rfl⟩ (fun _ owner =>
      owner) (fun _ sole => sole) rfl
      (fun _ off => (Option.some.inj off).symm) trivial⟩
  case releDestroy fp =>
    have free : s.fLock fp = .free := mine.mutex fp rfl rfl
    rw [if_pos ⟨inv.live_of_mem (mine.own fp rfl), free⟩, Option.some.injEq] at steps
    subst steps
    exact ⟨chains, inv.mutexDestroy at_⟩
  case releFree fp => exact ⟨chains, inv.freeFoo at_ rfl rfl steps⟩

theorem step {action : Action ι} (inv : s.Inv chains) (room : ¬s.Overcounts action)
    (steps : s.step action = some s') :
    ∃ chains', s'.Inv chains' := by
  cases action with
  | alloc t id result =>
    simp only [State.step] at steps
    split at steps
    · obtain rfl := Option.some.inj steps
      exact ⟨chains, inv⟩
    · rename_i idle
      split at steps
      · simp at steps
      · rename_i free
        obtain rfl := Option.some.inj steps
        exact ⟨chains, inv.malloc idle free⟩
    · simp at steps
  | find t id =>
    simp only [State.step, Option.ite_none_right_eq_some, Option.some.injEq] at steps
    obtain ⟨idle, rfl⟩ := steps
    exact ⟨chains, inv.goto_same idle rfl rfl trivial⟩
  | hold t fp =>
    simp only [State.step, Option.ite_none_right_eq_some, Option.some.injEq] at steps
    obtain ⟨⟨idle, owns⟩, rfl⟩ := steps
    refine ⟨chains, inv.goto idle ⟨rfl, rfl, rfl⟩ rfl (fun a owner => ?_) nofun nofun⟩
    obtain rfl := Option.some.inj owner
    exact owns
  | rele t fp =>
    simp only [State.step, Option.ite_none_right_eq_some, Option.some.injEq] at steps
    obtain ⟨⟨idle, owns⟩, rfl⟩ := steps
    refine ⟨chains, inv.goto idle ⟨rfl, rfl, rfl⟩ rfl (fun a owner => ?_) nofun trivial⟩
    obtain rfl := Option.some.inj owner
    exact owns
  | init t ok =>
    simp only [State.step] at steps
    split at steps
    · rename_i fp id at_
      have mine := inv.own at_
      split at steps
      · obtain rfl := inv.access_of_mem (mine.own fp rfl) steps
        exact ⟨chains, inv.mutexInit at_⟩
      · obtain rfl := inv.access_of_mem (mine.own fp rfl) steps
        exact ⟨chains, inv.goto_same at_ rfl rfl mine.regs.1⟩
    · simp at steps
  | run t => exact inv.run room steps
  | give t u fp =>
    simp only [State.step, Option.ite_none_right_eq_some, Option.some.injEq] at steps
    obtain ⟨⟨idle, owns⟩, rfl⟩ := steps
    exact ⟨chains, inv.give idle owns u⟩

omit [DecidableEq ι] in
theorem start : State.Inv (.start : State ι) fun _ => [] := by
  refine ⟨fun t => ?_, by simp [State.start], by simp [State.start], by simp [State.start], fun idx => rfl,
    fun idx => List.nodup_nil, by simp [State.start], by simp [State.start]⟩
  exact ⟨by simp [State.start, Pc.rights], by simp [State.start, Pc.rights], by simp [State.start, Pc.rights],
    by simp [State.start, Pc.rights], by simp [State.start, Pc.offChain], trivial⟩

end State.Inv

/-! ## Waiting -/

/-- A thread waits for locks of a lower rank than those it is waited for. -/
def Pc.rank (pc : Pc) : Nat :=
  match pc.wants with
  | some .hashlock => 2
  | some (.fLock _) => 1
  | none => 0

theorem Pc.rank_of_hash (hash : pc.rights.hash = true) : pc.rank < 2 := by
  cases pc <;> simp_all [rights, rank, wants]

/-- The holder of an object's lock waits for nothing. -/
theorem Pc.rank_of_lock (lock : pc.rights.lock = some fp) : pc.rank = 0 := by
  cases pc <;> simp_all [rights, rank, wants]

theorem State.Inv.rank_lt (inv : s.Inv chains) (waits : s.WaitsFor t u) :
    (s.pc u).rank < (s.pc t).rank := by
  unfold WaitsFor at waits
  split at waits
  · exact waits.elim
  · rename_i wants
    have high : (s.pc t).rank = 2 := by simp [Pc.rank, wants]
    rw [high]
    exact Pc.rank_of_hash ((inv.thread u).hash.mp waits)
  · rename_i fp wants
    have low : (s.pc t).rank = 1 := by simp [Pc.rank, wants]
    rw [low, Pc.rank_of_lock (((inv.thread u).lock fp).mp waits)]
    exact Nat.one_pos

theorem State.Inv.no_cycle (inv : s.Inv chains) (path : Relation.TransGen s.WaitsFor t u) :
    (s.pc u).rank < (s.pc t).rank := by
  induction path with
  | single waits => exact inv.rank_lt waits
  | tail _ waits inductionHypothesis => exact Nat.lt_trans (inv.rank_lt waits) inductionHypothesis

/-! ## What frees an object -/

section Freeing

variable [DecidableEq ι]

theorem State.access_live {next : State ι} (steps : s.access t fp next = some s')
    (same : next.live = s.live) :
    s'.live = s.live := by
  unfold access at steps
  split at steps
  all_goals obtain rfl := Option.some.inj steps
  · exact same
  · rfl

theorem State.lockHash_live (steps : s.lockHash t pc = some s') : s'.live = s.live := by
  unfold lockHash at steps
  split at steps
  · obtain rfl := Option.some.inj steps
    rfl
  · simp at steps

theorem State.unlockHash_live (steps : s.unlockHash t pc = some s') : s'.live = s.live := by
  unfold unlockHash at steps
  split at steps
  all_goals
    obtain rfl := Option.some.inj steps
    rfl

theorem State.lock_live (steps : s.lock t fp pc = some s') : s'.live = s.live := by
  unfold lock at steps
  split at steps
  · split at steps
    · obtain rfl := Option.some.inj steps
      rfl
    · obtain rfl := Option.some.inj steps
      rfl
    · simp at steps
  · obtain rfl := Option.some.inj steps
    rfl

theorem State.unlock_live (steps : s.unlock t fp pc = some s') : s'.live = s.live := by
  unfold unlock at steps
  split at steps
  all_goals
    obtain rfl := Option.some.inj steps
    rfl

/-- The two places where `free` is called. -/
def Pc.Frees (pc : Pc) (fp : Nat) : Prop := pc = .allocFree fp ∨ pc = .releFree fp

theorem State.freeFoo_live (steps : s.freeFoo t fp = some s') (a : Nat) (other : a ≠ fp) :
    s'.live a = s.live a := by
  unfold freeFoo access at steps
  split at steps
  all_goals obtain rfl := Option.some.inj steps
  · simp [goto, other]
  · rfl

theorem State.run_live (steps : s.run t = some s') : s'.live = s.live ∨ ∃ fp, (s.pc t).Frees fp ∧
    ∀ a, a ≠ fp → s'.live a = s.live a := by
  cases at_ : s.pc t
  all_goals simp only [State.run, at_] at steps
  case allocFree fp => exact .inr ⟨fp, .inl rfl, State.freeFoo_live steps⟩
  case releFree fp => exact .inr ⟨fp, .inr rfl, State.freeFoo_live steps⟩
  all_goals left
  case idle | fault | allocInit => simp at steps
  case allocHash | findHash | releHash => exact State.lockHash_live steps
  case allocUnhash | findUnhash | decUnhash | releUnhash => exact State.unlockHash_live steps
  case allocLock | holdLock | releLock | releRelock => exact State.lock_live steps
  case allocUnlock | holdUnlock | releUnlock | decUnlock | releLast => exact State.unlock_live steps
  case allocHead | allocLink | findHead | releHead | releFirstStore =>
    obtain rfl := Option.some.inj steps
    rfl
  case findTest id p =>
    cases p with
    | none =>
      obtain rfl := Option.some.inj steps
      rfl
    | some fp => exact State.access_live steps rfl
  case releWhile fp p =>
    cases p with
    | none =>
      obtain rfl := Option.some.inj steps
      rfl
    | some tfp => exact State.access_live steps rfl
  case releDestroy fp =>
    split at steps
    all_goals
      obtain rfl := Option.some.inj steps
      rfl
  all_goals exact State.access_live steps rfl

theorem State.step_live {action : Action ι} {a : Nat} (steps : s.step action = some s')
    (before : s.live a = true)
    (after : s'.live a ≠ true) : ∃ t, action = .run t ∧ (s.pc t).Frees a := by
  have differs (same : s'.live = s.live) : False := after (by rw [same, before])
  cases action with
  | run t =>
    obtain same | ⟨fp, frees, others⟩ := State.run_live steps
    · exact (differs same).elim
    · have here : a = fp := by
        by_contra other
        exact after (by rw [others a other, before])
      exact ⟨t, rfl, here ▸ frees⟩
  | alloc t id result =>
    simp only [State.step] at steps
    split at steps
    · obtain rfl := Option.some.inj steps
      exact (differs rfl).elim
    · rename_i fp _
      split at steps
      · simp at steps
      · obtain rfl := Option.some.inj steps
        by_cases here : a = fp
        · simp [goto, here] at after
        · simp [goto, here, before] at after
    · simp at steps
  | init t ok =>
    simp only [State.step] at steps
    split at steps
    · split at steps
      · exact (differs (State.access_live steps rfl)).elim
      · exact (differs (State.access_live steps rfl)).elim
    · simp at steps
  | find | hold | rele | give =>
    simp only [State.step, Option.ite_none_right_eq_some, Option.some.injEq] at steps
    obtain ⟨_, rfl⟩ := steps
    exact (differs rfl).elim

end Freeing

/-! ## Every reachable state -/

variable [DecidableEq ι]

theorem reference_counts_safe (actions : List (Action ι)) (s : State ι)
    (runs : execute State.step .start actions = some s)
    (room : ∀ s₁ action, Takes State.step .start actions s₁ action → ¬s₁.Overcounts action) :
    (∀ t, s.pc t ≠ .fault) ∧
      (∀ fp, s.fLock fp = .free → (s.fCount fp).toInt = (s.refs fp).length) ∧
      (∀ idx, ∃ chain, Chain s.fNext (s.fh idx) chain ∧ chain.Nodup ∧
        ∀ fp, fp ∈ chain ↔ s.live fp = true ∧ hash (s.fId fp) = idx ∧
          ∀ t, (s.pc t).offChain ≠ some fp) ∧
      (∀ t fp, (s.pc t).offChain = some fp → s.refs fp = [t]) ∧
      (∀ fp, (s.live fp = true ↔ s.refs fp ≠ []) ∧ s.mallocs fp = s.frees fp + if s.live fp =
        true then 1 else 0) ∧
      (∀ action s' fp, s.step action = some s' → s.live fp = true → s'.live fp ≠ true →
        ∃ t, action = .run t ∧ (s.pc t).Frees fp ∧ s.refs fp = [t] ∧ s'.refs fp = []) ∧
      ∀ t, ¬Relation.TransGen s.WaitsFor t t := by
  have start : ∃ chains, (State.start : State ι).Inv chains := ⟨_, State.Inv.start⟩
  obtain ⟨chains, inv⟩ := (Visits.finish runs).invariant (fun s => ∃ chains, s.Inv chains)
    (fun s action => ¬s.Overcounts action) start
      (fun _ _ _ inv room steps => inv.choose_spec.step room steps) room
  refine ⟨fun t fault => ?_, fun fp free => ?_,
    fun idx => ⟨chains idx, inv.chain idx, inv.nodup idx, fun fp => ?_⟩,
    fun t fp off => ?_, fun fp => ⟨inv.live fp, inv.counted fp⟩,
      fun action s' fp steps before after => ?_,
    fun t path => ?_⟩
  · have regs := (inv.thread t).regs
    rw [fault] at regs
    exact regs
  · exact (inv.count fp (by simp [free])).2
  · rw [inv.mem idx fp, inv.live fp]
  · exact (inv.thread t).sole fp (Pc.offChain_sole off)
  · obtain ⟨t, rfl, frees⟩ := State.step_live steps before after
    have above : ¬s.Overcounts (.run t) := by
      rintro ⟨fp, increments, _⟩
      obtain at_ | at_ := frees
      all_goals simp [State.increments, at_] at increments
    obtain ⟨_, inv'⟩ := inv.step above steps
    refine ⟨t, rfl, frees, (inv.thread t).sole fp ?_, ?_⟩
    · obtain at_ | at_ := frees
      all_goals
        rw [at_]
        rfl
    · by_contra some_
      exact after ((inv'.live fp).mpr some_)
  · exact Nat.lt_irrefl _ (inv.no_cycle path)

/-- One thread allocates an object, a second one finds it; the first releases it, then the
second. -/
def sharedObject : List (Action Bool) :=
  [.alloc true 5 (some 1), .run true, .run true, .init true true] ++ List.replicate 7 (.run true) ++
    .find false 5 :: List.replicate 8 (.run false) ++ .rele true 1 :: List.replicate 5
      (.run true) ++
    .rele false 1 :: List.replicate 14 (.run false)

theorem reference_counts_safe_shared :
    ∃ s, execute State.step .start sharedObject = some s ∧ s.frees 1 = 1 ∧ s.refs 1 = [] ∧
      ∀ t, s.pc t ≠ .fault := by
  have freed : (execute State.step .start sharedObject).any (fun s => s.frees 1 = 1 ∧
      s.live 1 = false) = true := by
    decide +kernel
  have room : allTaken State.step (fun s action => !decide (s.Overcounts action)) .start
      sharedObject = true := by
    decide +kernel
  obtain ⟨s, runs, ends⟩ := (Option.any_eq_true _ _).mp freed
  have safe := reference_counts_safe sharedObject s runs fun s₁ action takes => by
    simpa using takes.of_allTaken room
  obtain ⟨count, gone⟩ : s.frees 1 = 1 ∧ s.live 1 = false := by simpa using ends
  refine ⟨s, runs, count, ?_, safe.1⟩
  by_contra some_
  have live := ((safe.2.2.2.2.1 1).1).mpr some_
  simp [gone] at live

/-! ## More references than an `int` can count -/

/-- One thread allocates an object and calls `foo_hold` for it again and again. -/
def manyHolds (holds : Nat) : List (Action Unit) :=
  [.alloc () 5 (some 1), .run (), .run (), .init () true] ++ List.replicate 7 (.run ()) ++
    (List.replicate holds (.hold () 1 :: List.replicate 4 (.run ()))).flatten

/-- Between two of the calls. -/
structure Held (s : State Unit) (references : Nat) : Prop where
  pc : s.pc () = .idle
  live : s.live 1 = true
  lock : s.fLock 1 = .free
  refs : s.refs 1 = List.replicate references ()
  count : s.fCount 1 = BitVec.ofNat 32 references

theorem Held.hold {s : State Unit} {references : Nat} (held : Held s (references + 1)) :
    ∃ s', execute State.step s (.hold () 1 :: List.replicate 4 (.run ())) = some s' ∧
      Held s' (references + 2) := by
  obtain ⟨pc, live, lock, refs, count⟩ := held
  have owns : () ∈ s.refs 1 := by simp [refs]
  simp only [execute, State.step, State.run, State.lock, State.access, State.unlock, State.goto,
    List.replicate, pc, owns, live,
    lock, and_self, if_true, Function.update_self, Bool.false_eq_true, if_false, Option.some.injEq,
      exists_eq_left']
  refine ⟨rfl, live, ?_, ?_, ?_⟩
  · simp
  · simp [refs, List.replicate_succ]
  · simp [count, BitVec.ofNat_add, BitVec.add_assoc]

theorem held_after (holds : Nat) :
    ∃ s, execute State.step .start (manyHolds holds) = some s ∧ Held s (holds + 1) := by
  unfold manyHolds
  induction holds with
  | zero => exact ⟨_, rfl, rfl, rfl, rfl, rfl, rfl⟩
  | succ holds inductionHypothesis =>
    obtain ⟨s, runs, held⟩ := inductionHypothesis
    obtain ⟨s', again, held'⟩ := held.hold
    refine ⟨s', ?_, held'⟩
    rw [List.replicate_succ' (n := holds), List.flatten_concat, ← List.append_assoc,
      execute_append, runs]
    exact again

/-- After `INT_MAX` calls of `foo_hold` the object has one reference more than its count can say. -/
theorem count_overflows :
    ∃ s, execute State.step .start (manyHolds (2 ^ 31 - 1)) = some s ∧ s.fLock 1 = .free ∧
      (s.fCount 1).toInt ≠ (s.refs 1).length := by
  obtain ⟨s, runs, held⟩ := held_after (2 ^ 31 - 1)
  refine ⟨s, runs, held.lock, ?_⟩
  rw [held.count, held.refs, List.length_replicate]
  decide

end Apue.Threads.RefCount
