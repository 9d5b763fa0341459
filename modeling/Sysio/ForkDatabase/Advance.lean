import Sysio.ForkDatabase.Branch

/-!
# Advancing the root

`advance_root` erases the new root, and then removes, one after the other, the subtrees that hang on
the blocks below it.  Any of these removals throws if the head would go with it, and by then blocks
are gone.  `advanceRootCall` keeps the database that a call leaves behind, whether it throws or not.

A call that returns has the new root and exactly the blocks above it (`AdvancesTo`).  A call that
throws changes nothing exactly if the head is at or above the block, or the block is not there or
not validated (`advanceRoot_atomic_iff`).
-/

namespace Sysio.ForkDatabase

open Result List Table Except Descends

variable {headId id : BlockId} {db : ForkDatabase} {index : ForkIndex} {b c : BlockState}

open ForkIndex

/-! ### The call -/

/-- The removals of `advance_root_impl`, up to the first that throws.  A removal looks at all blocks
before it erases the first, so one that throws changes nothing. -/
def removeEach : ForkDatabase → List BlockId → Result Unit × ForkDatabase
  | db, [] => (.ok (), db)
  | db, id :: ids =>
    match db.remove id with
    | .ok db' => removeEach db' ids
    | .error e => (.error e, db)

/-- `advance_root_impl`: its result, and the database afterwards. -/
def advanceRootCall (db : ForkDatabase) (id : BlockId) : Result Unit × ForkDatabase :=
  match db.root with
  | none => (.error ⟨.forkDatabaseException, "root not yet set"⟩, db)
  | some root =>
    match db.index.find? id with
    | none => (.error ⟨.forkDatabaseException,
        "cannot advance root to a block that does not exist in the fork database"⟩, db)
    | some newRoot =>
      if newRoot.validated = true then
        match blocksToRemove db.index root.id newRoot.blockNum newRoot.header.previous with
        | .error e => (.error e, db)
        | .ok ids =>
          match removeEach { db with index := db.index.erase id } ids with
          | (.error e, db') => (.error e, db')
          | (.ok (), db') => (.ok (), { db' with root := some newRoot })
      else (.error ⟨.forkDatabaseException,
        "cannot advance root to a block that has not yet been validated"⟩, db)

variable {db' : ForkDatabase} {ids : List BlockId} {head root newRoot : BlockState}

lemma removeEach_eq_ok : removeEach db ids = (.ok (), db') ↔ ids.foldlM remove db = .ok db' := by
  induction ids generalizing db with
  | nil => simp [removeEach]
  | cons id ids ih =>
    rw [removeEach, foldlM_cons]
    cases db.remove id with
    | ok db1 => exact ih
    | error e =>
      constructor
      · intro h
        cases h
      · intro h
        cases h

/-- A call returns when `advanceRoot` does, with the same database. -/
lemma advanceRootCall_eq_ok :
    db.advanceRootCall id = (.ok (), db') ↔ db.advanceRoot id = .ok db' := by
  unfold advanceRootCall advanceRoot
  cases db.root with
  | none => exact ⟨nofun, nofun⟩
  | some root =>
    cases db.index.find? id with
    | none => exact ⟨nofun, nofun⟩
    | some newRoot =>
      by_cases hval : newRoot.validated = true
      · simp only [hval, if_true, bind_eq_ok, sysAssert_eq_ok, pure_eq_ok, true_and, exists_const]
        cases hids : blocksToRemove db.index root.id newRoot.blockNum newRoot.header.previous with
        | error e =>
          simp
        | ok ids =>
          simp only [ok.injEq, exists_eq_left', ← removeEach_eq_ok]
          generalize removeEach ⟨db.index.erase id, some root, db.head⟩ ids = r
          rcases r with ⟨_ | _, db1⟩
          · simp
          · simp
      · simp [hval, bind_eq_ok]

/-! ### What a removal keeps -/

section Avoid

variable {S : BlockId → Prop}

/-- A removal that starts outside of a set closed under parents stays outside of it. -/
lemma removeQueue_avoids (hclosed : ∀ b ∈ index, S b.id → S b.header.previous) {fuel : ℕ}
    {queue done : List BlockId} (h : removeQueue index headId fuel queue done = .ok ids)
    (hqueue : ∀ id ∈ queue, ¬S id) (hdone : ∀ id ∈ done, ¬S id) : ∀ id ∈ ids, ¬S id := by
  induction fuel generalizing queue done with
  | zero =>
    cases queue with
    | nil =>
      rw [removeQueue, ok.injEq] at h
      exact h ▸ hdone
    | cons => cases h
  | succ fuel ih =>
    cases queue with
    | nil =>
      rw [removeQueue, ok.injEq] at h
      exact h ▸ hdone
    | cons =>
      simp only [removeQueue, bind_eq_ok, sysAssert_eq_ok] at h
      obtain ⟨-, -, h⟩ := h
      obtain ⟨hid, hqueue⟩ := forall_mem_cons.mp hqueue
      refine ih h (forall_mem_append.mpr ⟨hqueue, ?_⟩)
        (forall_mem_append.mpr ⟨hdone, by simpa using hid⟩)
      intro x hx hS
      obtain ⟨b, hb, hprev, rfl⟩ := mem_childIds.mp hx
      exact hid (hprev ▸ hclosed b hb hS)

lemma mem_of_remove
    (hclosed : ∀ b ∈ db.index, S b.id → S b.header.previous) (h : db.remove id = .ok db')
    (hid : ¬S id) (hb : b ∈ db.index) (hS : S b.id) : b ∈ db'.index := by
  unfold remove at h
  split at h
  · cases h
  · simp only [bind_eq_ok, pure_eq_ok] at h
    obtain ⟨ids, hids, rfl⟩ := h
    have havoid := removeQueue_avoids hclosed hids (by simpa using hid) (by simp)
    exact mem_eraseIds.mpr ⟨hb, fun hmem => havoid _ hmem hS⟩

lemma mem_of_foldlM_remove
    (hclosed : ∀ b ∈ db.index, S b.id → S b.header.previous) (h : ids.foldlM remove db = .ok db')
    (hids : ∀ id ∈ ids, ¬S id) (hb : b ∈ db.index) (hS : S b.id) : b ∈ db'.index := by
  induction ids generalizing db with
  | nil =>
    rw [foldlM_nil, pure_eq_ok] at h
    exact h ▸ hb
  | cons id ids ih =>
    rw [foldlM_cons, bind_eq_ok] at h
    obtain ⟨db1, h1, h2⟩ := h
    obtain ⟨hid, hids⟩ := forall_mem_cons.mp hids
    obtain ⟨_, -, hrem⟩ := remove_eq_ok h1
    exact ih (fun b hb => hclosed b ((hrem.mem_iff b).mp hb).1) h2 hids
      (mem_of_remove hclosed h1 hid hb hS)

end Avoid

/-! ### Calls that return -/

/-- In the tree, following the parents of a block to `c` and descending from `c` are the same. -/
lemma Linked.reaches_iff (hi : Linked index root head)
    (hc : c ∈ index) (hb : b ∈ index) : Reaches index c.id b ↔ Descends index c b := by
  refine ⟨fun h => ?_, reaches⟩
  have hroot : ∀ p ∈ index, p.id ≠ root.id := find?_eq_none.mp hi.root_not_mem
  -- a block of the tree follows its parent
  have hfollows {p b : BlockState} (hp : p ∈ index) (hb : b ∈ index)
      (hprev : b.header.previous = p.id) : b.blockNum = p.blockNum + 1 := by
    obtain ⟨q, rfl | hq, hprev', hnum⟩ := hi.parents b hb
    · exact absurd (hprev.symm.trans hprev') (hroot p hp)
    · exact eq_of_key_eq hq hp (hprev'.symm.trans hprev) ▸ hnum
  induction h with
  | root hprev => exact child hprev (hfollows hc hb hprev)
  | step hp hprev _ ih => exact step hp hprev (hfollows hp hb hprev) (ih hp)

/-- A call that returns keeps the blocks, the root and the head together. -/
lemma linked_advanceRoot (hi : db.Keeps Linked) (h : db.advanceRoot id = .ok db') :
    db'.Keeps Linked := by
  obtain ⟨root, newRoot, ids, db1, hroot, hnew, hrootId, hrem, rfl⟩ := advanceRoot_eq_ok h
  obtain ⟨head, hhead, hi⟩ := hi.of_root hroot
  obtain ⟨hmem, rfl⟩ := find?_eq_some.mp hnew
  have hout := hrem.head_not_mem head hhead
  refine .inr ⟨newRoot, head, rfl, hrem.head_eq.trans hhead,
    hi.parents.of_advance hmem hrootId hrem.closed hrem.mem_iff, ?_⟩
  rcases hi.head_known with rfl | hhm
  · exact absurd hrootId hout
  · by_cases hid : head.id = newRoot.id
    · exact .inl (eq_of_key_eq hhm hmem hid)
    · exact .inr ((hrem.mem_iff head).mpr ⟨mem_erase.mpr ⟨hhm, hid⟩, hout⟩)

/-- What a call that returns has done: the block is the root, the index holds exactly the blocks
above it, unchanged, and the head is the root or one of them. -/
structure AdvancesTo (db : ForkDatabase) (id : BlockId) (db' : ForkDatabase) : Prop where
  root_eq : db'.root = db.index.find? id
  root_isSome : (db.index.find? id).isSome
  mem_iff : ∀ b, b ∈ db'.index ↔ b ∈ db.index ∧ Reaches db.index id b
  head_eq : db'.head = db.head
  head_mem : ∀ head, db'.head = some head → db'.root = some head ∨ head ∈ db'.index

lemma advancesTo_of_eq_ok (hi : db.Keeps Linked)
    (h : db.advanceRoot id = .ok db') : AdvancesTo db id db' := by
  have hi' := linked_advanceRoot hi h
  obtain ⟨root, newRoot, ids, db1, hroot, hnew, -, hids, hfold, rfl⟩ := advanceRoot_stages h
  obtain ⟨all, -, hrem⟩ := foldlM_remove_eq_ok hfold
  obtain ⟨head, hhead, hi⟩ := hi.of_root hroot
  obtain ⟨hmem, rfl⟩ := find?_eq_some.mp hnew
  obtain ⟨head', hhead', hi'⟩ := hi'.of_root rfl
  have hsub : ∀ b ∈ db1.index, b ∈ db.index := fun b hb =>
    (mem_erase.mp ((hrem.mem_iff b).mp hb).1).1
  refine ⟨hnew.symm, by rw [hnew]; rfl, fun b => ?_, hrem.head_eq, fun h hh => ?_⟩
  · constructor
    · intro hb
      exact ⟨hsub b hb, ((hi'.descends b hb).mono hsub).reaches⟩
    · rintro ⟨hb, hreach⟩
      have hdesc := (hi.reaches_iff hmem hb).mp hreach
      have hne : b.id ≠ newRoot.id := fun hid =>
        hdesc.above.ne (by rw [eq_of_key_eq hmem hb hid.symm])
      -- blocks at or above the new root are closed under parents, and none of them is collected
      have hout := not_upperIds_of_blocksToRemove hi.numbered (hi.descends newRoot hmem) hids
      have hkept : b ∈ db1.index := mem_of_foldlM_remove (S := UpperIds db.index newRoot)
        (fun p => UpperIds.previous_of_mem_erase) hfold hout
        (mem_erase.mpr ⟨hb, hne⟩) (.inr ⟨b, hb, rfl, hdesc⟩)
      exact hkept
  · rw [hhead', Option.some.injEq] at hh
    subst hh
    exact hi'.head_known.imp_left fun heq => by rw [heq]

/-! ### Calls that throw -/

/-- The head is at or above the block, if that is there and validated. -/
def HeadAbove (db : ForkDatabase) (id : BlockId) : Prop :=
  ∀ newRoot head, db.index.find? id = some newRoot → newRoot.validated = true →
    db.head = some head → head = newRoot ∨ (head ∈ db.index ∧ Reaches db.index id head)

lemma removeEach_subset (h : b ∈ (removeEach db ids).2.index) : b ∈ db.index := by
  induction ids generalizing db with
  | nil => exact h
  | cons id ids ih =>
    rw [removeEach] at h
    cases hrem : db.remove id with
    | error e =>
      rwa [hrem] at h
    | ok db1 =>
      rw [hrem] at h
      obtain ⟨_, -, hr⟩ := remove_eq_ok hrem
      exact ((hr.mem_iff b).mp (ih h)).1

/-- A call for a block that is there and validated erases it, whatever happens then. -/
lemma advanceRootCall_erases
    (hroot : db.root = some root) (hi : Linked db.index root head) (hmem : newRoot ∈ db.index)
    (hval : newRoot.validated = true) : newRoot ∉ (db.advanceRootCall newRoot.id).2.index := by
  have hnum := hi.numbered newRoot hmem
  rw [newRoot.numFromId_id] at hnum
  have hdefined : Result.Defined
      (blocksToRemove db.index root.id newRoot.blockNum newRoot.header.previous) :=
    defined_blocksToRemove hi.numbered (by omega)
  obtain ⟨ids, hids⟩ := hdefined.exists_eq_ok
    (unchecked_blocksToRemove hi.root_not_mem (hi.descends newRoot hmem))
  intro hin
  simp only [advanceRootCall, hroot, find?_eq_some.mpr ⟨hmem, rfl⟩, hval, if_true, hids] at hin
  have hsub : newRoot ∈
      (removeEach ⟨db.index.erase newRoot.id, some root, db.head⟩ ids).2.index := by
    generalize removeEach ⟨db.index.erase newRoot.id, some root, db.head⟩ ids = r at hin ⊢
    rcases r with ⟨_ | _, db1⟩
    · exact hin
    · exact hin
  exact (mem_erase.mp (removeEach_subset hsub)).2 rfl

/-- A call for a block that is not there or not validated throws before it changes anything. -/
lemma advanceRootCall_of_not_valid {e : ChainException}
    (hnot : ∀ newRoot, db.index.find? id = some newRoot → newRoot.validated = false)
    (h : db.advanceRootCall id = (.error e, db')) : db' = db := by
  unfold advanceRootCall at h
  split at h
  · cases h
    rfl
  · split at h
    · cases h
      rfl
    · next newRoot hnew =>
      rw [hnot newRoot hnew, if_neg Bool.false_ne_true] at h
      cases h
      rfl

/-- A call for a block that is there and validated returns if the head is at or above it. -/
lemma exists_advanceRoot_of_headAbove (hroot : db.root = some root) (hhead : db.head = some head)
    (hi : Linked db.index root head) (hmem : newRoot ∈ db.index) (hval : newRoot.validated = true)
    (h : HeadAbove db newRoot.id) : ∃ db', db.advanceRoot newRoot.id = .ok db' := by
  have hnew : db.index.find? newRoot.id = some newRoot := find?_eq_some.mpr ⟨hmem, rfl⟩
  have hup : AtOrAbove db.index newRoot head := by
    rcases h newRoot head hnew hval hhead with rfl | ⟨hhm, hreach⟩
    · exact .inl rfl
    · exact .inr ((hi.reaches_iff hmem hhm).mp hreach)
  obtain ⟨_, db', hok, -⟩ := advanceRoot_ok hroot hhead hi hnew hval hup
  exact ⟨db', hok⟩

/-- **`advance_root` is exact, and atomic as long as the head is not on another branch.**  A call
that returns has moved the root to the block, with exactly the blocks above it left; that a call
which throws leaves the database as it was holds exactly if the head is at or above the block, or
the block is not there or not validated. -/
theorem advanceRoot_atomic_iff {db : ForkDatabase} (hi : db.Keeps Linked) (id : BlockId) :
    (∀ db', db.advanceRootCall id = (.ok (), db') → AdvancesTo db id db') ∧
      ((∀ e db', db.advanceRootCall id = (.error e, db') → db' = db) ↔ HeadAbove db id) := by
  refine ⟨fun db' h => advancesTo_of_eq_ok hi (advanceRootCall_eq_ok.mp h), ?_⟩
  constructor
  · intro hatomic newRoot head hnew hval hhead
    obtain ⟨root, hroot, htree⟩ := hi.of_head hhead
    obtain ⟨hmem, rfl⟩ := Table.find?_eq_some.mp hnew
    rcases hcall : db.advanceRootCall newRoot.id with ⟨e | _, db'⟩
    · -- a call that threw would have left the index without the block
      have herased := advanceRootCall_erases hroot htree hmem hval
      rw [hcall, hatomic e db' hcall] at herased
      exact absurd hmem herased
    · have hadv := advancesTo_of_eq_ok hi (advanceRootCall_eq_ok.mp hcall)
      rcases hadv.head_mem head (hadv.head_eq.trans hhead) with hr | hm
      · rw [hadv.root_eq, hnew, Option.some.injEq] at hr
        exact .inl hr.symm
      · exact .inr ((hadv.mem_iff head).mp hm)
  · intro habove e db' hcall
    by_cases hvalid : ∃ newRoot ∈ db.index, newRoot.id = id ∧ newRoot.validated = true
    · obtain ⟨newRoot, hmem, rfl, hval⟩ := hvalid
      rcases hi with ⟨-, -, hempty⟩ | ⟨root, head, hroot, hhead, htree⟩
      · rw [hempty] at hmem
        exact absurd hmem (Table.not_mem_empty _)
      · obtain ⟨db1, hok⟩ := exists_advanceRoot_of_headAbove hroot hhead htree hmem hval habove
        rw [advanceRootCall_eq_ok.mpr hok] at hcall
        cases hcall
    · refine advanceRootCall_of_not_valid (fun newRoot hnew => ?_) hcall
      obtain ⟨hmem, hid⟩ := Table.find?_eq_some.mp hnew
      exact Bool.eq_false_iff.mpr fun hval => hvalid ⟨newRoot, hmem, hid, hval⟩

/-! ### The head on another branch -/

theorem advanceRoot_atomic_iff_demoOps : ∃ db, Inv db ∧ db.index.rows.length = 2 ∧
    ((∀ e db', db.advanceRootCall (demoTip [1, 2]).id = (.error e, db') → db' = db) ↔
      HeadAbove db (demoTip [1, 2]).id) := by
  obtain ⟨tr, db, hr, hP⟩ := exists_demoRun demoOps (P := fun db => db.index.rows.length = 2)
    (by decide +kernel)
  have hi := inv_of_run hr
  exact ⟨db, hi, hP, (advanceRoot_atomic_iff (Inv.linked hi) _).2⟩

/-- Two validated blocks 2; the head is one of them, and the root is advanced to the other.  The
call throws, and the block is gone. -/
theorem exists_advanceRoot_not_atomic : ∃ db e db', Inv db ∧
    db.advanceRootCall (demoTip [1]).id = (.error e, db') ∧
    (db.index.find? (demoTip [1]).id).isSome ∧ db'.index.find? (demoTip [1]).id = none := by
  obtain ⟨tr, db, hr, hP⟩ := exists_demoRun
    [demoReset, .add (demoState [2] true) false false,
      .add (demoState [1] false) false false,
      .markValid (demoState [1] false)]
    (P := fun db => (db.advanceRootCall (demoTip [1]).id).1.toOption = none ∧
      (db.index.find? (demoTip [1]).id).isSome ∧
      (db.advanceRootCall (demoTip [1]).id).2.index.find? (demoTip [1]).id = none)
    (by decide +kernel)
  obtain ⟨hthrows, hthere, hgone⟩ := hP
  rcases hcall : db.advanceRootCall (demoTip [1]).id with ⟨e | _, db'⟩
  · rw [hcall] at hgone
    exact ⟨db, e, db', inv_of_run hr, hcall, hthere, hgone⟩
  · rw [hcall] at hthrows
    cases hthrows

end Sysio.ForkDatabase
