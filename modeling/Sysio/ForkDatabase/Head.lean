import Sysio.ForkDatabase.Invariant
import Sysio.BlockHeaderState.Id
import Sysio.BlockHeaderState.Irreversible

/-!
# Head and pending head

`forkDatabase_invariant` reads the invariant after any sequence of operations, and adds what
`pending_head` returns.
-/

namespace Sysio.ForkDatabase

open ForkIndex BlockHeaderState

variable {db db' : ForkDatabase} {b head root : BlockState}

/-! ### The pending head -/

/-- What `pending_head` returns is a best block of the whole database, and the head unless an
unvalidated block is strictly better. -/
lemma pendingHead_spec (hhead : db.head = some head)
    (hi : TreeInv db.index root head) : ∃ p, db.pendingHead = some p ∧
      (∀ b ∈ db.index, ¬firstPreferred b.toBlockHeaderState p.toBlockHeaderState) ∧
      ((∀ b ∈ db.index, b.validated = false →
        ¬firstPreferred b.toBlockHeaderState head.toBlockHeaderState) → p = head) := by
  unfold pendingHead
  cases hfind : db.index.byLibBlockNum.find? (fun b => !b.validated) with
  | none =>
    -- every block is validated
    refine ⟨head, by rw [hhead], ?_, fun _ => rfl⟩
    intro b hb
    refine hi.best b hb ?_
    simpa using List.find?_eq_none.mp hfind b (mem_byLibBlockNum.mpr hb)
  | some u =>
    obtain ⟨hmem, huv, hall⟩ := find?_byLibBlockNum hfind
    have huv : u.validated = false := by simpa using huv
    have hunval : ∀ b ∈ db.index, b.validated = false →
        ¬firstPreferred b.toBlockHeaderState u.toBlockHeaderState := by
      intro b hb hbv
      exact (hall b hb (by simp [hbv])).spec.2 (huv.trans hbv.symm)
    rw [hhead]
    dsimp only
    by_cases hpref : firstPreferred u.toBlockHeaderState head.toBlockHeaderState
    · refine ⟨u, by rw [if_pos hpref], ?_, fun h => absurd hpref (h u hmem huv)⟩
      intro b hb
      cases hbv : b.validated with
      | false => exact hunval b hb hbv
      | true =>
        intro hbu
        exact hi.best b hb hbv (firstPreferred_trans hbu hpref)
    · refine ⟨head, by rw [if_neg hpref], ?_, fun _ => rfl⟩
      intro b hb
      cases hbv : b.validated with
      | false => exact not_firstPreferred_trans (hunval b hb hbv) hpref
      | true => exact hi.best b hb hbv

/-! ### Sequences of operations -/

section Runs

variable {validator : UInt32 → List Sha256 → List Sha256 → Result Unit}
  {tr : List (Transition ForkDatabase Op)}

lemma inv_of_run (hr : Run (Step validator) empty tr db) : Inv db :=
  Run.invariant (.inl ⟨rfl, rfl, rfl⟩) (fun _ _ _ hi h => Step.inv hi h) hr

/-- **The invariant of the fork database.**  After any sequence of operations of which none throws,
and which has set a root: every block reaches the root through the index; the root is not in the
index and has a smaller number than every block in it; the head is the root or a validated block of
the index, and no validated block is preferred to it; and `pending_head` returns a block that no
block of the index is preferred to, which is the head whenever no unvalidated block is preferred to
the head. -/
theorem forkDatabase_invariant (hr : Run (Step validator) empty tr db) {root : BlockState}
    (hroot : db.root = some root) :
    ∃ head pending, db.head = some head ∧ db.pendingHead = some pending ∧
      (∀ b ∈ db.index, Reaches db.index root.id b) ∧
      (db.index.find? root.id = none ∧ ∀ b ∈ db.index, root.blockNum < b.blockNum) ∧
      (head = root ∨ (head ∈ db.index ∧ head.validated = true)) ∧
      (∀ b ∈ db.index, b.validated = true →
        ¬firstPreferred b.toBlockHeaderState head.toBlockHeaderState) ∧
      (∀ b ∈ db.index, ¬firstPreferred b.toBlockHeaderState pending.toBlockHeaderState) ∧
      ((∀ b ∈ db.index, b.validated = false →
        ¬firstPreferred b.toBlockHeaderState head.toBlockHeaderState) → pending = head) := by
  obtain ⟨head, hhead, hi⟩ := (inv_of_run hr).of_root hroot
  obtain ⟨pending, hpend, hbest, hsame⟩ := pendingHead_spec hhead hi
  have hdesc := hi.linked.descends
  exact ⟨head, pending, hhead, hpend, fun b hb => (hdesc b hb).reaches,
    ⟨hi.linked.root_not_mem, fun b hb => (hdesc b hb).above⟩, hi.head_mem, hi.best, hbest, hsame⟩

end Runs

/-! ### A concrete sequence -/

/-- The fork database after an operation that is allowed and succeeds. -/
def next (validator : UInt32 → List Sha256 → List Sha256 → Result Unit) (db : ForkDatabase)
    (op : Op) : Option ForkDatabase :=
  if op.Continues db then (db.apply validator op).toOption else none

lemma step_of_next {validator : UInt32 → List Sha256 → List Sha256 → Result Unit}
    {op : Op} (h : next validator db op = some db') :
    Step validator db op db' := by
  unfold next at h
  split_ifs at h with hcont
  exact ⟨hcont, Result.eq_ok_of_toOption h⟩

/-- The last state of a chain of blocks. -/
def planTip (plans : List BlockPlan) : BlockHeaderState :=
  match produceChain demoEnv (demoGenesis 0) plans with
  | .ok (_, s) => s
  | .error _ => demoGenesis 0

lemma idNumbered_planTip (plans : List BlockPlan) : (planTip plans).IdNumbered := by
  have hgenesis := IdNumbered.genesis demoEnv demoKey 0 Sha256.zero
  unfold planTip
  split
  · next s h =>
    refine (run_of_produceChain h).invariant hgenesis fun s e s' hs h => ?_
    obtain ⟨_, hnext⟩ := next_eq_ok h
    rw [IdNumbered, hnext.id_eq, numFromId_calculateId, h.blockNum_eq_u32, ← hs,
      ← hnext.previous_eq]
    rfl
  · exact hgenesis

/-- The last state of a chain of blocks in the given slots. -/
def demoTip (slots : List UInt32) : BlockHeaderState := planTip (slots.map (⟨·, 0, none⟩))

lemma idNumbered_demoTip (slots : List UInt32) : (demoTip slots).IdNumbered :=
  idNumbered_planTip _

def demoState (slots : List UInt32) (validated : Bool) : BlockState :=
  ⟨demoTip slots, validated, idNumbered_demoTip slots⟩

def demoReset : Op := .reset (demoTip []) (idNumbered_demoTip [])

/-- Block 2, two blocks 3 on it, one validated and the other not, and then block 2 as the root. -/
def demoOps : List Op :=
  [demoReset, .add (demoState [1] false) false false, .markValid (demoState [1] false),
    .add (demoState [1, 2] true) false true, .add (demoState [1, 4] false) false false,
    .advanceRoot (demoTip [1]).id]

lemma exists_demoRun (ops : List Op) {P : ForkDatabase → Prop} [DecidablePred P]
    (h : (carryOut (next fun _ _ _ => pure ()) empty ops).any (fun r => P r.2) = true) :
    ∃ tr db, Run (Step fun _ _ _ => pure ()) empty tr db ∧ P db :=
  exists_run_of_carryOut _ _ _ (fun _ _ _ => step_of_next) h

theorem forkDatabase_invariant_demoOps :
    ∃ tr db root head pending, Run (Step fun _ _ _ => pure ()) empty tr db ∧
      db.root = some root ∧ db.head = some head ∧ db.pendingHead = some pending ∧
      root.blockNum = 2 ∧ db.index.rows.length = 2 ∧ (∀ b ∈ db.index, Reaches db.index root.id b ∧
        ¬firstPreferred b.toBlockHeaderState pending.toBlockHeaderState) := by
  obtain ⟨tr, db, hr, ⟨root, hroot, hnum⟩, hlength⟩ := exists_demoRun demoOps
    (P := fun db => (∃ root ∈ db.root, root.blockNum = 2) ∧ db.index.rows.length = 2) (by decide)
  obtain ⟨head, pending, hhead, hpend, hreach, -, -, -, hbest, -⟩ := forkDatabase_invariant hr hroot
  exact ⟨tr, db, root, head, pending, hr, hroot, hhead, hpend, hnum, hlength,
    fun b hb => ⟨hreach b hb, hbest b hb⟩⟩

/-! ### No undefined behaviour -/

lemma exists_candidate {index : ForkIndex} (hb : b ∈ index) :
    ∃ c, index.candidate = some c := by
  unfold candidate
  cases hl : index.byLibBlockNum with
  | nil =>
    have := mem_byLibBlockNum.mpr hb
    rw [hl] at this
    cases this
  | cons c l => exact ⟨c, rfl⟩

lemma defined_advanceRoot
    (hhead : db.head = some head) (hi : Linked db.index root head) (id : BlockId) :
    (db.advanceRoot id).Defined := by
  unfold advanceRoot
  split
  · exact Result.defined_error nofun
  · split
    · exact Result.defined_error nofun
    · next newRoot hnew =>
      apply Result.Defined.bind (defined_sysAssert (by decide))
      intro _ _
      -- the number of the new root is more than enough rounds for the walk to the old one
      have hnum := hi.numbered newRoot (Table.mem_of_find? hnew)
      rw [newRoot.numFromId_id] at hnum
      apply (defined_blocksToRemove hi.numbered (by omega)).bind
      intro ids _
      have hnum' : Numbered (db.index.erase id) := fun b hb =>
        hi.numbered b (Table.mem_erase.mp hb).1
      apply Result.Defined.bind
      · exact @defined_foldlM_remove head { db with index := db.index.erase id } hnum' hhead ids
      · intro db' _
        exact Result.defined_ok _

end Sysio.ForkDatabase
