import Sysio.ForkDatabase.Head

/-!
# Stability of the head

The head should only ever move to a block that is strictly better.  `mark_valid` compares the first
block of the index with the head and keeps to that (`markValid_improves`).  `add` makes the first
validated block of the index the head without a comparison, and the index breaks ties by id.  So the
head moves between equally good blocks whenever a validated block with a smaller id than the head's
is just as good; `head_stable_iff` says that this is the only case.
-/

namespace Sysio.ForkDatabase

open ForkIndex

variable {db db' : ForkDatabase} {a b h : BlockState}

/-- Neither block is preferred to the other. -/
def Ties (a b : BlockState) : Prop :=
  a.dposIrreversibleBlocknum = b.dposIrreversibleBlocknum ∧ a.blockNum = b.blockNum

instance : DecidableRel Ties := fun _ _ => inferInstanceAs (Decidable (_ ∧ _))

lemma ties_of_not_firstPreferred (hab : ¬firstPreferred a.toBlockHeaderState b.toBlockHeaderState)
    (hba : ¬firstPreferred b.toBlockHeaderState a.toBlockHeaderState) : Ties a b := by
  unfold firstPreferred at hab hba
  unfold Ties
  omega

/-- Among blocks that are as good, the index goes by the id. -/
lemma id_le_of_libLe (h : a.LibLe b) (hval : a.validated = b.validated)
    (hties : Ties a b) : a.id ≤ b.id := by
  unfold BlockState.LibLe BlockState.libKey at h
  rw [Prod.Lex.toLex_le_toLex, Prod.Lex.toLex_le_toLex, Prod.Lex.toLex_le_toLex] at h
  simp only [hval, hties.1, hties.2, lt_self_iff_false, false_or, true_and] at h
  exact h

/-- The head is the same, or a block that is strictly better. -/
def Improves (db db' : ForkDatabase) : Prop :=
  db'.head = db.head ∨ ∃ head c, db.head = some head ∧ db'.head = some c ∧
    firstPreferred c.toBlockHeaderState head.toBlockHeaderState

/-- What a call of `add` should do to the head: nothing, if the block is not validated, and
otherwise it may make it better. -/
def Stable (db : ForkDatabase) (n : BlockState) (db' : ForkDatabase) : Prop :=
  (n.validated = false → db'.head = db.head) ∧ Improves db db'

/-- When `add` keeps to that: the block is there already, or validated and better than the head, or
no validated block is as good as the head and comes before it in the index. -/
def NoEarlierTie (db : ForkDatabase) (n head : BlockState) : Prop :=
  (db.index.find? n.id).isSome ∨
    (n.validated = true ∧ firstPreferred n.toBlockHeaderState head.toBlockHeaderState) ∨
    ∀ b, b ∈ db.index ∨ b = n → b.validated = true → Ties b head → head.id ≤ b.id

lemma markValid_improves (hm : db.markValid h = .ok db') : Improves db db' := by
  obtain rfl | ⟨-, c, head, -, hhead, -, rfl⟩ := markValid_eq_ok hm
  · exact .inl rfl
  · by_cases hpref : firstPreferred c.toBlockHeaderState head.toBlockHeaderState
    · exact .inr ⟨head, c, hhead, by simp [hpref], hpref⟩
    · exact .inl (by simp [hpref, hhead])

section Insertion

variable {root head n c : BlockState}

/-- A validated candidate that was in the index is the head, unless it comes before it in a tie. -/
lemma candidate_eq_head (hi : TreeInv db.index root head) (hc : c ∈ db.index)
    (hval : c.validated = true) (hall : ∀ b ∈ db.index, c.LibLe b)
    (hno : Ties c head → head.id ≤ c.id) : c = head := by
  have hbest := hi.best c hc hval
  rcases hi.head_mem with rfl | ⟨hmem, hhval⟩
  · -- every block of the index is better than the root
    exact absurd (hi.firstPreferred_root hc) hbest
  · have hsame : c.validated = head.validated := hval.trans hhval.symm
    have hties := ties_of_not_firstPreferred hbest ((hall head hmem).spec.2 hsame)
    have hid := le_antisymm (id_le_of_libLe (hall head hmem) hsame hties) (hno hties)
    exact Table.eq_of_key_eq hc hmem hid

/-- A new block that becomes the candidate is better than the head, unless it comes before it in a
tie. -/
lemma firstPreferred_of_candidate (hi : TreeInv db.index root head)
    (hnew : db.index.find? n.id = none)
    (hroot : firstPreferred n.toBlockHeaderState root.toBlockHeaderState)
    (hval : n.validated = true) (hall : ∀ b ∈ db.index, n.LibLe b)
    (hno : Ties n head → head.id ≤ n.id) :
    firstPreferred n.toBlockHeaderState head.toBlockHeaderState := by
  by_contra hpref
  rcases hi.head_mem with rfl | ⟨hmem, hhval⟩
  · exact hpref hroot
  · have hsame : n.validated = head.validated := hval.trans hhval.symm
    have hties := ties_of_not_firstPreferred hpref ((hall head hmem).spec.2 hsame)
    have hid := le_antisymm (id_le_of_libLe (hall head hmem) hsame hties) (hno hties)
    exact Table.find?_eq_none.mp hnew head hmem hid.symm

end Insertion

lemma stable_insert_iff {root head n c : BlockState}
    (hhead : db.head = some head) (hi : TreeInv db.index root head)
    (hnew : db.index.find? n.id = none)
    (hroot : firstPreferred n.toBlockHeaderState root.toBlockHeaderState)
    (hc : candidate (db.index.insert n) = some c) : Stable db n { db with
      index := db.index.insert n
      head := if c.validated then some c else db.head } ↔ NoEarlierTie db n head := by
  obtain ⟨hmem, hall⟩ := candidate_spec hc
  have hall : ∀ b, b ∈ db.index ∨ b = n → c.LibLe b := fun b hb =>
    hall b ((Table.mem_insert hnew).mpr hb)
  rw [Table.mem_insert hnew] at hmem
  constructor
  · rintro ⟨-, himp⟩
    refine .inr ?_
    by_cases hbetter : n.validated = true ∧
      firstPreferred n.toBlockHeaderState head.toBlockHeaderState
    · exact .inl hbetter
    · refine .inr fun b hb hbval hties => ?_
      have hcval : c.validated = true := (hall b hb).spec.1 hbval
      simp only [Improves, hcval, if_true, hhead, Option.some.injEq] at himp
      rcases himp with rfl | ⟨_, _, rfl, rfl, hpref⟩
      · -- the head is the first block of the index
        exact id_le_of_libLe (hall b hb) (hcval.trans hbval.symm) ⟨hties.1.symm, hties.2.symm⟩
      · rcases hmem with hmem | rfl
        · exact absurd hpref (hi.best c hmem hcval)
        · exact absurd ⟨hcval, hpref⟩ hbetter
  · rintro (hdup | ⟨hval, hpref⟩ | hno)
    · rw [hnew] at hdup
      cases hdup
    · have hcval : c.validated = true := (hall n (.inr rfl)).spec.1 hval
      have hcn := (hall n (.inr rfl)).spec.2 (hcval.trans hval.symm)
      refine ⟨fun h => absurd hval (Bool.eq_false_iff.mp h),
        .inr ⟨head, c, hhead, by simp [hcval], ?_⟩⟩
      by_contra hcpref
      exact not_firstPreferred_trans hcn hcpref hpref
    · by_cases hcval : c.validated = true
      · rcases hmem with hmem | rfl
        · have heq := candidate_eq_head hi hmem hcval (fun b hb => hall b (.inl hb))
            (hno c (.inl hmem) hcval)
          have hsame : (if c.validated then some c else db.head) = db.head := by
            rw [if_pos hcval, hhead, heq]
          exact ⟨fun _ => hsame, .inl hsame⟩
        · refine ⟨fun h => absurd hcval (Bool.eq_false_iff.mp h),
            .inr ⟨head, c, hhead, by simp [hcval], ?_⟩⟩
          exact firstPreferred_of_candidate hi hnew hroot hcval (fun b hb => hall b (.inl hb))
            (hno c (.inr rfl) hcval)
      · have hsame : (if c.validated then some c else db.head) = db.head := if_neg hcval
        exact ⟨fun _ => hsame, .inl hsame⟩

/-- **The head moves to better blocks only.**  `mark_valid` always keeps to this.  `add` does
exactly when no validated block is as good as the head and comes before it in the index, or the new
block is validated and better than the head. -/
theorem head_stable_iff {validator : UInt32 → List Sha256 → List Sha256 → Result Unit}
    {tr : List (Transition ForkDatabase Op)} {db : ForkDatabase} {head : BlockState}
    (hr : Run (Step validator) empty tr db) (hhead : db.head = some head) :
    (∀ h db', db.markValid h = .ok db' → Improves db db') ∧
      ∀ n ignoreDuplicate validate db', (Op.add n ignoreDuplicate validate).Continues db →
        db.add validator n ignoreDuplicate validate = .ok db' →
        (Stable db n db' ↔ NoEarlierTie db n head) := by
  refine ⟨fun h db' => markValid_improves, fun n ignoreDuplicate validate db' hcont h => ?_⟩
  obtain ⟨root, hroot, hi⟩ := (inv_of_run hr).of_head hhead
  obtain ⟨root', prev, hroot', hprev, ⟨hdup, rfl⟩ | ⟨hnew, c, hc, rfl⟩⟩ := add_eq_ok h
  · exact iff_of_true ⟨fun _ => rfl, .inl rfl⟩ (.inl hdup)
  · obtain rfl := Option.some.inj (hroot.symm.trans hroot')
    have hpref := firstPreferred_of_continues (hcont prev (by simp [hroot, hprev]))
    refine stable_insert_iff hhead hi hnew ?_ hc
    rcases (known_of_getBlockHeader hprev).1 with rfl | hmem
    · exact hpref
    · exact firstPreferred_trans hpref (hi.firstPreferred_root hmem)

/-! ### A tie -/

/-- Two blocks 2; the one with the larger id is validated first and becomes the head. -/
def demoTie : List Op :=
  [demoReset, .add (demoState [2] false) false false,
    .markValid (demoState [2] false), .add (demoState [1] false) false false,
    .markValid (demoState [1] false)]

/-- A third block 2, not validated. -/
def demoThird : BlockState := demoState [3] false

theorem head_stable_iff_demoOps : ∃ tr db head db',
    Run (Step fun _ _ _ => pure ()) empty tr db ∧ db.head = some head ∧
      db.add (fun _ _ _ => pure ()) demoThird false false = .ok db' ∧ head.blockNum = 2 ∧
      (Stable db demoThird db' ↔ NoEarlierTie db demoThird head) := by
  obtain ⟨tr, db, hr, hP⟩ := exists_demoRun (demoTie.take 3)
    (P := fun db => (Op.add demoThird false false).Continues db ∧
      (∃ head ∈ db.head, head.blockNum = 2) ∧
      ∃ db', db.add (fun _ _ _ => pure ()) demoThird false false = .ok db' ∧ True)
    (by decide +kernel)
  obtain ⟨hcont, ⟨head, hhead, hnum⟩, db', hadd, -⟩ := hP
  exact ⟨tr, db, head, db', hr, hhead, hadd, hnum,
    (head_stable_iff hr hhead).2 _ _ _ _ hcont hadd⟩

/-- Adding the third block moves the head from one block 2 to the other. -/
theorem exists_head_moved : ∃ tr db head db' head',
    Run (Step fun _ _ _ => pure ()) empty tr db ∧ db.head = some head ∧
      (Op.add demoThird false false).Continues db ∧
      db.add (fun _ _ _ => pure ()) demoThird false false = .ok db' ∧
      demoThird.validated = false ∧ db'.head = some head' ∧ head'.id ≠ head.id ∧
      Ties head' head := by
  obtain ⟨tr, db, hr, hP⟩ := exists_demoRun demoTie
    (P := fun db => (Op.add demoThird false false).Continues db ∧
      ∃ head ∈ db.head, ∃ db' ∈ (db.add (fun _ _ _ => pure ()) demoThird false false).toOption,
        ∃ head' ∈ db'.head, head'.id ≠ head.id ∧ Ties head' head)
    (by decide +kernel)
  obtain ⟨hcont, head, hhead, db', hadd, head', hhead', hne, hties⟩ := hP
  exact ⟨tr, db, head, db', head', hr, hhead, hcont, Result.eq_ok_of_toOption hadd, rfl, hhead',
    hne, hties⟩

end Sysio.ForkDatabase
