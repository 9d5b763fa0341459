import Sysio.ForkDatabase.Head

/-!
# Branches, and advancing the root along them

`fetch_branch` follows the parents of a block down to the root and keeps the blocks up to a given
number; what it returns is a `Path` that starts at the root (`branchFrom_spec`).  The root can be
advanced to any validated block that the head is built on: `advance_root` collects the blocks below
it, and the head is not among them or their other descendants (`advanceRoot_ok`).
-/

namespace Sysio

open Result List Table

namespace Result

variable {α β : Type}

/-- The computation throws nothing but what stands for undefined behaviour. -/
def Unchecked (x : Result α) : Prop := ∀ e, x = .error e → e.type = .undefinedBehavior

lemma unchecked_ok (a : α) : Unchecked (.ok a : Result α) := nofun

lemma Unchecked.bind {x : Result α} {f : α → Result β} (hx : Unchecked x)
    (hf : ∀ a, x = .ok a → Unchecked (f a)) : Unchecked (x >>= f) := by
  cases x with
  | error e =>
    rintro _ ⟨⟩
    exact hx e rfl
  | ok a => exact hf a rfl

lemma Defined.exists_eq_ok {x : Result α} (hx : Defined x) (hu : Unchecked x) :
    ∃ a, x = .ok a := by
  cases x with
  | error e => exact absurd (hu e rfl) (hx e rfl)
  | ok a => exact ⟨a, rfl⟩

end Result

lemma unchecked_sysAssert {cond : Prop} [Decidable cond] {type : ExceptionType} {what : String}
    (h : cond) : Result.Unchecked (sysAssert cond type what) := by
  unfold sysAssert
  rw [if_pos h]
  exact Result.unchecked_ok _

namespace ForkDatabase

open ForkIndex

/-! ### Blocks above a block -/

/-- `b` is `c`, up to the validity flag, or descends from it. -/
def AtOrAbove (index : ForkIndex) (c b : BlockState) : Prop :=
  b.toBlockHeaderState = c.toBlockHeaderState ∨ Descends index c b

/-- `b'` is the block `b`, perhaps marked as valid in the meantime. -/
def SameBlock (b b' : BlockState) : Prop :=
  b'.toBlockHeaderState = b.toBlockHeaderState ∧ (b.validated = true → b'.validated = true)

lemma SameBlock.id_eq {b b' : BlockState} (h : SameBlock b b') : b'.id = b.id :=
  congrArg (fun s => s.id) h.1

def Held (index : ForkIndex) (b : BlockState) : Prop := ∃ b' ∈ index, SameBlock b b'

variable {index : ForkIndex} {id : BlockId} {fuel : ℕ} {db : ForkDatabase} {ids : List BlockId}
  {root b : BlockState}

lemma held_of_mem (h : b ∈ index) : Held index b := ⟨b, h, rfl, id⟩

/-- The blocks of one index are those of another, perhaps marked as valid in the meantime. -/
def SameBlocks (index index' : ForkIndex) : Prop := ∀ p ∈ index, Held index' p

lemma sameBlocks_setValid (index : ForkIndex) (id : BlockId) :
    SameBlocks index (index.setValid id) := by
  intro p hp
  by_cases hid : p.id = id
  · exact ⟨{ p with validated := true }, mem_setValid.mpr (.inr ⟨p, hp, hid, rfl⟩), rfl,
      fun _ => rfl⟩
  · exact held_of_mem (mem_setValid.mpr (.inl ⟨hp, hid⟩))

variable {index' : ForkIndex} {c h : BlockState}

lemma SameBlocks.held (h : SameBlocks index index') (hb : Held index b) : Held index' b := by
  obtain ⟨b1, hb1, heq1, hv1⟩ := hb
  obtain ⟨b2, hb2, heq2, hv2⟩ := h b1 hb1
  exact ⟨b2, hb2, heq2.trans heq1, fun hv => hv2 (hv1 hv)⟩

/-- Descent does not depend on the validity flag of the block below. -/
lemma AtOrAbove.congr {c' : BlockState} (h : AtOrAbove index c b)
    (hc : c'.toBlockHeaderState = c.toBlockHeaderState) : AtOrAbove index c' b := by
  rcases h with heq | hdesc
  · exact .inl (heq.trans hc.symm)
  · right
    induction hdesc with
    | child hprev hnum =>
      rw [← hc] at hprev hnum
      exact Descends.child hprev hnum
    | step hp hprev hcont _ ih => exact Descends.step hp hprev hcont ih

/-- The ids of the blocks at or above `c`. -/
def UpperIds (index : ForkIndex) (c : BlockState) (id : BlockId) : Prop :=
  id = c.id ∨ ∃ b ∈ index, b.id = id ∧ Descends index c b

lemma UpperIds.num_le (h : UpperIds index c id) : c.blockNum ≤ numFromId id := by
  rcases h with rfl | ⟨b, -, rfl, hdesc⟩
  · exact c.numFromId_id.ge
  · rw [b.numFromId_id]
    exact hdesc.above.le

lemma UpperIds.previous (hb : b ∈ index)
    (hne : b.id ≠ c.id) (h : UpperIds index c b.id) : UpperIds index c b.header.previous := by
  rcases h with heq | ⟨b', hb', hid, hdesc⟩
  · exact absurd heq hne
  · have : b' = b := Table.eq_of_key_eq hb' hb hid
    subst this
    cases hdesc with
    | child hprev _ => exact .inl hprev
    | step hp hprev _ hdesc => exact .inr ⟨_, hp, hprev.symm, hdesc⟩

/-! ### Removals below the head -/

variable {S : BlockId → Prop} {head : BlockState}

/-- A removal that starts outside of a set with the head in it, closed under parents, stays outside
of it. -/
lemma unchecked_removeQueue {headId : BlockId} (hhead : S headId)
    (hclosed : ∀ b ∈ index, S b.id → S b.header.previous) {queue done : List BlockId}
    (hqueue : ∀ id ∈ queue, ¬S id) : (removeQueue index headId fuel queue done).Unchecked := by
  induction fuel generalizing queue done with
  | zero =>
    cases queue with
    | nil => exact Result.unchecked_ok _
    | cons =>
      rintro _ ⟨⟩
      rfl
  | succ fuel ih =>
    cases queue with
    | nil => exact Result.unchecked_ok _
    | cons id queue =>
      have hid : ¬S id := hqueue id mem_cons_self
      rw [removeQueue]
      apply Result.Unchecked.bind
      · apply unchecked_sysAssert
        rintro rfl
        exact hid hhead
      · intro _ _
        apply ih
        intro x hx
        rcases mem_append.mp hx with hx | hx
        · exact hqueue x (mem_cons_of_mem _ hx)
        · -- a child of `id`
          obtain ⟨b, hb, hprev, rfl⟩ := mem_childIds.mp hx
          intro hS
          exact hid (hprev ▸ hclosed b hb hS)

lemma unchecked_remove (hhead : db.head = some head) (hS : S head.id)
    (hclosed : ∀ b ∈ db.index, S b.id → S b.header.previous) (hid : ¬S id) :
    (db.remove id).Unchecked := by
  unfold remove
  rw [hhead]
  apply Result.Unchecked.bind
  · apply unchecked_removeQueue hS hclosed
    intro x hx
    rwa [mem_singleton.mp hx]
  · intro ids _
    exact Result.unchecked_ok _

lemma unchecked_foldlM_remove (hhead : db.head = some head) (hS : S head.id)
    (hclosed : ∀ b ∈ db.index, S b.id → S b.header.previous)
    (hids : ∀ id ∈ ids, ¬S id) : Result.Unchecked (ids.foldlM remove db) := by
  induction ids generalizing db with
  | nil => exact Result.unchecked_ok _
  | cons id ids ih =>
    rw [foldlM_cons]
    apply (unchecked_remove hhead hS hclosed (hids id mem_cons_self)).bind
    intro db1 hrem
    obtain ⟨ids1, -, h1⟩ := remove_eq_ok hrem
    apply ih (h1.head_eq.trans hhead)
    · intro b hb
      exact hclosed b ((h1.mem_iff b).mp hb).1
    · intro x hx
      exact hids x (mem_cons_of_mem _ hx)

/-! ### Advancing the root -/

/-- The walk from a block of the tree ends at the root. -/
lemma unchecked_blocksToRemove
    (hroot : index.find? root.id = none) (hdesc : Descends index root b) :
    (blocksToRemove index root.id fuel b.header.previous).Unchecked := by
  induction fuel generalizing b with
  | zero =>
    rintro _ ⟨⟩
    rfl
  | succ fuel ih =>
    rw [blocksToRemove]
    cases hdesc with
    | child hprev _ =>
      rw [hprev, hroot]
      apply (unchecked_sysAssert rfl).bind
      intro _ _
      exact Result.unchecked_ok _
    | @step p _ hp hprev _ hdesc =>
      have hfind : index.find? b.header.previous = some p :=
        Table.find?_eq_some.mpr ⟨hp, hprev.symm⟩
      rw [hfind]
      apply Result.Unchecked.bind (ih hdesc)
      intro rest _
      exact Result.unchecked_ok _

lemma blocksToRemove_le (hnum : index.Numbered) {rootId : BlockId} {previous : BlockId}
    (h : blocksToRemove index rootId fuel previous = .ok ids) :
    ∀ id ∈ ids, numFromId id ≤ numFromId previous := by
  induction fuel generalizing previous ids with
  | zero => cases h
  | succ fuel ih =>
    rw [blocksToRemove] at h
    split at h
    · next b hb =>
      simp only [bind_eq_ok, pure_eq_ok] at h
      obtain ⟨rest, hrest, rfl⟩ := h
      have hb' := hnum b (mem_of_find? hb)
      rw [key_eq_of_find? hb] at hb'
      intro id hid
      rcases mem_cons.mp hid with rfl | hid
      · exact le_refl _
      · have := ih hrest id hid
        omega
    · simp only [bind_eq_ok, pure_eq_ok] at h
      obtain ⟨-, -, rfl⟩ := h
      intro id hid
      rw [mem_singleton.mp hid]

/-- What the walk collects is below the block, so it is not at or above it. -/
lemma not_upperIds_of_blocksToRemove (hnum : index.Numbered) (hdesc : Descends index root c)
    (h : blocksToRemove index root.id fuel c.header.previous = .ok ids) :
    ∀ x ∈ ids, ¬UpperIds index c x := by
  intro x hx hS
  have hle := blocksToRemove_le hnum h x hx
  have hstep := hdesc.numFromId_eq
  have hnum := hS.num_le
  rw [c.numFromId_id] at hstep
  omega

lemma UpperIds.previous_of_mem_erase (hb : b ∈ index.erase c.id) (h : UpperIds index c b.id) :
    UpperIds index c b.header.previous := by
  obtain ⟨hb, hne⟩ := mem_erase.mp hb
  exact h.previous hb hne

/-- The head is not below the new root, nor on another branch. -/
lemma unchecked_advanceRoot (hroot : db.root = some root) (hhead : db.head = some head)
    (hi : Linked db.index root head) (hc : db.index.find? id = some c) (hval : c.validated = true)
    (hup : UpperIds db.index c head.id) : (db.advanceRoot id).Unchecked := by
  obtain ⟨hmem, rfl⟩ := Table.find?_eq_some.mp hc
  have hdesc := hi.descends c hmem
  unfold advanceRoot
  rw [hroot]
  simp only [hc]
  apply (unchecked_sysAssert hval).bind
  intro _ _
  apply (unchecked_blocksToRemove hi.root_not_mem hdesc).bind
  intro ids hids
  apply Result.Unchecked.bind
  · exact @unchecked_foldlM_remove ⟨db.index.erase c.id, some root, db.head⟩ ids _ head hhead hup
      (fun b => UpperIds.previous_of_mem_erase)
      (not_upperIds_of_blocksToRemove hi.numbered hdesc hids)
  · intro db' _
    exact Result.unchecked_ok _

/-- **The root can be advanced to every validated block that the head is built on.** -/
theorem advanceRoot_ok (hroot : db.root = some root) (hhead : db.head = some head)
    (hi : Linked db.index root head) (hc : db.index.find? id = some c)
    (hval : c.validated = true) (hup : AtOrAbove db.index c head) :
    ∃ ids db', db.advanceRoot id = .ok db' ∧ db'.root = some c ∧ db'.head = some head ∧
      root.id ∈ ids ∧ Closed (db.index.erase id) ids ∧
      (∀ b, b ∈ db'.index ↔ b ∈ db.index.erase id ∧ b.id ∉ ids) := by
  have hup' : UpperIds db.index c head.id := by
    rcases hup with heq | hdesc
    · exact .inl (congrArg (fun s => s.id) heq)
    · rcases hi.head_known with rfl | hmem
      · have h1 := hdesc.above
        have h2 := (hi.descends c (mem_of_find? hc)).above
        omega
      · exact .inr ⟨head, hmem, rfl, hdesc⟩
  obtain ⟨db', hok⟩ := (defined_advanceRoot hhead hi id).exists_eq_ok
    (unchecked_advanceRoot hroot hhead hi hc hval hup')
  obtain ⟨root', newRoot, ids, db1, hroot', hnew, hids, hrem, rfl⟩ := advanceRoot_eq_ok hok
  rw [hroot, Option.some.injEq] at hroot'
  rw [hc, Option.some.injEq] at hnew
  subst hroot' hnew
  exact ⟨ids, _, hok, rfl, hrem.head_eq.trans hhead, hids, hrem.closed, hrem.mem_iff⟩

/-! ### Branches -/

/-- The walk of `fetch_branch_impl` from the block with the given id: its ancestors of numbers up to
`trimAfterBlockNum`, newest first. -/
def branchFrom (index : ForkIndex) (trimAfterBlockNum : ℕ) : ℕ → BlockId → List BlockState
  | 0, _ => []
  | fuel + 1, id =>
    match index.find? id with
    | none => []
    | some b =>
      if b.blockNum ≤ trimAfterBlockNum then
        b :: branchFrom index trimAfterBlockNum fuel b.header.previous
      else branchFrom index trimAfterBlockNum fuel b.header.previous

/-- `fetch_branch`.  The numbers of the blocks go down, so there are enough rounds. -/
def fetchBranch (db : ForkDatabase) (h : BlockId) (trimAfterBlockNum : ℕ) : List BlockState :=
  branchFrom db.index trimAfterBlockNum (numFromId h + 1) h

/-- The blocks of the list lead from `a` to `c`, oldest first. -/
inductive Path (index : ForkIndex) : BlockState → List BlockState → BlockState → Prop
  | nil (a : BlockState) : Path index a [] a
  | cons {a b c : BlockState} {l : List BlockState} : Held index b → b.header.previous = a.id →
      b.blockNum = a.blockNum + 1 → Path index b l c → Path index a (b :: l) c

namespace Path

variable {a : BlockState} {l : List BlockState}

lemma snoc (h : Path index a l b) (hc : Held index c) (hprev : c.header.previous = b.id)
    (hnum : c.blockNum = b.blockNum + 1) : Path index a (l ++ [c]) c := by
  induction h with
  | nil a => exact cons hc hprev hnum (nil c)
  | cons hb hbprev hbnum _ ih => exact cons hb hbprev hbnum (ih hprev hnum)

lemma congr (h : Path index a l c) (hsame : SameBlocks index index') : Path index' a l c := by
  induction h with
  | nil a => exact nil a
  | cons hb hprev hcont _ ih => exact cons (hsame.held hb) hprev hcont ih

end Path

/-- What is built on a block above `a` is above `a`. -/
lemma Descends.trans {a : BlockState} (hb : Held index b)
    (hab : Descends index a b) (hbh : AtOrAbove index b h) : Descends index a h := by
  obtain ⟨b', hb', heq, -⟩ := hb
  have hself : ∀ p ∈ index, ∃ p' ∈ index, p'.toBlockHeaderState = p.toBlockHeaderState :=
    fun p hp => ⟨p, hp, rfl⟩
  have hab' : Descends index a b' := hab.congr hself heq
  rcases hbh with heq' | hdesc
  · exact hab.congr hself heq'
  · induction hdesc with
    | child hprev hnum =>
      rw [← heq] at hprev hnum
      exact Descends.step hb' hprev hnum hab'
    | step hp hprev hcont _ ih => exact Descends.step hp hprev hcont ih

lemma Path.atOrAbove {a : BlockState} {l : List BlockState}
    (hl : Path index a l c) (hc : AtOrAbove index c h) : AtOrAbove index a h := by
  induction hl with
  | nil a => exact hc
  | cons hb hprev hcont _ ih =>
    exact .inr (Descends.trans hb (Descends.child hprev hcont) (ih hc))

/-- **A branch is a path from the root**, to the block itself if that is not trimmed. -/
theorem branchFrom_spec {trimAfterBlockNum : ℕ} (hroot : index.find? root.id = none)
    (hb : b ∈ index) (hdesc : Descends index root b) (hfuel : b.blockNum < root.blockNum + fuel) :
    ∃ l last, branchFrom index trimAfterBlockNum fuel b.id = l.reverse ∧ Path index root l last ∧
      AtOrAbove index last b ∧ (b.blockNum ≤ trimAfterBlockNum → last = b) := by
  induction hdesc generalizing fuel with
  | @child b hprev hcont =>
    obtain ⟨fuel, rfl⟩ : ∃ k, fuel = k + 1 := Nat.exists_eq_succ_of_ne_zero (by omega)
    have hend : branchFrom index trimAfterBlockNum fuel b.header.previous = [] := by
      cases fuel with
      | zero => rfl
      | succ fuel => rw [branchFrom, hprev, hroot]
    rw [branchFrom, Table.find?_eq_some.mpr ⟨hb, rfl⟩]
    simp only [hend]
    split_ifs with htrim
    · exact ⟨[b], b, rfl, Path.cons (held_of_mem hb) hprev hcont (Path.nil b), .inl rfl,
        fun _ => rfl⟩
    · exact ⟨[], root, rfl, Path.nil root, .inr (Descends.child hprev hcont),
        fun h => absurd h htrim⟩
  | @step p b hp hprev hcont hdesc ih =>
    have habove := hdesc.above
    obtain ⟨fuel, rfl⟩ : ∃ k, fuel = k + 1 := Nat.exists_eq_succ_of_ne_zero (by omega)
    have hfuel : p.blockNum < root.blockNum + fuel := by omega
    obtain ⟨l, last, hl, hpath, hlast, heq⟩ := ih hp hfuel
    rw [branchFrom, Table.find?_eq_some.mpr ⟨hb, rfl⟩]
    simp only [hprev, hl]
    split_ifs with htrim
    · -- the whole branch of the parent is kept, and ends with it
      have hlastp : last = p := heq (by omega)
      subst hlastp
      refine ⟨l ++ [b], b, by simp, hpath.snoc (held_of_mem hb) hprev hcont, .inl rfl, fun _ => rfl⟩
    · refine ⟨l, last, rfl, hpath, .inr ?_, fun h => absurd h htrim⟩
      rcases hlast with hsame | hdesc'
      · rw [hsame] at hprev hcont
        exact Descends.child hprev hcont
      · exact Descends.step hp hprev hcont hdesc'

/-! ### Validated ancestors -/

/-- A validated block is built on the root or on a validated block. -/
def ValidUp (index : ForkIndex) (root : BlockState) : Prop :=
  ∀ b ∈ index, b.validated = true →
    b.header.previous = root.id ∨ ∃ p ∈ index, p.id = b.header.previous ∧ p.validated = true

section

variable (hv : ValidUp index root)
include hv

/-- What a validated block is built on is validated. -/
lemma ValidUp.of_descends (hroot : index.find? root.id = none) (hc : c ∈ index) (hh : h ∈ index)
    (hval : h.validated = true) (hdesc : Descends index c h) : c.validated = true := by
  have hne : ∀ p ∈ index, p.id ≠ root.id := Table.find?_eq_none.mp hroot
  have hup {q b : BlockState} (hq : q ∈ index) (hb : b ∈ index) (hval : b.validated = true)
      (hprev : b.header.previous = q.id) : q.validated = true := by
    rcases hv b hb hval with hr | ⟨p, hp, hid, hpv⟩
    · exact absurd (hprev.symm.trans hr) (hne q hq)
    · rwa [← Table.eq_of_key_eq hp hq (hid.trans hprev)]
  induction hdesc with
  | child hprev _ => exact hup hc hh hval hprev
  | step hq hprev _ _ ih => exact ih hq (hup hq hh hval hprev)

lemma ValidUp.of_closed (hclosed : index.Closed ids)
    (hmem : ∀ p, p ∈ index' ↔ p ∈ index ∧ p.id ∉ ids) : ValidUp index' root := by
  intro b hb hval
  rcases hv b ((hmem b).mp hb).1 hval with hr | ⟨p, hp, hid, hpv⟩
  · exact .inl hr
  · exact .inr ⟨p, hclosed.mem_of_child hmem hp hid.symm hb, hid, hpv⟩

/-- Nor does advancing the root, below which the rest is removed. -/
lemma ValidUp.of_advance {newRoot : BlockState} (hroot : root.id ∈ ids)
    (hclosed : Closed (index.erase newRoot.id) ids)
    (hmem : ∀ p, p ∈ index' ↔ p ∈ index.erase newRoot.id ∧ p.id ∉ ids) :
    ValidUp index' newRoot := by
  intro b hb hval
  obtain ⟨hbe, hbn⟩ := (hmem b).mp hb
  rcases hv b (mem_erase.mp hbe).1 hval with hr | ⟨p, hp, hid, hpv⟩
  · exact absurd (hclosed b hbe (hr ▸ hroot)) hbn
  · by_cases hpn : p.id = newRoot.id
    · exact .inl (hid.symm.trans hpn)
    · have hp' := hclosed.mem_of_child hmem (mem_erase.mpr ⟨hp, hpn⟩) hid.symm hb
      exact .inr ⟨p, hp', hid, hpv⟩

lemma ValidUp.insert {n : BlockState} (hnew : index.find? n.id = none)
    (hval : n.validated = false) : ValidUp (index.insert n) root := by
  unfold ValidUp
  rw [forall_mem_insert hnew]
  constructor
  · intro b hb hbv
    rcases hv b hb hbv with hr | ⟨p, hp, hid, hpv⟩
    · exact .inl hr
    · exact .inr ⟨p, (Table.mem_insert hnew).mpr (.inl hp), hid, hpv⟩
  · intro hnv
    rw [hval] at hnv
    cases hnv

lemma ValidUp.setValid (hb : b ∈ index) (hparent : b.header.previous = root.id ∨
      ∃ p ∈ index, p.id = b.header.previous ∧ p.validated = true) :
    ValidUp (index.setValid b.id) root := by
  have hkeep : ∀ x : BlockState, (x.header.previous = root.id ∨
        ∃ p ∈ index, p.id = x.header.previous ∧ p.validated = true) →
      x.header.previous = root.id ∨
        ∃ p ∈ index.setValid b.id, p.id = x.header.previous ∧ p.validated = true := by
    rintro x (hr | ⟨p, hp, hid, hpv⟩)
    · exact .inl hr
    · exact .inr ⟨p, mem_setValid_of_validated hp hpv, hid, hpv⟩
  intro x hx hxv
  rcases mem_setValid.mp hx with ⟨hx, -⟩ | ⟨y, hy, hid, rfl⟩
  · exact hkeep x (hv x hx hxv)
  · have : y = b := Table.eq_of_key_eq hy hb hid
    subst this
    exact hkeep { y with validated := true } hparent

end

end ForkDatabase

end Sysio
