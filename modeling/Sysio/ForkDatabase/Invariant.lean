import Sysio.ForkDatabase.Removal
import Sysio.Data.Run
import Mathlib.Order.OrderDual

/-!
# The invariant of the fork database

`Linked` says that every block follows its parent, which is the root or another block of the
database, so that every block descends from the root.  `TreeInv` adds what the choice of the head
rests on: irreversible numbers do not fall from a block to the next, and the head is the root or the
best validated block.  Each operation keeps it (`add_inv`, `markValid_inv`, `remove_inv`,
`advanceRoot_inv` and the two simple ones), so it holds after every sequence of operations that do
not throw.
-/

namespace Sysio

open Result List Table Option

variable {db : ForkDatabase} {head root : BlockState} {b' newRoot prev : BlockState}
  {validate : Bool}

/-! ### The index by preference -/

namespace BlockState

instance : IsTrans BlockState LibLe := ⟨fun _ _ _ h₁ h₂ => le_trans h₁ h₂⟩

instance : Std.Total LibLe := ⟨fun a b => le_total a.libKey b.libKey⟩

lemma LibLe.spec {a b : BlockState} (h : LibLe a b) : (b.validated = true → a.validated = true) ∧
      (a.validated = b.validated → ¬firstPreferred b.toBlockHeaderState a.toBlockHeaderState) := by
  unfold LibLe libKey at h
  simp only [Prod.Lex.toLex_le_toLex, OrderDual.toDual_lt_toDual, OrderDual.toDual_inj] at h
  unfold firstPreferred
  constructor
  · intro hb
    rcases h with h | ⟨h, -⟩
    · rw [hb] at h
      exact absurd h (by simp)
    · rw [h, hb]
  · intro hv
    rcases h with h | ⟨-, h⟩
    · simp [hv] at h
    · rcases h with h | ⟨h, h' | ⟨h', -⟩⟩ <;> omega

end BlockState

lemma rel_of_find?_of_pairwise {α : Type*} {r : α → α → Prop} (hrefl : ∀ a, r a a) {l : List α}
    (hl : l.Pairwise r) {p : α → Bool} {a : α} (h : l.find? p = some a) :
    ∀ b ∈ l, p b = true → r a b := by
  obtain ⟨-, l1, l2, rfl, hno⟩ := find?_eq_some_iff_append.mp h
  intro b hb hpb
  rw [pairwise_append, pairwise_cons] at hl
  rcases mem_append.mp hb with hb | hb
  · have := hno b hb
    simp [hpb] at this
  · rcases mem_cons.mp hb with rfl | hb
    · exact hrefl b
    · exact hl.2.1.1 b hb

namespace ForkIndex

variable {index : ForkIndex} {b : BlockState}

lemma mem_byLibBlockNum : b ∈ index.byLibBlockNum ↔ b ∈ index :=
  (perm_insertionSort _ _).mem_iff

/-- The first block of the index that satisfies `p` is ahead of all others that do. -/
lemma find?_byLibBlockNum {p : BlockState → Bool} {a : BlockState}
    (h : index.byLibBlockNum.find? p = some a) :
    a ∈ index ∧ p a = true ∧ ∀ b ∈ index, p b = true → a.LibLe b := by
  refine ⟨mem_byLibBlockNum.mp (mem_of_find?_eq_some h), find?_some h, ?_⟩
  intro b hb
  exact rel_of_find?_of_pairwise (fun a => le_refl a.libKey)
    (pairwise_insertionSort BlockState.LibLe _) h b (mem_byLibBlockNum.mpr hb)

lemma candidate_spec {a : BlockState} (h : index.candidate = some a) :
    a ∈ index ∧ ∀ b ∈ index, a.LibLe b := by
  have hfind : index.byLibBlockNum.find? (fun _ => true) = some a := by
    rw [← h, candidate]
    cases index.byLibBlockNum <;> rfl
  obtain ⟨hmem, -, hall⟩ := find?_byLibBlockNum hfind
  exact ⟨hmem, fun b hb => hall b hb rfl⟩

lemma mem_setValid {id : BlockId} : b ∈ index.setValid id ↔ (b ∈ index ∧ b.id ≠ id) ∨
      ∃ p ∈ index, p.id = id ∧ { p with validated := true } = b :=
  mem_modify

lemma mem_clearValid : b ∈ index.clearValid ↔ ∃ p ∈ index, { p with validated := false } = b :=
  mem_mapRows

end ForkIndex

namespace ForkDatabase

open ForkIndex

/-! ### Descent from the root -/

/-- Following `header.previous` from a block through the index leads to the root. -/
inductive Reaches (index : ForkIndex) (rootId : BlockId) : BlockState → Prop
  | root {b : BlockState} : b.header.previous = rootId → Reaches index rootId b
  | step {p b : BlockState} : p ∈ index → b.header.previous = p.id → Reaches index rootId p →
      Reaches index rootId b

/-- `Reaches`, with numbers that go up by one. -/
inductive Descends (index : ForkIndex) (root : BlockState) : BlockState → Prop
  | child {b : BlockState} : b.header.previous = root.id → b.blockNum = root.blockNum + 1 →
      Descends index root b
  | step {p b : BlockState} : p ∈ index → b.header.previous = p.id → b.blockNum = p.blockNum + 1 →
      Descends index root p → Descends index root b

namespace Descends

variable {index index' : ForkIndex} {b : BlockState} (h : Descends index root b)
include h

lemma reaches : Reaches index root.id b := by
  induction h with
  | child hprev _ => exact Reaches.root hprev
  | step hp hprev _ _ ih => exact Reaches.step hp hprev ih

lemma above : root.blockNum < b.blockNum := by
  induction h with
  | child _ hnum | step _ _ hnum _ ih => omega

lemma numFromId_eq : numFromId b.id = numFromId b.header.previous + 1 := by
  cases h with
  | child hprev hnum => rw [hprev, b.numFromId_id, root.numFromId_id, hnum]
  | @step p _ _ hprev hnum _ => rw [hprev, b.numFromId_id, p.numFromId_id, hnum]

lemma mono (hsub : ∀ p ∈ index, p ∈ index') : Descends index' root b := by
  induction h with
  | child hprev hnum => exact child hprev hnum
  | step hp hprev hnum _ ih => exact step (hsub _ hp) hprev hnum ih

/-- Descent does not depend on the validity flags. -/
lemma congr (hsame : ∀ p ∈ index, ∃ p' ∈ index', p'.toBlockHeaderState = p.toBlockHeaderState)
    (hb : b'.toBlockHeaderState = b.toBlockHeaderState) :
    Descends index' root b' := by
  induction h generalizing b' with
  | child hprev hnum =>
    rw [← hb] at hprev hnum
    exact child hprev hnum
  | step hp hprev hnum _ ih =>
    obtain ⟨p', hp', hpp⟩ := hsame _ hp
    rw [← hb, ← hpp] at hprev hnum
    exact step hp' hprev hnum (ih hpp)

end Descends

/-! ### Parents -/

/-- The block is the root or one of the index. -/
def Known (index : ForkIndex) (root b : BlockState) : Prop := b = root ∨ b ∈ index

/-- The number of `b` follows that of `p`. -/
abbrev Follows (p b : BlockState) : Prop := b.blockNum = p.blockNum + 1

/-- The parent of every block is the root or one of the index, and is related to it by `R`. -/
def Parented (R : BlockState → BlockState → Prop) (index : ForkIndex) (root : BlockState) : Prop :=
  ∀ b ∈ index, ∃ p, Known index root p ∧ b.header.previous = p.id ∧ R p b

namespace Parented

variable {R : BlockState → BlockState → Prop} {index index' : ForkIndex} {n p : BlockState}
  {ids : List BlockId}

/-- With the parents, every block descends from the root: their numbers go down to it. -/
lemma descends (h : Parented Follows index root) : ∀ b ∈ index, Descends index root b := by
  intro b
  induction hnum : b.blockNum using Nat.strong_induction_on generalizing b with
  | _ k ih =>
    intro hb
    obtain ⟨p, rfl | hp, hprev, hfollows⟩ := h b hb
    · exact .child hprev hfollows
    · exact .step hp hprev hfollows (ih p.blockNum (by omega) p rfl hp)

lemma insert (h : Parented R index root) (hnew : index.find? n.id = none)
    (hp : Known index root p) (hprev : n.header.previous = p.id) (hR : R p n) :
    Parented R (index.insert n) root := by
  have hold : ∀ q, Known index root q → Known (index.insert n) root q := fun q =>
    Or.imp_right fun hq => (mem_insert hnew).mpr (.inl hq)
  unfold Parented
  rw [forall_mem_insert hnew]
  refine ⟨fun b hb => ?_, p, hold p hp, hprev, hR⟩
  obtain ⟨q, hq, hrest⟩ := h b hb
  exact ⟨q, hold q hq, hrest⟩

/-- A removal that takes the children of a block with it leaves the parents of the rest. -/
lemma of_closed (h : Parented R index root) (hclosed : index.Closed ids)
    (hmem : ∀ p, p ∈ index' ↔ p ∈ index ∧ p.id ∉ ids) : Parented R index' root := by
  intro b hb
  obtain ⟨p, hp, hprev, hR⟩ := h b ((hmem b).mp hb).1
  exact ⟨p, hp.imp_right fun hp => hclosed.mem_of_child hmem hp hprev hb, hprev, hR⟩

/-- When the old root is removed from below a new one, the new root is the parent of what hung on
it. -/
lemma of_advance (h : Parented R index root) (hnew : newRoot ∈ index) (hroot : root.id ∈ ids)
    (hclosed : Closed (index.erase newRoot.id) ids)
    (hmem : ∀ p, p ∈ index' ↔ p ∈ index.erase newRoot.id ∧ p.id ∉ ids) :
    Parented R index' newRoot := by
  intro b hb
  obtain ⟨hbi, hbn⟩ := (hmem b).mp hb
  obtain ⟨p, rfl | hp, hprev, hR⟩ := h b (mem_erase.mp hbi).1
  · exact absurd (hclosed _ hbi (hprev ▸ hroot)) hbn
  · by_cases hpn : p.id = newRoot.id
    · obtain rfl := eq_of_key_eq hp hnew hpn
      exact ⟨p, .inl rfl, hprev, hR⟩
    · have hp' := hclosed.mem_of_child hmem (mem_erase.mpr ⟨hp, hpn⟩) hprev hb
      exact ⟨p, .inr hp', hprev, hR⟩

end Parented

/-! ### The invariant -/

/-- The blocks of the fork database, its root and its head are one tree. -/
structure Linked (index : ForkIndex) (root head : BlockState) : Prop where
  parents : Parented Follows index root
  head_known : Known index root head

/-- What ties the blocks to the root and the head: besides the numbers, the irreversible numbers
continue those of the parents. -/
structure TreeInv (index : ForkIndex) (root head : BlockState) : Prop where
  parents : Parented ContinuesBlock index root
  head_mem : head = root ∨ (head ∈ index ∧ head.validated = true)
  /-- No validated block is better than the head. -/
  best : ∀ b ∈ index, b.validated = true →
    ¬firstPreferred b.toBlockHeaderState head.toBlockHeaderState

/-- Nothing before the first `reset`, then what `P` says of the blocks, the root and the head. -/
def Keeps (P : ForkIndex → BlockState → BlockState → Prop) (db : ForkDatabase) : Prop :=
  (db.root = none ∧ db.head = none ∧ db.index = Table.empty) ∨
    ∃ root head, db.root = some root ∧ db.head = some head ∧ P db.index root head

/-- The invariant of the fork database. -/
abbrev Inv (db : ForkDatabase) : Prop := db.Keeps TreeInv

variable {P : ForkIndex → BlockState → BlockState → Prop}

/-- A fork database with a root has a head. -/
lemma Keeps.of_root (hi : db.Keeps P)
    (hroot : db.root = some root) : ∃ head, db.head = some head ∧ P db.index root head := by
  rcases hi with ⟨hnone, -⟩ | ⟨root', head, hroot', hhead, hi⟩
  · rw [hroot] at hnone
    cases hnone
  · obtain rfl := some.inj (hroot.symm.trans hroot')
    exact ⟨head, hhead, hi⟩

lemma Keeps.of_head (hi : db.Keeps P)
    (hhead : db.head = some head) : ∃ root, db.root = some root ∧ P db.index root head := by
  rcases hi with ⟨-, hnone, -⟩ | ⟨root, head', hroot, hhead', hi⟩
  · rw [hhead] at hnone
    cases hnone
  · obtain rfl := some.inj (hhead.symm.trans hhead')
    exact ⟨root, hroot, hi⟩

variable {index : ForkIndex} {db' : ForkDatabase}
  {validator : UInt32 → List Sha256 → List Sha256 → Result Unit} {id : BlockId}

lemma TreeInv.linked (h : TreeInv index root head) : Linked index root head where
  parents b hb := (h.parents b hb).imp fun _ hp => ⟨hp.1, hp.2.1, hp.2.2.1⟩
  head_known := h.head_mem.imp_right And.left

lemma Inv.linked (h : Inv db) : db.Keeps Linked :=
  h.imp_right fun ⟨root, head, hroot, hhead, hi⟩ => ⟨root, head, hroot, hhead, hi.linked⟩

lemma Linked.descends (h : Linked index root head) : ∀ b ∈ index, Descends index root b :=
  h.parents.descends

lemma Linked.numbered (h : Linked index root head) : index.Numbered :=
  fun b hb => (h.descends b hb).numFromId_eq

/-- The root is not one of the blocks, because its number is smaller than theirs. -/
lemma Linked.root_not_mem (h : Linked index root head) : index.find? root.id = none := by
  rw [Table.find?_eq_none]
  intro b hb hid
  have habove := (h.descends b hb).above
  have hnum : numFromId b.id = numFromId root.id := congrArg numFromId hid
  rw [b.numFromId_id, root.numFromId_id] at hnum
  omega

lemma Known.eq_of_id {b c : BlockState} (hi : Linked index root head) (hb : Known index root b)
    (hc : Known index root c) (hid : b.id = c.id) : b = c := by
  have hne : ∀ p ∈ index, p.id ≠ root.id := Table.find?_eq_none.mp hi.root_not_mem
  rcases hb with rfl | hb
  · rcases hc with rfl | hc
    · rfl
    · exact absurd hid.symm (hne c hc)
  · rcases hc with rfl | hc
    · exact absurd hid (hne b hb)
    · exact Table.eq_of_key_eq hb hc hid

variable {b n : BlockState} {ignoreDuplicate : Bool} {a c : BlockHeaderState}

/-- The first block of the index is a best one, among those validated if there are any. -/
lemma not_firstPreferred_candidate {c : BlockState}
    (hc : index.candidate = some c) (hb : b ∈ index) (hv : b.validated = true) :
    c.validated = true ∧ ¬firstPreferred b.toBlockHeaderState c.toBlockHeaderState := by
  obtain ⟨hval, hpref⟩ := ((candidate_spec hc).2 b hb).spec
  exact ⟨hval hv, hpref (by rw [hval hv, hv])⟩

/-! ### Each operation keeps it -/

lemma reset_inv (db : ForkDatabase) (rootBhs : BlockHeaderState)
    (h : numFromId rootBhs.id = rootBhs.blockNum) : Inv (db.reset rootBhs h) :=
  .inr ⟨_, _, rfl, rfl, fun _ hb => absurd hb (not_mem_empty _), .inl rfl,
    fun _ hb => absurd hb (not_mem_empty _)⟩

lemma rollbackHeadToRoot_inv (hi : Inv db) : Inv db.rollbackHeadToRoot := by
  rcases hi with ⟨hroot, hhead, hidx⟩ | ⟨root, head, hroot, hhead, hi⟩
  · left
    refine ⟨hroot, hroot, ?_⟩
    unfold rollbackHeadToRoot
    rw [hidx]
    rfl
  · right
    refine ⟨root, root, hroot, hroot, ?_, .inl rfl, ?_⟩
    · intro b hb
      obtain ⟨b0, hb0, rfl⟩ := mem_clearValid.mp hb
      obtain ⟨p, rfl | hp, hrest⟩ := hi.parents b0 hb0
      · exact ⟨p, .inl rfl, hrest⟩
      · exact ⟨{ p with validated := false }, .inr (mem_clearValid.mpr ⟨p, hp, rfl⟩), hrest⟩
    · intro b hb hv
      obtain ⟨b0, -, rfl⟩ := mem_clearValid.mp hb
      cases hv

lemma add_eq_ok (h : db.add validator n ignoreDuplicate validate = .ok db') :
    ∃ root prev, db.root = some root ∧ db.getBlockHeader root n.header.previous = some prev ∧
      (((db.index.find? n.id).isSome ∧ db' = db) ∨ (db.index.find? n.id = none ∧ ∃ c,
        candidate (db.index.insert n) = some c ∧
        db' = { db with
          index := db.index.insert n
          head := if c.validated then some c else db.head })) := by
  unfold add at h
  split at h
  · cases h
  · next root hroot =>
    split at h
    · cases h
    · next prev hprev =>
      refine ⟨root, prev, hroot, hprev, ?_⟩
      rw [bind_eq_ok] at h
      obtain ⟨-, -, h⟩ := h
      unfold insertBlock at h
      split_ifs at h with hdup
      · rw [pure_eq_ok] at h
        exact .inl ⟨hdup, h.symm⟩
      · refine .inr ⟨by simpa using hdup, ?_⟩
        split at h
        · cases h
        · next c hc =>
          rw [pure_eq_ok] at h
          exact ⟨c, hc, h.symm⟩

lemma known_of_getBlockHeader (h : db.getBlockHeader root id = some prev) :
    Known db.index root prev ∧ id = prev.id := by
  unfold getBlockHeader at h
  split_ifs at h with hid
  · cases h
    exact ⟨.inl rfl, hid.symm⟩
  · exact ⟨.inr (mem_of_find? h), (key_eq_of_find? h).symm⟩

lemma add_inv (hi : Inv db) (hcont : (Op.add n ignoreDuplicate validate).Continues db)
    (h : db.add validator n ignoreDuplicate validate = .ok db') : Inv db' := by
  obtain ⟨root, prev, hroot, hprev, ⟨-, rfl⟩ | ⟨hnew, c, hc, rfl⟩⟩ := add_eq_ok h
  · exact hi
  · obtain ⟨head, hhead, hi⟩ := hi.of_root hroot
    have hcont : ContinuesBlock prev n := hcont prev (by simp [hroot, hprev])
    obtain ⟨hknown, hid⟩ := known_of_getBlockHeader hprev
    have hall := hi.parents.insert hnew hknown hid hcont
    by_cases hv : c.validated = true
    · refine .inr ⟨root, c, hroot, by simp [hv], hall, .inr ⟨(candidate_spec hc).1, hv⟩, ?_⟩
      intro b hb hbv
      exact (not_firstPreferred_candidate hc hb hbv).2
    · -- no block of the index is validated, so the head is still the root
      have hnone : ∀ b ∈ db.index.insert n, ¬b.validated = true := fun b hb hbv =>
        hv (not_firstPreferred_candidate hc hb hbv).1
      refine .inr ⟨root, head, hroot, by simp [hv, hhead], hall, ?_, ?_⟩
      · rcases hi.head_mem with heq | ⟨hmem, hval⟩
        · exact .inl heq
        · exact absurd hval (hnone head ((mem_insert hnew).mpr (.inl hmem)))
      · intro b hb hbv
        exact absurd hbv (hnone b hb)

lemma markValid_eq_ok {h : BlockState} (hm : db.markValid h = .ok db') :
    db' = db ∨ ∃ b c head, db.index.find? h.id = some b ∧ db.head = some head ∧
      (db.index.setValid h.id).candidate = some c ∧
      db' = { db with
        index := db.index.setValid h.id
        head := if firstPreferred c.toBlockHeaderState head.toBlockHeaderState then some c
          else some head } := by
  unfold markValid at hm
  split_ifs at hm with hval hsome
  · rw [pure_eq_ok] at hm
    exact .inl hm.symm
  · obtain ⟨b, hb⟩ := isSome_iff_exists.mp hsome
    split at hm
    · next c head hc hhead =>
      rw [pure_eq_ok] at hm
      exact .inr ⟨b, c, head, hb, hhead, hc, hm.symm⟩
    · cases hm

lemma firstPreferred_trans {b : BlockHeaderState} (hab : firstPreferred a b)
    (hbc : firstPreferred b c) : firstPreferred a c := by
  unfold firstPreferred at *
  omega

/-- Not being preferred is transitive, too. -/
lemma not_firstPreferred_trans {b : BlockHeaderState} (hab : ¬firstPreferred a b)
    (hbc : ¬firstPreferred b c) : ¬firstPreferred a c := by
  unfold firstPreferred at *
  omega

lemma firstPreferred_of_continues {p c : BlockState} (h : ContinuesBlock p c) :
    firstPreferred c.toBlockHeaderState p.toBlockHeaderState := by
  obtain ⟨hnum, hlib⟩ := h
  unfold firstPreferred
  omega

/-- Every block is better than the root. -/
lemma TreeInv.firstPreferred_root (hi : TreeInv index root head) (hb : b ∈ index) :
    firstPreferred b.toBlockHeaderState root.toBlockHeaderState := by
  induction hnum : b.blockNum using Nat.strong_induction_on generalizing b with
  | _ k ih =>
    obtain ⟨p, rfl | hp, -, hcont⟩ := hi.parents b hb
    · exact firstPreferred_of_continues hcont
    · have hlt := hcont.1
      exact firstPreferred_trans (firstPreferred_of_continues hcont)
        (ih p.blockNum (by omega) hp rfl)

lemma parents_setValid (h : Parented ContinuesBlock index root) :
    Parented ContinuesBlock (index.setValid id) root := by
  have hknown : ∀ p, Known index root p →
      ∃ p', Known (index.setValid id) root p' ∧ p'.toBlockHeaderState = p.toBlockHeaderState := by
    rintro p (rfl | hp)
    · exact ⟨p, .inl rfl, rfl⟩
    · by_cases hid : p.id = id
      · exact ⟨{ p with validated := true }, .inr (mem_setValid.mpr (.inr ⟨p, hp, hid, rfl⟩)), rfl⟩
      · exact ⟨p, .inr (mem_setValid.mpr (.inl ⟨hp, hid⟩)), rfl⟩
  intro b hb
  obtain ⟨b0, hb0, hbb⟩ : ∃ b0 ∈ index, b.toBlockHeaderState = b0.toBlockHeaderState := by
    rcases mem_setValid.mp hb with ⟨hb, -⟩ | ⟨p, hp, -, rfl⟩
    · exact ⟨b, hb, rfl⟩
    · exact ⟨p, hp, rfl⟩
  obtain ⟨p, hp, hprev, hcont⟩ := h b0 hb0
  obtain ⟨p', hp', hpp⟩ := hknown p hp
  unfold ContinuesBlock at hcont ⊢
  rw [hbb]
  refine ⟨p', hp', ?_⟩
  rw [hpp]
  exact ⟨hprev, hcont⟩

/-- A validated block is still there after a block is marked as valid, be it itself or another. -/
lemma mem_setValid_of_validated
    (hb : b ∈ index) (hval : b.validated = true) : b ∈ index.setValid id := by
  apply mem_setValid.mpr
  by_cases hid : b.id = id
  · have heq : { b with validated := true } = b := by
      rw [← hval]
    exact .inr ⟨b, hb, hid, heq⟩
  · exact .inl ⟨hb, hid⟩

lemma markValid_inv {h : BlockState} (hi : Inv db) (hm : db.markValid h = .ok db') : Inv db' := by
  obtain rfl | ⟨b0, c, head, hb0, hhead, hc, rfl⟩ := markValid_eq_ok hm
  · exact hi
  · obtain ⟨root, hroot, hi⟩ := hi.of_head hhead
    have hparents : Parented ContinuesBlock (db.index.setValid h.id) root :=
      parents_setValid hi.parents
    -- the marked block is in the index, so the first one is validated, too
    have hcv : c.validated = true := by
      obtain ⟨hmem, hid⟩ := find?_eq_some.mp hb0
      exact (not_firstPreferred_candidate hc (mem_setValid.mpr (.inr ⟨b0, hmem, hid, rfl⟩)) rfl).1
    by_cases hpref : firstPreferred c.toBlockHeaderState head.toBlockHeaderState
    · refine .inr ⟨root, c, hroot, by simp [hpref], hparents, .inr ⟨(candidate_spec hc).1, hcv⟩, ?_⟩
      intro b hb hbv
      exact (not_firstPreferred_candidate hc hb hbv).2
    · refine .inr ⟨root, head, hroot, by simp [hpref], hparents, ?_, ?_⟩
      · rcases hi.head_mem with heq | ⟨hmem, hval⟩
        · exact .inl heq
        · exact .inr ⟨mem_setValid_of_validated hmem hval, hval⟩
      · intro b hb hbv
        exact not_firstPreferred_trans (not_firstPreferred_candidate hc hb hbv).2 hpref

lemma Removes.inv {ids : List BlockId} (h : Removes db ids db') (hhead : db.head = some head)
    (hi : TreeInv db.index root head) : TreeInv db'.index root head where
  parents := hi.parents.of_closed h.closed h.mem_iff
  head_mem := by
    rcases hi.head_mem with heq | ⟨hmem, hval⟩
    · exact .inl heq
    · exact .inr ⟨(h.mem_iff head).mpr ⟨hmem, h.head_not_mem head hhead⟩, hval⟩
  best b hb := hi.best b ((h.mem_iff b).mp hb).1

lemma remove_inv (hi : Inv db) (h : db.remove id = .ok db') : Inv db' := by
  obtain ⟨ids, -, hrem⟩ := remove_eq_ok h
  rcases hi with ⟨-, hnone, -⟩ | ⟨root, head, hroot, hhead, hi⟩
  · unfold remove at h
    rw [hnone] at h
    cases h
  · exact .inr ⟨root, head, hrem.root_eq.trans hroot, hrem.head_eq.trans hhead, hrem.inv hhead hi⟩

lemma advanceRoot_stages
    (h : db.advanceRoot id = .ok db') : ∃ root newRoot ids db1, db.root = some root ∧
      db.index.find? id = some newRoot ∧ newRoot.validated = true ∧
      blocksToRemove db.index root.id newRoot.blockNum newRoot.header.previous = .ok ids ∧
      ids.foldlM remove { db with index := db.index.erase id } = .ok db1 ∧
      db' = { db1 with root := some newRoot } := by
  unfold advanceRoot at h
  split at h
  · cases h
  · next root hroot =>
    split at h
    · cases h
    · next newRoot hnew =>
      simp only [bind_eq_ok, sysAssert_eq_ok, pure_eq_ok] at h
      obtain ⟨-, hval, ids, hids, db1, hfold, rfl⟩ := h
      exact ⟨root, newRoot, ids, db1, hroot, hnew, hval, hids, hfold, rfl⟩

lemma advanceRoot_eq_ok
    (h : db.advanceRoot id = .ok db') : ∃ root newRoot ids db1, db.root = some root ∧
      db.index.find? id = some newRoot ∧ root.id ∈ ids ∧
      Removes { db with index := db.index.erase id } ids db1 ∧
      db' = { db1 with root := some newRoot } := by
  obtain ⟨root, newRoot, ids, db1, hroot, hnew, -, hids, hfold, rfl⟩ := advanceRoot_stages h
  obtain ⟨all, hall, hrem⟩ := foldlM_remove_eq_ok hfold
  exact ⟨root, newRoot, all, db1, hroot, hnew, hall _ (blocksToRemove_eq_ok hids), hrem, rfl⟩

lemma advanceRoot_inv (hi : Inv db) (h : db.advanceRoot id = .ok db') : Inv db' := by
  obtain ⟨root, newRoot, ids, db1, hroot, hnew, hrootId, hrem, rfl⟩ := advanceRoot_eq_ok h
  obtain ⟨head, hhead, hi⟩ := hi.of_root hroot
  obtain ⟨hmem, rfl⟩ := find?_eq_some.mp hnew
  have hsub : ∀ b ∈ db1.index, b ∈ db.index := fun b hb =>
    (mem_erase.mp ((hrem.mem_iff b).mp hb).1).1
  have hout := hrem.head_not_mem head hhead
  refine .inr ⟨newRoot, head, rfl, hrem.head_eq.trans hhead,
    hi.parents.of_advance hmem hrootId hrem.closed hrem.mem_iff, ?_, ?_⟩
  · -- the old root is removed, so it was not the head
    rcases hi.head_mem with rfl | ⟨hhm, hval⟩
    · exact absurd hrootId hout
    · by_cases hid : head.id = newRoot.id
      · exact .inl (eq_of_key_eq hhm hmem hid)
      · exact .inr ⟨(hrem.mem_iff head).mpr ⟨mem_erase.mpr ⟨hhm, hid⟩, hout⟩, hval⟩
  · intro b hb
    exact hi.best b (hsub b hb)

/-- **Every operation keeps the invariant.** -/
theorem Step.inv {op : Op} (hi : Inv db) (h : Step validator db op db') : Inv db' := by
  obtain ⟨hcont, h⟩ := h
  cases op with
  | reset rootBhs hnum =>
    cases h
    exact reset_inv db rootBhs hnum
  | add => exact add_inv hi hcont h
  | markValid b => exact markValid_inv hi h
  | remove id => exact remove_inv hi h
  | advanceRoot id => exact advanceRoot_inv hi h
  | rollbackHeadToRoot =>
    cases h
    exact rollbackHeadToRoot_inv hi

end ForkDatabase

end Sysio
