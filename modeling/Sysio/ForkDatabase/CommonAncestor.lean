import Sysio.ForkDatabase.Branch

/-!
# Common ancestors

`fetch_branch_from` takes two blocks down to where their branches meet, in three loops: the first
two bring the higher one down to the number of the lower one, the third goes down with both as long
as their parents differ.  A `Trail` is what each loop collects: the blocks from one on the way to an
ancestor, which is left out.  `fetchBranchFrom_spec` says that the trails end at the nearest common
ancestor, that is, the one which every other common ancestor is an ancestor of.
-/

namespace Sysio.ForkDatabase

open List

open ForkIndex

/-! ### The loops -/

/-- `get_block_header_impl`, with an exception where it finds nothing. -/
def requireBlock (db : ForkDatabase) (root : BlockState) (id : BlockId) : Result BlockState :=
  require (db.getBlockHeader root id) .forkDbBlockNotFound "block does not exist"

/-- The first two loops of `fetch_branch_from_impl`: from a block down to the given number. -/
def lowerTo (db : ForkDatabase) (root : BlockState) (num : ℕ) :
    ℕ → BlockState → Result (List BlockState × BlockState)
  | 0, b =>
    if num < b.blockNum then .error ⟨.undefinedBehavior, "the walk does not end"⟩ else pure ([], b)
  | fuel + 1, b =>
    if num < b.blockNum then do
      let prev ← db.requireBlock root b.header.previous
      let (branch, last) ← lowerTo db root num fuel prev
      pure (b :: branch, last)
    else pure ([], b)

/-- The third loop, which does not look at the root, and the blocks pushed after it. -/
def lowerBoth (index : ForkIndex) :
    ℕ → BlockState → BlockState → Result (List BlockState × List BlockState)
  | 0, _, _ => .error ⟨.undefinedBehavior, "the walk does not end"⟩
  | fuel + 1, b₁, b₂ =>
    if b₁.header.previous = b₂.header.previous then pure ([b₁], [b₂])
    else do
      let p₁ ← require (index.find? b₁.header.previous) .forkDbBlockNotFound "block does not exist"
      let p₂ ← require (index.find? b₂.header.previous) .forkDbBlockNotFound "block does not exist"
      let (l₁, l₂) ← lowerBoth index fuel p₁ p₂
      pure (b₁ :: l₁, b₂ :: l₂)

/-- The third loop, which is not entered if the branches have met already. -/
def meet (db : ForkDatabase) (b₁ b₂ : BlockState) : Result (List BlockState × List BlockState) :=
  if b₁.id = b₂.id then pure ([], []) else lowerBoth db.index b₁.blockNum b₁ b₂

/-- `fetch_branch_from_impl`, with the root already read. -/
def fetchBranchFrom (db : ForkDatabase) (root : BlockState) (first second : BlockId) :
    Result (List BlockState × List BlockState) := do
  let firstBranch ← db.requireBlock root first
  let secondBranch ← db.requireBlock root second
  let (l₁, b₁) ← db.lowerTo root secondBranch.blockNum firstBranch.blockNum firstBranch
  let (l₂, b₂) ← db.lowerTo root b₁.blockNum secondBranch.blockNum secondBranch
  let (m₁, m₂) ← db.meet b₁ b₂
  pure (l₁ ++ m₁, l₂ ++ m₂)

/-! ### Trails -/

/-- The blocks from one back to an ancestor, without the ancestor. -/
inductive Trail (index : ForkIndex) (root : BlockState) :
    BlockState → List BlockState → BlockState → Prop
  | nil {b : BlockState} : Known index root b → Trail index root b [] b
  | cons {a p b : BlockState} {l : List BlockState} : b ∈ index → b.header.previous = p.id →
      Trail index root p l a → Trail index root b (b :: l) a

def IsAncestor (index : ForkIndex) (root a b : BlockState) : Prop := ∃ l, Trail index root b l a

section Trails

variable {index : ForkIndex} {root head a b c p p' : BlockState} {l l' : List BlockState}

lemma Trail.known (h : Trail index root b l a) : Known index root b := by
  cases h with
  | nil hb => exact hb
  | cons hb _ _ => exact .inr hb

lemma Trail.known_end (h : Trail index root b l a) : Known index root a := by
  induction h with
  | nil hb => exact hb
  | cons _ _ _ ih => exact ih

lemma Trail.append (h : Trail index root b l c) (h' : Trail index root c l' a) :
    Trail index root b (l ++ l') a := by
  induction h with
  | nil _ => exact h'
  | cons hb hprev _ ih => exact Trail.cons hb hprev (ih h')

variable (hi : Linked index root head)

include hi

lemma Known.num_le (hb : Known index root b) : root.blockNum ≤ b.blockNum := by
  rcases hb with rfl | hb
  · exact le_rfl
  · exact (hi.descends b hb).above.le

lemma Known.eq_root (hb : Known index root b) (hnum : b.blockNum = root.blockNum) : b = root := by
  rcases hb with rfl | hb
  · rfl
  · exact absurd (hi.descends b hb).above (by omega)

lemma blockNum_of_parent (hb : b ∈ index) (hp : Known index root p)
    (hprev : b.header.previous = p.id) : b.blockNum = p.blockNum + 1 := by
  obtain ⟨p', hp', hprev', hnum⟩ := hi.parents b hb
  rwa [Known.eq_of_id hi hp hp' (hprev.symm.trans hprev')]

lemma Trail.blockNum_eq (h : Trail index root b l a) : b.blockNum = a.blockNum + l.length := by
  induction h with
  | nil _ => rfl
  | cons hb hprev hl ih =>
    rw [blockNum_of_parent hi hb hl.known hprev, ih, length_cons]
    omega

lemma Trail.eq_nil_iff (h : Trail index root b l a) : l = [] ↔ b = a := by
  constructor
  · rintro rfl
    cases h
    rfl
  · rintro rfl
    have := h.blockNum_eq hi
    exact eq_nil_of_length_eq_zero (by omega)

/-- Of two ancestors of a block, the lower one is an ancestor of the higher one. -/
lemma IsAncestor.of_le (h : Trail index root b l a) (hc : IsAncestor index root c b)
    (hle : c.blockNum ≤ a.blockNum) : IsAncestor index root c a := by
  induction h with
  | nil _ => exact hc
  | @cons a p b l hb hprev hl ih =>
    obtain ⟨l', hc⟩ := hc
    have hnum := (Trail.cons hb hprev hl).blockNum_eq hi
    cases hc with
    | nil _ =>
      rw [length_cons] at hnum
      omega
    | cons _ hprev' hl' =>
      have heq := Known.eq_of_id hi hl'.known hl.known (hprev'.symm.trans hprev)
      subst heq
      exact ih ⟨_, hl'⟩ hle

lemma IsAncestor.num_le (h : IsAncestor index root a b) : a.blockNum ≤ b.blockNum := by
  obtain ⟨l, h⟩ := h
  have := h.blockNum_eq hi
  omega

end Trails

/-! ### What the loops return -/

section Loops

variable {db : ForkDatabase} {root head b b₁ b₂ : BlockState}
  (hi : Linked db.index root head)

include hi

lemma requireBlock_eq {p : BlockState} {id : BlockId} (hp : Known db.index root p)
    (hid : id = p.id) : db.requireBlock root id = .ok p := by
  unfold requireBlock getBlockHeader
  rcases hp with rfl | hp
  · rw [if_pos hid.symm]
    rfl
  · have hne := Table.find?_eq_none.mp hi.root_not_mem p hp
    rw [if_neg (by rw [hid]; exact hne.symm), hid, Table.find?_eq_some.mpr ⟨hp, rfl⟩]
    rfl

lemma lowerTo_spec {num fuel : ℕ} (hb : Known db.index root b) (hnum : root.blockNum ≤ num)
    (hfuel : b.blockNum ≤ num + fuel) : ∃ l c, db.lowerTo root num fuel b = .ok (l, c) ∧
      Trail db.index root b l c ∧ c.blockNum = min num b.blockNum := by
  induction fuel generalizing b with
  | zero =>
    refine ⟨[], b, ?_, Trail.nil hb, by omega⟩
    rw [lowerTo, if_neg (by omega)]
    rfl
  | succ fuel ih =>
    rw [lowerTo]
    split_ifs with hlt
    · rcases hb with rfl | hb
      · omega
      · obtain ⟨p, hp, hprev, hpnum⟩ := hi.parents b hb
        obtain ⟨l, c, hl, htrail, hc⟩ := ih hp (by omega)
        refine ⟨b :: l, c, ?_, Trail.cons hb hprev htrail, by omega⟩
        simp only [requireBlock_eq hi hp hprev, Result.ok_bind, hl]
        rfl
    · exact ⟨[], b, rfl, Trail.nil hb, by omega⟩

/-- Two different blocks of the same number: below them is the nearest common ancestor. -/
lemma lowerBoth_spec {fuel : ℕ} (hb1 : b₁ ∈ db.index) (hb2 : b₂ ∈ db.index)
    (hnum : b₁.blockNum = b₂.blockNum) (hne : b₁.id ≠ b₂.id) (hfuel : b₁.blockNum ≤ fuel) :
    ∃ l1 l2 a, lowerBoth db.index fuel b₁ b₂ = .ok (l1, l2) ∧ Trail db.index root b₁ l1 a ∧
      Trail db.index root b₂ l2 a ∧ ∀ c, IsAncestor db.index root c b₁ →
        IsAncestor db.index root c b₂ → IsAncestor db.index root c a := by
  induction fuel generalizing b₁ b₂ with
  | zero =>
    have := (hi.descends b₁ hb1).above
    omega
  | succ fuel ih =>
    obtain ⟨p1, hp1, hprev1, hpnum1⟩ := hi.parents b₁ hb1
    obtain ⟨p2, hp2, hprev2, hpnum2⟩ := hi.parents b₂ hb2
    -- a common ancestor is neither of the two blocks, so it is one of their parents
    have hcommon : ∀ c, IsAncestor db.index root c b₁ → IsAncestor db.index root c b₂ →
        IsAncestor db.index root c p1 ∧ IsAncestor db.index root c p2 := by
      intro c hc1 hc2
      have hle : c.blockNum ≤ p1.blockNum := by
        by_contra hlt
        have h1 := hc1.num_le hi
        obtain ⟨l1, ht1⟩ := hc1
        obtain ⟨l2, ht2⟩ := hc2
        have hn1 := ht1.blockNum_eq hi
        have hn2 := ht2.blockNum_eq hi
        have heq1 := (ht1.eq_nil_iff hi).mp (eq_nil_of_length_eq_zero (by omega))
        have heq2 := (ht2.eq_nil_iff hi).mp (eq_nil_of_length_eq_zero (by omega))
        exact hne (by rw [heq1, heq2])
      exact ⟨IsAncestor.of_le hi (Trail.cons hb1 hprev1 (Trail.nil hp1)) hc1 hle,
        IsAncestor.of_le hi (Trail.cons hb2 hprev2 (Trail.nil hp2)) hc2 (by omega)⟩
    rw [lowerBoth]
    split_ifs with hsame
    · have heq : p1 = p2 := Known.eq_of_id hi hp1 hp2 (by rw [← hprev1, ← hprev2, hsame])
      subst heq
      exact ⟨[b₁], [b₂], p1, rfl, Trail.cons hb1 hprev1 (Trail.nil hp1),
        Trail.cons hb2 hprev2 (Trail.nil hp1), fun c hc1 hc2 => (hcommon c hc1 hc2).1⟩
    · have hpne : p1.id ≠ p2.id := fun h => hsame (by rw [hprev1, hprev2, h])
      -- neither parent is the root, as the other one would be the root, too
      have hroot1 : p1 ≠ root := by
        rintro rfl
        exact hpne (by rw [hp2.eq_root hi (by omega)])
      have hroot2 : p2 ≠ root := by
        rintro rfl
        exact hpne (by rw [hp1.eq_root hi (by omega)])
      have hm1 := hp1.resolve_left hroot1
      have hm2 := hp2.resolve_left hroot2
      obtain ⟨l1, l2, a, hl, ht1, ht2, hnear⟩ := ih hm1 hm2 (by omega) hpne (by omega)
      refine ⟨b₁ :: l1, b₂ :: l2, a, ?_, Trail.cons hb1 hprev1 ht1, Trail.cons hb2 hprev2 ht2,
        fun c hc1 hc2 => ?_⟩
      · rw [hprev1, hprev2, Table.find?_eq_some.mpr ⟨hm1, rfl⟩, Table.find?_eq_some.mpr ⟨hm2, rfl⟩]
        simp only [require, Result.ok_bind, hl]
        rfl
      · obtain ⟨h1, h2⟩ := hcommon c hc1 hc2
        exact hnear c h1 h2

lemma meet_spec (hb1 : Known db.index root b₁) (hb2 : Known db.index root b₂)
    (hnum : b₁.blockNum = b₂.blockNum) :
    ∃ l1 l2 a, db.meet b₁ b₂ = .ok (l1, l2) ∧ Trail db.index root b₁ l1 a ∧
      Trail db.index root b₂ l2 a ∧ ∀ c, IsAncestor db.index root c b₁ →
        IsAncestor db.index root c b₂ → IsAncestor db.index root c a := by
  unfold meet
  split_ifs with hid
  · have heq := Known.eq_of_id hi hb1 hb2 hid
    subst heq
    exact ⟨[], [], b₁, rfl, Trail.nil hb1, Trail.nil hb1, fun c hc _ => hc⟩
  · have hm1 : b₁ ∈ db.index := hb1.resolve_left (by
      rintro rfl
      exact hid (by rw [hb2.eq_root hi hnum.symm]))
    have hm2 : b₂ ∈ db.index := hb2.resolve_left (by
      rintro rfl
      exact hid (by rw [hb1.eq_root hi hnum]))
    exact lowerBoth_spec hi hm1 hm2 hnum hid le_rfl

end Loops

/-- **`fetch_branch_from` returns the two ways to the nearest common ancestor.**  For any two blocks
that the database knows, it returns, and what it returns are the blocks from each of them back to an
ancestor that they have in common, which is left out; every other common ancestor is an ancestor of
that one; and a list is empty exactly if its block is the common ancestor itself. -/
theorem fetchBranchFrom_spec {db : ForkDatabase} (hdb : db.Keeps Linked) {root b₁ b₂ : BlockState}
    (hroot : db.root = some root) (hb₁ : Known db.index root b₁) (hb₂ : Known db.index root b₂) :
    ∃ p₁ p₂ a, db.fetchBranchFrom root b₁.id b₂.id = .ok (p₁, p₂) ∧
      Trail db.index root b₁ p₁ a ∧ Trail db.index root b₂ p₂ a ∧
      (∀ c, IsAncestor db.index root c b₁ → IsAncestor db.index root c b₂ →
        IsAncestor db.index root c a) ∧ (p₁ = [] ↔ b₁ = a) ∧ (p₂ = [] ↔ b₂ = a) := by
  obtain ⟨head, -, hi⟩ := hdb.of_root hroot
  obtain ⟨l1, c1, hl1, ht1, hn1⟩ := lowerTo_spec hi hb₁ (hb₂.num_le hi) (Nat.le_add_left _ _)
  obtain ⟨l2, c2, hl2, ht2, hn2⟩ :=
    lowerTo_spec hi hb₂ (ht1.known_end.num_le hi) (Nat.le_add_left _ _)
  obtain ⟨m1, m2, a, hm, hu1, hu2, hnear⟩ :=
    meet_spec hi ht1.known_end ht2.known_end (by omega)
  have hp1 := ht1.append hu1
  have hp2 := ht2.append hu2
  refine ⟨l1 ++ m1, l2 ++ m2, a, ?_, hp1, hp2, fun c hc1 hc2 => ?_, hp1.eq_nil_iff hi,
    hp2.eq_nil_iff hi⟩
  · simp only [fetchBranchFrom, requireBlock_eq hi hb₁ rfl, requireBlock_eq hi hb₂ rfl,
      Result.ok_bind, hl1, hl2, hm]
    rfl
  · have h1 := hc1.num_le hi
    have h2 := hc2.num_le hi
    exact hnear c (IsAncestor.of_le hi ht1 hc1 (by omega)) (IsAncestor.of_le hi ht2 hc2 (by omega))

/-- From block 4 on one branch and block 3 on another. -/
theorem fetchBranchFrom_spec_demo : ∃ db root b₁ b₂ p₁ p₂ a, Inv db ∧ db.root = some root ∧
    b₁ ∈ db.index ∧ b₂ ∈ db.index ∧ b₁.blockNum = 4 ∧ b₂.blockNum = 3 ∧
    b₁.header.previous ≠ b₂.id ∧ db.fetchBranchFrom root b₁.id b₂.id = .ok (p₁, p₂) ∧
    Trail db.index root b₁ p₁ a ∧ Trail db.index root b₂ p₂ a := by
  obtain ⟨tr, db, hr, hP⟩ := exists_demoRun
    [demoReset, .add (demoState [1] false) false false,
      .add (demoState [1, 2] false) false false,
      .add (demoState [1, 2, 3] false) false false,
      .add (demoState [1, 4] false) false false]
    (P := fun db => ∃ root ∈ db.root, ∃ b₁ ∈ db.index.rows, ∃ b₂ ∈ db.index.rows,
      b₁.blockNum = 4 ∧ b₂.blockNum = 3 ∧ b₁.header.previous ≠ b₂.id)
    (by decide +kernel)
  obtain ⟨root, hroot, b₁, hb1, b₂, hb2, h1, h2, hne⟩ := hP
  obtain ⟨p₁, p₂, a, hok, ht1, ht2, -⟩ :=
    fetchBranchFrom_spec (Inv.linked (inv_of_run hr)) hroot (.inr hb1) (.inr hb2)
  exact ⟨db, root, b₁, b₂, p₁, p₂, a, inv_of_run hr, hroot, hb1, hb2, h1, h2, hne, hok, ht1, ht2⟩

end Sysio.ForkDatabase
