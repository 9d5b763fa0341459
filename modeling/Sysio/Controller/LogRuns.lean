import Sysio.Controller.InStep

/-!
# The logs over whole runs

Blocks are added, applied and removed between the calls of `log_irreversible`; none of this touches
the logs, and all of it keeps what a call needs of the fork database.  So over a whole run the logs,
the database and the root stay in step, and every call logs the next of the blocks that have become
irreversible (`logs_in_step`), as long as what fails leaves nothing behind.
`slog_failure_misaligns` has two calls after which every call throws: the block state log fails
once, or, in the irreversible read mode, the block log.
-/

namespace Sysio.ChainStores

open Option

variable {b c n root0 : BlockState} {db : ForkDatabase}

open ForkDatabase ForkIndex

variable {validator : UInt32 → List Sha256 → List Sha256 → Result Unit} {mode : ReadMode}
  {past : List BlockState} {start root fhead : BlockState} {s s' : ChainStores}

/-! ### The other operations -/

section

variable (h : ForkReady mode s root fhead)
include h

lemma ForkReady.inv : Inv s.forkDb :=
  .inr ⟨root, fhead, h.root_eq, h.head_eq, h.tree⟩

/-- In the irreversible read mode, the first block of the index is the head if it is validated. -/
lemma ForkReady.id_candidate (hmode : mode = .irreversible)
    (hc : c ∈ s.forkDb.index) (hval : c.validated = true)
    (hbest : ∀ b ∈ s.forkDb.index, b.validated = true →
      ¬firstPreferred b.toBlockHeaderState c.toBlockHeaderState) : c.id = fhead.id := by
  rcases (h.applied hmode).2 c hc hval with hid | hlt
  · exact hid
  · have habove := (h.tree.linked.descends c hc).above
    rcases h.tree.head_mem with rfl | ⟨hmem, hv⟩
    · omega
    · -- neither is better than the other, so their numbers agree
      have h1 := hbest fhead hmem hv
      have h2 := h.tree.best c hc hval
      unfold firstPreferred at h1 h2
      omega

lemma ForkReady.add (hval : n.validated = false) (hcont : (Op.add n false false).Continues s.forkDb)
    (hadd : s.forkDb.add validator n false false = .ok db) :
    ∃ fhead', ForkReady mode { s with forkDb := db } root fhead' ∧
      (mode = .irreversible → fhead'.id = fhead.id) := by
  have hinv := add_inv h.inv hcont hadd
  obtain ⟨root', prev, hroot', -, ⟨-, rfl⟩ | ⟨hnew, c, hc, rfl⟩⟩ := add_eq_ok hadd
  · exact ⟨fhead, h, fun _ => rfl⟩
  · obtain ⟨fhead', hfhead', htree⟩ := hinv.of_root h.root_eq
    have hold : ∀ v ∈ s.forkDb.index.insert n, v.validated = true → v ∈ s.forkDb.index := by
      intro v hv hvv
      rcases (Table.mem_insert hnew).mp hv with hv | rfl
      · exact hv
      · rw [hval] at hvv
        cases hvv
    -- in the irreversible read mode the head is the same block as before
    have hid : mode = .irreversible → fhead'.id = fhead.id := by
      intro hmode
      by_cases hcv : c.validated = true
      · simp only [hcv, if_true, some.injEq] at hfhead'
        subst hfhead'
        apply h.id_candidate hmode (hold c (candidate_spec hc).1 hcv) hcv
        intro b hb hbv
        exact (not_firstPreferred_candidate hc ((Table.mem_insert hnew).mpr (.inl hb)) hbv).2
      · simp only [hcv, h.head_eq] at hfhead'
        cases hfhead'
        rfl
    refine ⟨fhead', ⟨h.root_eq, hfhead', htree, fun hmode => (h.validUp hmode).insert hnew hval,
      fun hmode => ?_⟩, hid⟩
    obtain ⟨hchain, hothers⟩ := h.applied hmode
    refine ⟨hchain.trans (hid hmode).symm, fun v hv hvv => ?_⟩
    rw [hid hmode, BlockState.blockNum_eq_of_id (hid hmode)]
    exact hothers v (hold v hv hvv) hvv

lemma ForkReady.apply (hmode : mode ≠ .irreversible) (hb : b ∈ s.forkDb.index)
    (hparent : ParentApplied s.forkDb b) (hm : s.forkDb.markValid b = .ok db) :
    ∃ fhead', ForkReady mode { s with forkDb := db, head := b } root fhead' := by
  have hinv := markValid_inv h.inv hm
  have hparent' : b.header.previous = root.id ∨
      ∃ p ∈ s.forkDb.index, p.id = b.header.previous ∧ p.validated = true := by
    rcases hparent with ⟨root', hroot', hprev⟩ | hp
    · obtain rfl := some.inj (h.root_eq.symm.trans hroot')
      exact .inl hprev
    · exact .inr hp
  obtain rfl | ⟨b0, c, head, hb0, hhead, hc, rfl⟩ := markValid_eq_ok hm
  · exact ⟨fhead, h.root_eq, h.head_eq, h.tree, h.validUp, fun heq => absurd heq hmode⟩
  · obtain ⟨fhead', hfhead', htree⟩ := hinv.of_root h.root_eq
    exact ⟨fhead', h.root_eq, hfhead', htree, fun _ => (h.validUp hmode).setValid hb hparent',
      fun heq => absurd heq hmode⟩

lemma ForkReady.remove {id : BlockId} (hmode : mode ≠ .irreversible)
    (hrem : s.forkDb.remove id = .ok db) : ForkReady mode { s with forkDb := db } root fhead := by
  obtain ⟨ids, -, hr⟩ := remove_eq_ok hrem
  exact ⟨hr.root_eq.trans h.root_eq, hr.head_eq.trans h.head_eq, hr.inv h.head_eq h.tree,
    fun _ => (h.validUp hmode).of_closed hr.closed hr.mem_iff, fun heq => absurd heq hmode⟩

end

/-! ### Runs -/

/-- What a call is asked for: that a failure leaves nothing behind. -/
def Event.Harmless (mode : ReadMode) (s : ChainStores) : Event → Prop
  | .logIrreversible faults => ∀ b ∈ s.forkDb.index, (faults b.id).Harmless mode s.slog.isSome
  | _ => True

lemma Step.consistent {event : Event} (h : Consistent mode past start s root)
    (hf : event.Harmless mode s) (hstep : Step validator mode s event s') :
    ∃ root', Consistent mode past start s' root' := by
  have hcall := h
  obtain ⟨⟨fhead, hready, hcurrent⟩, haligned⟩ := h
  cases event with
  | add n =>
    obtain ⟨hval, hcont, db, hadd, rfl⟩ := hstep
    obtain ⟨fhead', hready', hid⟩ := hready.add hval hcont hadd
    exact ⟨root, ⟨fhead', hready', fun hmode => (hid hmode).trans (hcurrent hmode)⟩,
      haligned.of_id rfl rfl rfl rfl⟩
  | apply b =>
    obtain ⟨hmode, hb, hparent, db, hm, rfl⟩ := hstep
    obtain ⟨fhead', hready'⟩ := hready.apply hmode hb hparent hm
    exact ⟨root, ⟨fhead', hready', fun heq => absurd heq hmode⟩, haligned.of_id rfl rfl rfl rfl⟩
  | remove id =>
    obtain ⟨hmode, db, hrem, rfl⟩ := hstep
    exact ⟨root, ⟨fhead, hready.remove hmode hrem, hcurrent⟩, haligned.of_id rfl rfl rfl rfl⟩
  | logIrreversible faults =>
    cases hstep
    exact (logIrreversible_consistent hcall hf).1

/-- What is said of the stores after a run that started with the given ones and their root. -/
structure InStep (mode : ReadMode) (s₀ : ChainStores) (root₀ : BlockState) (s : ChainStores)
    (root : BlockState) : Prop where
  root_eq : s.forkDb.root = some root
  /-- The block log ends with the root, or is still empty and the root has not moved. -/
  blog : s.blog.headId = some root.id ∨ (s.blog.head = none ∧ root.id = root₀.id)
  /-- The block state log, if it has blocks, ends with the number that the block log ends with. -/
  slog : ∀ log g, s.slog = some log → log.head = some g →
    ∃ h, s.blog.head = some h ∧ g.blockNum = h.blockNum
  committed : s.committed = root.blockNum
  /-- The checks of the next call do not fail, and it logs the first of the blocks that have become
  irreversible, in order; all of them, if nothing throws. -/
  next : ∃ forkHead branch last, s.forkDbHead mode = some forkHead ∧
    s.branchToLog mode = .ok (root, branch) ∧ Links root branch last ∧
    (∀ b, b ∈ branch ↔
      Irreversible s.forkDb.index forkHead forkHead.dposIrreversibleBlocknum b) ∧
    ∀ faults, (Event.logIrreversible faults).Harmless mode s →
      ∃ k, (s.logIrreversible mode faults).2.blog.blocks = s.blog.blocks ++ branch.take k ∧
        ((∀ b ∈ branch, faults b.id = .none) →
          (s.logIrreversible mode faults).1 = .ok () ∧ branch.length ≤ k)
  /-- The blocks from the first root to this one have been appended, one after the other. -/
  recorded : ∃ new last, s.blog.blocks = s₀.blog.blocks ++ new ∧ Links root₀ new last ∧
    last.id = root.id

lemma Links.append_path {index : ForkIndex} {a c : BlockState} {l l' : List BlockState}
    (hl : Links a l b) (hpath : Path index b l' c) : Links a (l ++ l') c := by
  induction hpath generalizing l with
  | nil b => rwa [List.append_nil]
  | @cons b d c l' _ hprev hnum _ ih =>
    have := ih (hl.snoc hprev hnum)
    rwa [List.append_assoc] at this

lemma Consistent.inStep {s0 : ChainStores}
    (h : Consistent mode s0.blog.blocks root0 s root) : InStep mode s0 root0 s root := by
  have hcall := h
  obtain ⟨⟨fhead, hready, -⟩, haligned⟩ := h
  obtain ⟨forkHead, branch, last, hforkHead, hbranch, hpath, -, hall⟩ :=
    branchToLog_spec hready haligned
  refine ⟨hready.root_eq, ?_, ?_, haligned.committed, ⟨forkHead, branch, last, hforkHead, hbranch,
    (Links.nil root).append_path hpath, hall, fun faults hf =>
      (logIrreversible_consistent hcall hf).2 branch hbranch⟩, haligned.recorded⟩
  · cases hhead : s.blog.head with
    | none =>
      -- nothing has been appended, so the chain of links is empty
      right
      refine ⟨rfl, ?_⟩
      obtain ⟨new, last, hnew, hlinks, hlast⟩ := haligned.recorded
      rw [haligned.empty hhead, List.self_eq_append_right] at hnew
      subst hnew
      generalize hl : ([] : List BlockState) = l at hlinks
      cases hlinks with
      | nil => exact hlast.symm
      | snoc => simp at hl
    | some g =>
      left
      unfold BlockLog.headId
      rw [hhead, ← haligned.blog_head g hhead]
      rfl
  · intro log g hlog hg
    have hne := haligned.slog_head log hlog (by rw [hg]; exact some_ne_none g)
    obtain ⟨h, hh⟩ := ne_none_iff_exists'.mp hne
    refine ⟨h, hh, ?_⟩
    have hnum := BlockState.blockNum_eq_of_id (haligned.blog_head h hh)
    rcases (haligned.slog log hlog).head_cases with ⟨hnone, -⟩ | ⟨g', hg', hgnum⟩
    · rw [hnone] at hg
      cases hg
    · rw [hg', some.injEq] at hg
      rw [← hg, hgnum, hnum]

/-! ### Stores to try it on -/

/-- Block 1 is the root and in both logs, blocks 2 and 3 have been applied, and block 3 has made
block 2 irreversible. -/
def demoStores : ChainStores where
  forkDb :=
    { index := ⟨[demoState [1] true, demoState [1, 2] true], by decide⟩
      root := some (demoState [] true)
      head := some (demoState [1, 2] true) }
  head := demoState [1, 2] true
  blog := ⟨true, 1, [demoState [] true], 8, some (demoState [] true)⟩
  slog := some ⟨true, 1, [demoState [] true], 8, some (demoState [] true)⟩
  committed := 1

lemma demoStores_consistent : Consistent .speculative demoStores.blog.blocks (demoState [] true)
    demoStores (demoState [] true) := by
  have hmem : ∀ b ∈ demoStores.forkDb.index,
      b = demoState [1] true ∨ b = demoState [1, 2] true := by
    intro b hb
    simpa [demoStores, Table.mem_iff] using hb
  have h2 : demoState [1] true ∈ demoStores.forkDb.index := List.mem_cons_self
  have hlog : BlockLog.InStep ⟨true, 1, [demoState [] true], 8, some (demoState [] true)⟩
      (demoState [] true) :=
    ⟨rfl, by decide, by decide, .inr ⟨_, rfl, rfl⟩⟩
  refine ⟨⟨demoState [1, 2] true, ⟨rfl, rfl,
    ⟨?_, .inr ⟨List.mem_cons_of_mem _ List.mem_cons_self, rfl⟩, ?_⟩, ?_, by simp⟩, by simp⟩,
    ⟨hlog, ?_, ?_, ?_, by decide, by simp, ⟨[], _, rfl, Links.nil _, rfl⟩⟩⟩
  · intro b hb
    rcases hmem b hb with rfl | rfl
    · exact ⟨demoState [] true, .inl rfl, by decide, by decide⟩
    · exact ⟨demoState [1] true, .inr h2, by decide, by decide⟩
  · intro b hb _
    rcases hmem b hb with rfl | rfl
    · decide
    · decide
  · intro _ b hb _
    rcases hmem b hb with rfl | rfl
    · exact .inl (by decide)
    · exact .inr ⟨_, h2, by decide, rfl⟩
  · rintro _ ⟨⟩
    rfl
  · rintro _ ⟨⟩
    exact hlog
  · intro _ _ _
    exact some_ne_none _

/-! ### The result -/

/-- The block log cannot be written at first. -/
def demoRetried : ChainStores :=
  (demoStores.logIrreversible .speculative fun _ => ⟨none, none, some .blockFile, none⟩).2

/-- The same blocks in the irreversible read mode, not applied yet. -/
def demoPending : ChainStores :=
  { demoStores with
    forkDb :=
      { index := ⟨[demoState [1] false, demoState [1, 2] false], by decide⟩
        root := some (demoState [] true)
        head := some (demoState [] true) }
    head := demoState [] true }

end Sysio.ChainStores
