import Sysio.BlockHeaderState.DoubleConfirm
import Sysio.Merkle.Incremental

/-!
# Forks

A block is proposed as irreversible by two thirds and one of the producers, so two branches that
both propose a block beyond their fork share more than a third of them
(`branches_share_producers`).  What a producer signs includes the block root, which is the Merkle
root of all blocks below (`blockroot_of_run`).
-/

namespace Sysio.BlockHeaderState

open List

variable {env : HeaderEnv} {initialKey : PublicKey} {initialTimestamp : UInt32} {chainId : Sha256}
  {tr₁ tr tr' : List (Transition BlockHeaderState HeaderInput)} {s₁ s s' : BlockHeaderState}

/-- A branch from the state `s₁`, under its schedule, whose headers confirm no more blocks than
there are (compare `exists_chain_double_confirm`). -/
structure BranchFrom (env : HeaderEnv) (s₁ : BlockHeaderState)
    (tr : List (Transition BlockHeaderState HeaderInput)) (s : BlockHeaderState) : Prop where
  run : Run (Accepts env) s₁ tr s
  fits : s₁.blockNum + tr.length < 2 ^ 32
  fixed : ∀ t ∈ tr, t.pre.activeSchedule = s₁.activeSchedule
  confirmed : ∀ t ∈ tr, t.event.confirmed ≤ t.post.blockNum

/-- **Two branches that both propose a block beyond the fork** have more than a third of the
producers in common, each with a block on both at or above the proposed one. -/
theorem branches_share_producers
    (hr : Run (Accepts env) (genesis env initialKey initialTimestamp chainId) tr₁ s₁)
    (hw : 1 + tr₁.length < 2 ^ 32) (hb : s₁.activeSchedule.producers.length ≤ maxProducers)
    (h : BranchFrom env s₁ tr s) (h' : BranchFrom env s₁ tr' s')
    (hx : s₁.blockNum < s.dposProposedIrreversibleBlocknum)
    (hx' : s₁.blockNum < s'.dposProposedIrreversibleBlocknum) :
    ∃ producers : Finset Name, s₁.activeSchedule.producers.length < 3 * producers.card ∧
      ∀ p ∈ producers,
        (∃ t ∈ tr, t.event.producer = p ∧ s.dposProposedIrreversibleBlocknum ≤ t.post.blockNum) ∧
        ∃ t ∈ tr', t.event.producer = p ∧
          s'.dposProposedIrreversibleBlocknum ≤ t.post.blockNum := by
  have hi := (chainInv_of_run (ChainInv.genesis env initialKey initialTimestamp chainId) hr
    (by rwa [blockNum_genesis])).1
  obtain ⟨P, hcard, hP⟩ :=
    exists_quorum_of_proposed hi h.run h.fits h.fixed h.confirmed hb _ hx le_rfl
  obtain ⟨P', hcard', hP'⟩ :=
    exists_quorum_of_proposed hi h'.run h'.fits h'.fixed h'.confirmed hb _ hx' le_rfl
  refine ⟨P ∩ P', ?_, fun p hp => ?_⟩
  · -- both quorums are producers of the schedule, so they meet
    have hsub : P ∪ P' ⊆ s₁.activeSchedule.names.toFinset := by
      intro p hp
      rw [mem_toFinset]
      rcases Finset.mem_union.mp hp with hp | hp
      · exact (hP p hp).1
      · exact (hP' p hp).1
    have hunion := (Finset.card_le_card hsub).trans (toFinset_card_le _)
    have hboth := Finset.card_union_add_card_inter P P'
    rw [ProducerAuthoritySchedule.names, length_map] at hunion
    omega
  · rw [Finset.mem_inter] at hp
    exact ⟨(hP p hp.1).2, (hP' p hp.2).2⟩

/-- Two branches with a block by each of the three producers, and the slot of the last. -/
def branchPlans : List (List BlockPlan × UInt32) :=
  [([⟨36, 0, none⟩, ⟨48, 1, none⟩, ⟨60, 2, none⟩], 60),
    ([⟨72, 0, none⟩, ⟨84, 1, none⟩, ⟨96, 2, none⟩], 96)]

theorem branches_share_producers_three : ∃ tr₁ s₁ tr s tr' s',
    Run (Accepts demoEnv) (demoGenesis 0) tr₁ s₁ ∧ BranchFrom demoEnv s₁ tr s ∧
      BranchFrom demoEnv s₁ tr' s' ∧ s.header.timestamp = 60 ∧ s'.header.timestamp = 96 ∧
      ∃ producers : Finset Name, 3 < 3 * producers.card ∧ ∀ p ∈ producers,
        (∃ t ∈ tr, t.event.producer = p ∧ 5 ≤ t.post.blockNum) ∧
        ∃ t ∈ tr', t.event.producer = p ∧ 5 ≤ t.post.blockNum := by
  obtain ⟨tr₁, s₁, hr, ⟨hlen, hnum, hact⟩, hP⟩ := exists_run_of_produceChain demoEnv (demoGenesis 0)
    threeProducersPlan
    (P := fun tr s => (tr.length = 3 ∧ s.blockNum = 4 ∧
      s.activeSchedule = demoSchedule 1 [1, 2, 3]) ∧ ∀ b ∈ branchPlans,
      ∃ r ∈ (produceChain demoEnv s b.1).toOption, r.1.length = 3 ∧
        (∀ t ∈ r.1, t.pre.activeSchedule = demoSchedule 1 [1, 2, 3]) ∧
        (∀ t ∈ r.1, t.event.confirmed ≤ t.post.blockNum) ∧ r.2.header.timestamp = b.2 ∧
        r.2.dposProposedIrreversibleBlocknum = 5)
    (by decide)
  have hbranch : ∀ b ∈ branchPlans, ∃ tr s, BranchFrom demoEnv s₁ tr s ∧
      s.header.timestamp = b.2 ∧ s.dposProposedIrreversibleBlocknum = 5 := by
    intro b hb
    obtain ⟨r, hchain, hlen', hfix, hconf, htime⟩ := hP b hb
    exact ⟨r.1, r.2, ⟨run_of_produceChain (Result.eq_ok_of_toOption hchain), by omega,
      fun t ht => (hfix t ht).trans hact.symm, hconf⟩, htime⟩
  obtain ⟨tr, s, h, htime, hx⟩ := hbranch _ (.head _)
  obtain ⟨tr', s', h', htime', hx'⟩ := hbranch _ (.tail _ (.head _))
  have hshare := branches_share_producers hr (by omega) (by rw [hact]; decide) h h' (by omega)
    (by omega)
  rw [hact, hx, hx'] at hshare
  exact ⟨tr₁, s₁, tr, s, tr', s', hr, h, h', htime, htime', hshare⟩

/-! ### The block root -/

lemma holds_of_run (hr : Run (Accepts env) (genesis env initialKey initialTimestamp chainId) tr s)
    (hlen : tr.length ≤ 2 ^ 63) :
    s.blockrootMerkle.Holds env.hashCanonicalPair Sha256.zero (tr.map (·.pre.id)) := by
  induction hr with
  | nil =>
    refine ⟨rfl, fun d _ => ⟨[], ?_⟩, rfl⟩
    rw [actives_of_lt (Nat.zero_le d) (by simp)]
    rfl
  | @snoc tr s s' e hr hs ih =>
    rw [length_append, length_singleton] at hlen
    obtain ⟨proauth, h⟩ := next_eq_ok hs
    obtain ⟨m, -, rfl, hm⟩ := (ih (by omega)).append (by rw [length_map]; omega) s.id
    rw [map_append]
    exact (congrArg (·.blockrootMerkle) h.common_eq) ▸ hm

/-- **The block root of a chain is the Merkle root of the blocks below**, from genesis on. -/
theorem blockroot_of_run
    (hr : Run (Accepts env) (genesis env initialKey initialTimestamp chainId) tr s)
    (hlen : tr.length ≤ 2 ^ 63) : s.blockrootMerkle.getRoot Sha256.zero =
      merkle env.hashCanonicalPair Sha256.zero (tr.map (·.pre.id)) :=
  (holds_of_run hr hlen).root

theorem blockroot_of_run_three : ∃ tr s, Run (Accepts demoEnv) (demoGenesis 0) tr s ∧
    tr.length = 3 ∧ s.blockrootMerkle.getRoot Sha256.zero =
      merkle demoEnv.hashCanonicalPair Sha256.zero (tr.map (·.pre.id)) := by
  obtain ⟨tr, s, hr, hlen⟩ := exists_run_of_produceChain demoEnv (demoGenesis 0)
    threeProducersPlan (P := fun tr _ => tr.length = 3) (by decide)
  exact ⟨tr, s, hr, hlen, blockroot_of_run hr (by omega)⟩

end Sysio.BlockHeaderState
