import Sysio.BlockHeaderState.ConfirmCount
import Mathlib.Data.Finset.Card

/-!
# Can a producer confirm a block twice?

The double confirmation check compares the last block of the producer with the lower end of the
range that the new block confirms.  When that lower end is a block number, the ranges of two blocks
by one producer are disjoint (`guard_of_accepts`, `pairwise_disjoint_ranges`), each counter is
decremented by distinct producers only, and a block is proposed as irreversible by a quorum
(`exists_quorum_of_proposed`).

The lower end is computed in 32 bits, though, and a header may claim to confirm more blocks than
there are.  `exists_chain_double_confirm` is a chain in which one producer of three does so and
makes its own block irreversible alone.
-/

namespace Sysio.BlockHeaderState

open List Table

variable {n v x y : ℕ} {schedule : ProducerAuthoritySchedule}

/-! ### The last block of a producer -/

section Step

variable {env : HeaderEnv} {s s' : BlockHeaderState} {e : HeaderInput}

lemma find?_lastProduced_self (h : Accepts env s e s') :
    s'.producerToLastProduced.find? e.producer = some (e.producer, s'.blockNum) := by
  rw [h.lastProduced_eq]
  split_ifs
  · rw [promoteLastProduced, find?_upsert, if_pos rfl]
  · rw [find?_upsert, if_pos rfl]

/-- The last block of a producer that stays in the schedule is not forgotten. -/
lemma find?_lastProduced_le (h : Accepts env s e s') {p : Name}
    (hp : p ∈ s'.activeSchedule.names) (hv : s.producerToLastProduced.find? p = some (p, v))
    (hle : v ≤ s'.blockNum) : ∃ v', s'.producerToLastProduced.find? p = some (p, v') ∧ v ≤ v' := by
  by_cases hself : e.producer = p
  · exact ⟨s'.blockNum, hself ▸ find?_lastProduced_self h, hle⟩
  · refine ⟨v, ?_, le_rfl⟩
    rw [h.activeSchedule_eq] at hp
    rw [h.lastProduced_eq]
    split_ifs at hp ⊢
    · rw [promoteLastProduced, find?_upsert, if_neg hself, find?_rebuildMap, if_pos hp,
        if_neg (Ne.symm hself)]
      simp [existingOr, hv]
    · rw [find?_upsert, if_neg hself, hv]

/-- **The check, without wrapping**: the last block of the producer lies below the confirmed
range. -/
theorem guard_of_accepts (h : Accepts env s e s') (hw : s.blockNum + 1 < 2 ^ 32)
    (hconf : e.confirmed ≤ s.blockNum + 1)
    (hv : s.producerToLastProduced.find? e.producer = some (e.producer, v)) :
    v + e.confirmed < s.blockNum + 1 := by
  obtain ⟨proauth, h⟩ := next_eq_ok h
  have hcheck := h.checked
  unfold checkDoubleConfirm at hcheck
  rw [hv] at hcheck
  have hlt : v < subU32 (u32 (s.blockNum + 1)) e.confirmed := sysAssert_eq_ok.mp hcheck
  rw [u32_of_lt hw, subU32_of_le hw hconf] at hlt
  omega

end Step

/-! ### A segment of a chain under one schedule -/

section Segment

variable {env : HeaderEnv} {s₁ s : BlockHeaderState}
  {tr : List (Transition BlockHeaderState HeaderInput)}

/-- Every block of the segment is remembered in the map, as long as its producer is scheduled. -/
lemma find?_lastProduced_of_mem (hi : ChainInv s₁) (hr : Run (Accepts env) s₁ tr s)
    (hw : s₁.blockNum + tr.length < 2 ^ 32)
    (hfix : ∀ t ∈ tr, t.pre.activeSchedule = s₁.activeSchedule) :
    ∀ a ∈ tr, a.event.producer ∈ s.activeSchedule.names →
      ∃ v, s.producerToLastProduced.find? a.event.producer = some (a.event.producer, v) ∧
        a.post.blockNum ≤ v := by
  induction hr with
  | nil => simp
  | @snoc tr s s' e hr hs ih =>
    rw [length_append, length_singleton] at hw
    have hall := (blockNum_of_run hr (by omega)).2
    have hinv := (chainInv_of_run hi hr (by omega)).1
    have hnum := hinv.blockNum_eq hs (by have := (blockNum_of_run hr (by omega)).1; omega)
    intro a ha hp
    rcases mem_append.mp ha with ha | ha
    · -- an earlier block: its producer was scheduled all along
      have hacc := ((chainInv_of_run hi hr (by omega)).2 a ha).2
      have hsched : a.event.producer ∈ s.activeSchedule.names := by
        have h1 : a.pre.activeSchedule = s₁.activeSchedule := hfix a (mem_append_left _ ha)
        have h2 : s.activeSchedule = s₁.activeSchedule := hfix ⟨s, e, s'⟩ (by simp)
        rw [h2, ← h1]
        exact hacc.scheduled
      obtain ⟨v, hv, hle⟩ := ih (by omega) (fun t ht => hfix t (mem_append_left _ ht)) a ha hsched
      have hv' := hinv.produced_le _ (mem_of_find? hv)
      obtain ⟨v', hfind, hvv⟩ := find?_lastProduced_le hs hp hv (by dsimp only at hv'; omega)
      exact ⟨v', hfind, hle.trans hvv⟩
    · obtain rfl := mem_singleton.mp ha
      exact ⟨s'.blockNum, find?_lastProduced_self hs, le_rfl⟩

/-- Two blocks of one producer decrement no common counter. -/
def DisjointRanges (a b : Transition BlockHeaderState HeaderInput) : Prop :=
  a.event.producer = b.event.producer → ∀ x, ¬(Confirms a x ∧ Confirms b x)

lemma pairwise_disjoint_ranges (hi : ChainInv s₁) (hr : Run (Accepts env) s₁ tr s)
    (hw : s₁.blockNum + tr.length < 2 ^ 32)
    (hfix : ∀ t ∈ tr, t.pre.activeSchedule = s₁.activeSchedule)
    (hconf : ∀ t ∈ tr, t.event.confirmed ≤ t.post.blockNum) : tr.Pairwise DisjointRanges := by
  induction hr with
  | nil => exact List.Pairwise.nil
  | @snoc tr s s' e hr hs ih =>
    rw [length_append, length_singleton] at hw
    have hfix' : ∀ t ∈ tr, t.pre.activeSchedule = s₁.activeSchedule := fun t ht =>
      hfix t (mem_append_left _ ht)
    have hnum := (blockNum_of_run hr (by omega)).1
    have hinv := (chainInv_of_run hi hr (by omega)).1
    have hnext := hinv.blockNum_eq hs (by omega)
    have hc : e.confirmed ≤ s'.blockNum := hconf ⟨s, e, s'⟩ (by simp)
    rw [pairwise_append]
    refine ⟨ih (by omega) hfix' (fun t ht => hconf t (mem_append_left _ ht)),
      pairwise_singleton _ _, ?_⟩
    intro a ha b hb hprod x hx
    obtain rfl := mem_singleton.mp hb
    -- the map remembers `a`, so the check put the range of the new block above it
    have hprod : a.event.producer = e.producer := hprod
    obtain ⟨v, hv, hle⟩ := find?_lastProduced_of_mem hi hr (by omega) hfix' a ha
      (hprod ▸ hs.scheduled)
    rw [hprod] at hv
    have hguard := guard_of_accepts hs (by omega) (by omega) hv
    obtain ⟨⟨hax, -, -⟩, -, hbx, -⟩ := hx
    dsimp only at hbx
    omega

/-! ### Counting producers -/

/-- The transitions that confirm one block are by distinct producers. -/
lemma nodup_producers (h : tr.Pairwise DisjointRanges) :
    ((tr.filter fun t => decide (Confirms t x)).map (·.event.producer)).Nodup := by
  rw [List.Nodup, pairwise_map]
  refine (h.sublist filter_sublist).imp_of_mem ?_
  intro a b ha hb hab heq
  have hax := of_decide_eq_true (List.mem_filter.mp ha).2
  have hbx := of_decide_eq_true (List.mem_filter.mp hb).2
  exact hab heq x ⟨hax, hbx⟩

/-- `n` distinct producers of the schedule produced a block numbered `x` or more. -/
def ProducedBy (schedule : ProducerAuthoritySchedule)
    (tr : List (Transition BlockHeaderState HeaderInput)) (x n : ℕ) : Prop :=
  ∃ producers : Finset Name, n ≤ producers.card ∧ ∀ p ∈ producers, p ∈ schedule.names ∧
    ∃ t ∈ tr, t.event.producer = p ∧ x ≤ t.post.blockNum

lemma ProducedBy.mono
    {tr' : List (Transition BlockHeaderState HeaderInput)} (h : ProducedBy schedule tr y n)
    (hxy : x ≤ y) (hsub : ∀ t ∈ tr, t ∈ tr') : ProducedBy schedule tr' x n := by
  obtain ⟨producers, hcard, hall⟩ := h
  refine ⟨producers, hcard, fun p hp => ?_⟩
  obtain ⟨hmem, t, ht, hprod, hle⟩ := hall p hp
  exact ⟨hmem, t, hsub t ht, hprod, hxy.trans hle⟩

lemma producedBy_of_countP
    (h : tr.Pairwise DisjointRanges) (hsched : ∀ t ∈ tr, t.event.producer ∈ schedule.names) :
    ProducedBy schedule tr x (tr.countP fun t => decide (Confirms t x)) := by
  refine ⟨((tr.filter fun t => decide (Confirms t x)).map (·.event.producer)).toFinset, ?_, ?_⟩
  · rw [toFinset_card_of_nodup (nodup_producers h), length_map, countP_eq_length_filter]
  · intro p hp
    obtain ⟨t, ht, rfl⟩ := List.mem_map.mp (mem_toFinset.mp hp)
    obtain ⟨hmem, hcf⟩ := List.mem_filter.mp ht
    exact ⟨hsched t hmem, t, hmem, rfl, (of_decide_eq_true hcf).1⟩

/-- A block whose counter the last header of the segment brings to zero has been confirmed as often
as the schedule requires. -/
lemma countP_of_proposal {s' : BlockHeaderState} {e : HeaderInput} (hi : ChainInv s₁)
    (hr : Run (Accepts env) s₁ tr s) (hs : Accepts env s e s')
    (hw : s₁.blockNum + (tr.length + 1) < 2 ^ 32)
    (hfix : ∀ t ∈ tr ++ [⟨s, e, s'⟩], t.pre.activeSchedule = s₁.activeSchedule)
    (hb : s₁.activeSchedule.producers.length ≤ maxProducers)
    (hnew : s₁.blockNum < s'.dposProposedIrreversibleBlocknum)
    (hne : s'.dposProposedIrreversibleBlocknum ≠ s.dposProposedIrreversibleBlocknum) :
    List.countP (fun t => decide (Confirms t s'.dposProposedIrreversibleBlocknum))
        (tr ++ [⟨s, e, s'⟩]) = s₁.activeSchedule.producers.length * 2 / 3 + 1 := by
  have hnum := (blockNum_of_run hr (by omega)).1
  have hinv := (chainInv_of_run hi hr (by omega)).1
  have hstep := hinv.counterStep hs (by omega)
  have hsched : s.activeSchedule = s₁.activeSchedule := hfix ⟨s, e, s'⟩ (by simp)
  rcases hstep.proposal with hsame | ⟨hcf, -, hcase⟩
  · exact absurd hsame hne
  · set y := s'.dposProposedIrreversibleBlocknum with hy
    have hlast : List.countP (fun t => decide (Confirms t y)) (tr ++ [⟨s, e, s'⟩]) =
        tr.countP (fun t => decide (Confirms t y)) + 1 := by
      have hone : Confirms ⟨s, e, s'⟩ y := hcf
      simp [hone]
    rw [hlast]
    rcases hcase with ⟨hself, hreq⟩ | ⟨-, hcount⟩
    · have hzero : tr.countP (fun t => decide (Confirms t y)) = 0 := by
        apply countP_confirms_eq_zero hr (by omega)
        rw [hself, hstep.blockNum_eq]
        exact Nat.lt_succ_self _
      have hreq : requiredConfs s.activeSchedule = 1 := hreq
      rw [hzero, ← toNat_requiredConfs hb, ← hsched, hreq]
      rfl
    · obtain ⟨-, t, ht, -, hsum⟩ := counter_origin hi hr (by omega)
        (fun t ht => by rw [hfix t (mem_append_left _ ht)]; exact hb) hnew hcount
      rw [hfix t (mem_append_left _ ht), toNat_requiredConfs hb] at hsum
      have hone : (1 : UInt8).toNat = 1 := rfl
      omega

/-- **A block of the segment is proposed as irreversible by a quorum.** -/
theorem exists_quorum_of_proposed (hi : ChainInv s₁) (hr : Run (Accepts env) s₁ tr s)
    (hw : s₁.blockNum + tr.length < 2 ^ 32)
    (hfix : ∀ t ∈ tr, t.pre.activeSchedule = s₁.activeSchedule)
    (hconf : ∀ t ∈ tr, t.event.confirmed ≤ t.post.blockNum)
    (hb : s₁.activeSchedule.producers.length ≤ maxProducers) :
    ∀ x, s₁.blockNum < x → x ≤ s.dposProposedIrreversibleBlocknum →
      ProducedBy s₁.activeSchedule tr x (s₁.activeSchedule.producers.length * 2 / 3 + 1) := by
  induction hr with
  | nil =>
    intro x hx hle
    have := hi.proposed_le
    omega
  | @snoc tr s s' e hr hs ih =>
    rw [length_append, length_singleton] at hw
    intro x hx hle
    by_cases hold : x ≤ s.dposProposedIrreversibleBlocknum
    · have := ih (by omega) (fun t ht => hfix t (mem_append_left _ ht))
        (fun t ht => hconf t (mem_append_left _ ht)) x hx hold
      exact this.mono le_rfl fun t ht => mem_append_left _ ht
    · have hr' := hr.snoc hs
      have hw' : s₁.blockNum + List.length (tr ++ [⟨s, e, s'⟩]) < 2 ^ 32 := by
        rwa [length_append, length_singleton]
      have hsched : ∀ t ∈ tr ++ [⟨s, e, s'⟩], t.event.producer ∈ s₁.activeSchedule.names := by
        intro t ht
        rw [← hfix t ht]
        exact (hr'.step_of_mem ht).scheduled
      have hquorum := producedBy_of_countP (x := s'.dposProposedIrreversibleBlocknum)
        (pairwise_disjoint_ranges hi hr' hw' hfix hconf) hsched
      rw [countP_of_proposal hi hr hs hw hfix hb (by omega) (by omega)] at hquorum
      exact hquorum.mono hle fun t ht => ht

end Segment

/-! ### Chains from genesis -/

section Chains

variable {env : HeaderEnv} {initialKey : PublicKey} {initialTimestamp : UInt32} {chainId : Sha256}
  {tr₁ tr₂ : List (Transition BlockHeaderState HeaderInput)} {s₁ s₂ : BlockHeaderState}

/-- **No producer confirms a block twice**, on a chain whose block numbers fit 32 bits and whose
headers confirm no more blocks than there are: under one active schedule, the ranges of counters
that two blocks of a producer decrement are disjoint, and a block produced under the schedule is
proposed as irreversible only after two thirds and one of its producers have produced at or above
it. -/
theorem no_double_confirm
    (hr₁ : Run (Accepts env) (genesis env initialKey initialTimestamp chainId) tr₁ s₁)
    (hr₂ : Run (Accepts env) s₁ tr₂ s₂) (hw : 1 + tr₁.length + tr₂.length < 2 ^ 32)
    (hfix : ∀ t ∈ tr₂, t.pre.activeSchedule = s₁.activeSchedule)
    (hb : s₁.activeSchedule.producers.length ≤ maxProducers)
    (hconf : ∀ t ∈ tr₂, t.event.confirmed ≤ t.post.blockNum) : tr₂.Pairwise DisjointRanges ∧
      ∀ x, s₁.blockNum < x → x ≤ s₂.dposProposedIrreversibleBlocknum →
        ProducedBy s₁.activeSchedule tr₂ x (s₁.activeSchedule.producers.length * 2 / 3 + 1) := by
  have hw1 : (genesis env initialKey initialTimestamp chainId).blockNum + tr₁.length < 2 ^ 32 := by
    rw [blockNum_genesis]
    omega
  have hi := (chainInv_of_run (ChainInv.genesis _ _ _ _) hr₁ hw1).1
  have hnum := (blockNum_of_run hr₁ hw1).1
  rw [blockNum_genesis] at hnum
  have hw2 : s₁.blockNum + tr₂.length < 2 ^ 32 := by omega
  exact ⟨pairwise_disjoint_ranges hi hr₂ hw2 hfix hconf,
    exists_quorum_of_proposed hi hr₂ hw2 hfix hconf hb⟩

end Chains

/-- The three producers of the concrete chains become active with block 4. -/
def threeProducersPlan : List BlockPlan :=
  [⟨1, 0, none⟩, ⟨2, 0, some (demoSchedule 1 [1, 2, 3])⟩, ⟨3, 0, none⟩]

/-- Each of the three producers confirms what was produced since its last block. -/
def roundRobinPlan : List BlockPlan := [⟨36, 0, none⟩, ⟨48, 1, none⟩, ⟨60, 2, none⟩]

/-- The conditions are met by a chain on which a block becomes irreversible. -/
theorem no_double_confirm_roundRobin :
    ∃ tr₁ s₁ tr₂ s₂, Run (Accepts demoEnv) (demoGenesis 0) tr₁ s₁ ∧
      Run (Accepts demoEnv) s₁ tr₂ s₂ ∧ s₂.dposProposedIrreversibleBlocknum = 5 ∧
      ProducedBy s₁.activeSchedule tr₂ 5 3 := by
  obtain ⟨tr₁, s₁, hr1, hP1⟩ := exists_run_of_produceChain demoEnv (demoGenesis 0)
    threeProducersPlan
    (P := fun tr s => (tr.length = 3 ∧ s.blockNum = 4 ∧
      s.activeSchedule = demoSchedule 1 [1, 2, 3]) ∧
      ∃ r ∈ (produceChain demoEnv s roundRobinPlan).toOption, r.1.length = 3 ∧
        (∀ t ∈ r.1, t.pre.activeSchedule = demoSchedule 1 [1, 2, 3]) ∧
        (∀ t ∈ r.1, t.event.confirmed ≤ t.post.blockNum) ∧
        r.2.dposProposedIrreversibleBlocknum = 5)
    (by decide)
  obtain ⟨⟨hlen1, hnum1, hact⟩, ⟨tr₂, s₂⟩, hchain, hlen2, hfix, hconf, hprop⟩ := hP1
  dsimp only at hlen2 hprop
  have hr2 := run_of_produceChain (Result.eq_ok_of_toOption hchain)
  refine ⟨tr₁, s₁, tr₂, s₂, hr1, hr2, hprop, ?_⟩
  have hall := (no_double_confirm hr1 hr2 (by omega) (fun t ht => (hfix t ht).trans hact.symm)
    (by rw [hact]; decide) hconf).2 5 (by omega) (by omega)
  rw [hact] at hall ⊢
  exact hall

/-- Producer 1 alone: after its block 5, it claims to confirm 7 and then 8 earlier blocks, more
than there are, so that the lower end of the range wraps. -/
def overclaimingPlan : List BlockPlan := [⟨36, 0, none⟩, ⟨37, 7, none⟩, ⟨38, 8, none⟩]

/-- **A producer can confirm a block several times**: under the schedule of three producers, one
producer decrements the counter of its block 5 in blocks 5, 6 and 7, and thereby makes it the
proposed irreversible block although no other producer has produced. -/
theorem exists_chain_double_confirm :
    ∃ tr₁ s₁ tr₂ s₂, Run (Accepts demoEnv) (demoGenesis 0) tr₁ s₁ ∧
      Run (Accepts demoEnv) s₁ tr₂ s₂ ∧ s₁.activeSchedule = demoSchedule 1 [1, 2, 3] ∧
      (∀ t ∈ tr₂, t.pre.activeSchedule = demoSchedule 1 [1, 2, 3] ∧ t.event.producer = ⟨1⟩ ∧
        Confirms t 5) ∧
      tr₂.length = 3 ∧ s₁.blockNum = 4 ∧ s₂.dposProposedIrreversibleBlocknum = 5 := by
  obtain ⟨tr₁, s₁, hr1, hP1⟩ := exists_run_of_produceChain demoEnv (demoGenesis 0)
    threeProducersPlan
    (P := fun _ s => s.activeSchedule = demoSchedule 1 [1, 2, 3] ∧
      ∃ r ∈ (produceChain demoEnv s overclaimingPlan).toOption,
        (∀ t ∈ r.1, t.pre.activeSchedule = demoSchedule 1 [1, 2, 3] ∧ t.event.producer = ⟨1⟩ ∧
          Confirms t 5) ∧ r.1.length = 3 ∧ s.blockNum = 4 ∧
        r.2.dposProposedIrreversibleBlocknum = 5)
    (by decide)
  obtain ⟨hact, ⟨tr₂, s₂⟩, hchain, hP2⟩ := hP1
  exact ⟨tr₁, s₁, tr₂, s₂, hr1, run_of_produceChain (Result.eq_ok_of_toOption hchain), hact, hP2⟩

end Sysio.BlockHeaderState
