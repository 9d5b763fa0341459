import Sysio.BlockHeaderState.ConfirmCount
import Mathlib.Data.List.Chain

/-!
# Does irreversibility ever go backwards?

The irreversible block number is an order statistic of what the producers imply, so it drops in a
block exactly when too many of the other producers imply less than the parent block does
(`irreversible_le_iff`).  A block that does not promote a schedule leaves few enough of them
(`fewStale_of_not_promotes`).  A promotion to a smaller schedule need not: the producers it retains
keep what they last implied, however old that is, and may be a larger share of the new schedule than
they were of the old one.  `dposIrreversible_mono_iff` is the exact condition for a whole chain, and
`exists_chain_irreversible_decreases` a chain that violates it.
-/

namespace Sysio.BlockHeaderState

open List

variable {s s0 : BlockHeaderState} {v w x : ℕ}

/-! ### Stale producers -/

/-- The producers other than `producer` that imply less to be irreversible than `x`. -/
def staleBelow (s : BlockHeaderState) (producer : Name) (x : ℕ) : ℕ :=
  s.producerToLastImpliedIrb.rows.countP fun i => decide (i.1 ≠ producer ∧ i.2 < x)

/-- At most a third, rounded down from one less than their number, of the producers of the map
imply less than the irreversible block of `s`, not counting the producer of the next block. -/
def FewStale (s : BlockHeaderState) (producer : Name) : Prop :=
  s.staleBelow producer s.dposIrreversibleBlocknum ≤
    (s.producerToLastImpliedIrb.rows.length - 1) / 3

instance (s : BlockHeaderState) : DecidablePred s.FewStale := fun _ =>
  inferInstanceAs (Decidable (_ ≤ _))

lemma countP_impliedBlocknums (hx : x ≤ s.dposProposedIrreversibleBlocknum) (producer : Name) :
    (s.impliedBlocknums producer).countP (fun y => decide (y < x)) = s.staleBelow producer x := by
  rw [impliedBlocknums, countP_map, staleBelow]
  congr 1
  funext i
  by_cases hi : i.1 = producer
  · simp [hi, hx]
  · simp [hi]

lemma length_impliedBlocknums (s : BlockHeaderState) (producer : Name) :
    (s.impliedBlocknums producer).length = s.producerToLastImpliedIrb.rows.length :=
  length_map _

/-- A block that the producers propose is irreversible for the next block exactly when at most a
third of them imply less. -/
lemma le_calcDposLastIrreversible_iff (producer : Name)
    (hx : x ≤ s.dposProposedIrreversibleBlocknum) (hne : s.producerToLastImpliedIrb.rows ≠ []) :
    x ≤ s.calcDposLastIrreversible producer ↔
      s.staleBelow producer x ≤ (s.producerToLastImpliedIrb.rows.length - 1) / 3 := by
  rcases s.calcDposLastIrreversible_eq producer with ⟨hnil, -⟩ | hn
  · have := s.length_impliedBlocknums producer
    rw [hnil] at this
    exact absurd (length_eq_zero_iff.mp this.symm) hne
  · rw [le_nthElement_iff hn, countP_impliedBlocknums hx, length_impliedBlocknums]

/-! ### One header -/

section Step

variable {env : HeaderEnv} {s' : BlockHeaderState} {e : HeaderInput}

/-- **When one block keeps the irreversible block number**. -/
theorem irreversible_le_iff (hi : ChainInv s) (h : Accepts env s e s') :
    s.dposIrreversibleBlocknum ≤ s'.dposIrreversibleBlocknum ↔ s.FewStale e.producer := by
  by_cases hne : s.producerToLastImpliedIrb.rows = []
  · have hzero : s.dposIrreversibleBlocknum = 0 := by
      rcases hi.covers with hc | ⟨-, h0, -⟩
      · -- the producer is scheduled, so it would have an entry
        obtain ⟨v, hv⟩ := hc _ h.scheduled
        have := Table.mem_of_find? hv
        rw [Table.mem_iff, hne] at this
        cases this
      · exact h0
    simp [FewStale, staleBelow, hne, hzero]
  · rw [h.dposIrreversibleBlocknum_eq]
    exact le_calcDposLastIrreversible_iff _ hi.irreversible_le hne

lemma firstPreferred_iff (hi : ChainInv s) (h : Accepts env s e s') (hw : s.blockNum + 1 < 2 ^ 32) :
    firstPreferred s' s ↔ s.dposIrreversibleBlocknum ≤ s'.dposIrreversibleBlocknum := by
  have := hi.blockNum_eq h hw
  unfold firstPreferred
  omega

/-- The values of the producer map after a block by one of its producers. -/
lemma map_snd_upsert {m : ProducerMap} {producer : Name}
    (h : m.find? producer = some (producer, w)) : (m.upsert (producer, v)).rows.map Prod.snd =
      m.rows.map fun i => if i.1 = producer then v else i.2 := by
  rw [Table.upsert, if_neg (by simp [h])]
  unfold Table.mapRows
  rw [List.map_map]
  refine map_congr_left fun i _ => ?_
  simp only [Function.comp]
  split_ifs <;> rfl

lemma staleBelow_le (s : BlockHeaderState) (producer : Name) (x : ℕ) : s.staleBelow producer x ≤
      (s.producerToLastImpliedIrb.rows.map Prod.snd).countP fun y => decide (y < x) := by
  rw [staleBelow, countP_map]
  exact countP_mono_left fun i _ hi => by simp_all

/-- A block by a scheduled producer that promotes no schedule leaves few stale producers. -/
lemma fewStale_of_not_promotes (hi : ChainInv s) (h : Accepts env s e s')
    (hp : ¬Promotes ⟨s, e, s'⟩) (producer : Name) : s'.FewStale producer := by
  obtain ⟨v, hv⟩ := hi.covers_of_not_promotes hp _ h.scheduled
  have hvalues : s'.producerToLastImpliedIrb.rows.map Prod.snd = s.impliedBlocknums e.producer := by
    rw [h.lastImpliedIrb_eq, if_neg hp]
    exact map_snd_upsert hv
  have hlen : s'.producerToLastImpliedIrb.rows.length =
      (s.impliedBlocknums e.producer).length := by
    rw [← hvalues, length_map]
  refine (s'.staleBelow_le producer _).trans ?_
  rw [hvalues, hlen, h.dposIrreversibleBlocknum_eq]
  rcases s.calcDposLastIrreversible_eq e.producer with ⟨hnil, -⟩ | hn
  · simp [hnil]
  · exact (le_nthElement_iff hn _).mp le_rfl

end Step

/-! ### Whole chains -/

section Chains

variable {env : HeaderEnv} {initialKey : PublicKey} {initialTimestamp : UInt32} {chainId : Sha256}
  {tr : List (Transition BlockHeaderState HeaderInput)}

lemma fewStale_genesis (producer : Name) :
    (genesis env initialKey initialTimestamp chainId).FewStale producer :=
  Nat.zero_le _

/-- Only blocks after a promotion need the condition. -/
lemma forall_fewStale_iff (hi : ChainInv s0)
    (h0 : ∀ producer, s0.FewStale producer) (hr : Run (Accepts env) s0 tr s)
    (hw : s0.blockNum + tr.length < 2 ^ 32) : (∀ t ∈ tr, t.pre.FewStale t.event.producer) ↔
      tr.IsChain fun t t' => Promotes t → t'.pre.FewStale t'.event.producer := by
  induction hr with
  | nil => simp
  | @snoc tr s s' e hr hs ih =>
    rw [length_append, length_singleton] at hw
    have ih := ih (by omega)
    -- without a promotion just before, the condition holds anyway
    have hlast : s.FewStale e.producer ↔
        ∀ t ∈ tr.getLast?, Promotes t → s.FewStale e.producer := by
      constructor
      · intro h t _ _
        exact h
      · intro h
        cases ht : tr.getLast? with
        | none =>
          rw [getLast?_eq_none_iff] at ht
          subst ht
          rw [Run.eq_of_nil hr]
          exact h0 _
        | some t =>
          by_cases hp : Promotes t
          · exact h t ht hp
          · have hmem := mem_of_getLast? ht
            obtain ⟨hpre, hacc⟩ := (chainInv_of_run hi hr (by omega)).2 t hmem
            rw [← Run.post_of_getLast? hr ht]
            exact fewStale_of_not_promotes hpre hacc hp _
    rw [isChain_append, forall_mem_append, ih, forall_mem_singleton, hlast]
    simp

/-- **When irreversibility never goes backwards.**  In a chain from genesis whose block numbers fit
32 bits, the irreversible block number of every block is at least that of its parent, and then
every block is preferred to its parent, if and only if after each promotion at most a third of the
producers of the new schedule, not counting the one that produces, are retained with an implied
irreversible block below the parent's. -/
theorem dposIrreversible_mono_iff
    (hr : Run (Accepts env) (genesis env initialKey initialTimestamp chainId) tr s)
    (hw : 1 + tr.length < 2 ^ 32) :
    (∀ t ∈ tr, t.pre.dposIrreversibleBlocknum ≤ t.post.dposIrreversibleBlocknum ∧
      firstPreferred t.post t.pre) ↔
      tr.IsChain fun t t' => Promotes t → t'.pre.FewStale t'.event.producer := by
  have hi := ChainInv.genesis env initialKey initialTimestamp chainId
  have hw' : (genesis env initialKey initialTimestamp chainId).blockNum + tr.length < 2 ^ 32 := by
    rwa [blockNum_genesis]
  obtain ⟨-, htr⟩ := chainInv_of_run hi hr hw'
  obtain ⟨-, hfit⟩ := blockNum_of_run hr hw'
  rw [← forall_fewStale_iff hi fewStale_genesis hr hw']
  refine forall₂_congr fun t ht => ?_
  obtain ⟨hpre, hacc⟩ := htr t ht
  rw [firstPreferred_iff hpre hacc (hfit t ht).1, and_self, irreversible_le_iff hpre hacc]

end Chains

/-- The condition can be met by a chain with promotions. -/
theorem dposIrreversible_mono_growingPlan :
    ∃ tr s, Run (Accepts demoEnv) (demoGenesis 0) tr s ∧ (∃ t ∈ tr, Promotes t) ∧
      ∀ t ∈ tr, t.pre.dposIrreversibleBlocknum ≤ t.post.dposIrreversibleBlocknum ∧
        firstPreferred t.post t.pre := by
  obtain ⟨tr, s, hr, hP⟩ := exists_run_of_produceChain demoEnv (demoGenesis 0) growingPlan
    (P := fun tr _ => 1 + tr.length < 2 ^ 32 ∧ (∃ t ∈ tr, Promotes t) ∧
      tr.IsChain fun t t' => Promotes t → t'.pre.FewStale t'.event.producer)
    (by decide)
  exact ⟨tr, s, hr, hP.2.1, (dposIrreversible_mono_iff hr hP.1).mpr hP.2.2⟩

/-- Producers 1 to 4 replace the initial producer; producer 1 misses all its slots, and is one of
the two producers of the schedule that replaces them. -/
def shrinkingPlan : List BlockPlan :=
  [⟨1, 0, none⟩, ⟨2, 0, some (demoSchedule 1 [1, 2, 3, 4])⟩, ⟨3, 0, none⟩,
    ⟨12, 0, none⟩, ⟨24, 0, none⟩, ⟨36, 0, none⟩,
    ⟨60, 2, some (demoSchedule 2 [1, 5])⟩, ⟨72, 2, none⟩, ⟨84, 2, none⟩,
    ⟨108, 2, none⟩, ⟨120, 2, none⟩, ⟨132, 2, none⟩,
    ⟨156, 2, none⟩]

/-- **Irreversibility can go backwards**: the last block of this chain takes the irreversible block
number from 8 back to 3. -/
theorem exists_chain_irreversible_decreases : ∃ tr s, Run (Accepts demoEnv) (demoGenesis 0) tr s ∧
      ∃ t ∈ tr, t.pre.dposIrreversibleBlocknum = 8 ∧ t.post.dposIrreversibleBlocknum = 3 ∧
        ¬firstPreferred t.post t.pre :=
  exists_run_of_produceChain demoEnv (demoGenesis 0) shrinkingPlan (by decide)

end Sysio.BlockHeaderState
