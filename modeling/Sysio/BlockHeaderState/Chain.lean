import Sysio.BlockHeaderState.Counters

/-!
# The invariant of a header chain

`ChainInv` is what every state of a chain satisfies whose block numbers have not wrapped: the
counters stay in the tracked window above the proposed irreversible block, no producer implies more
than the proposal, and the map of implied blocks covers the active schedule.  It is kept by every
accepted header (`ChainInv.step`), whatever schedules the headers announce.
-/

namespace Sysio.BlockHeaderState

open Table List

variable {r : Name × ℕ} {bound fallback : ℕ}

/-! ### The rebuilt producer maps -/

lemma find?_foldl_upsert (value : Name → ℕ) (names : List Name) (m : ProducerMap) (n : Name) :
    (names.foldl (fun m pro => m.upsert (pro, value pro)) m).find? n =
      if n ∈ names then some (n, value n) else m.find? n := by
  induction names generalizing m with
  | nil => simp
  | cons p names ih =>
    rw [foldl_cons, ih, find?_upsert]
    by_cases hn : n ∈ names
    · simp [hn]
    · rcases eq_or_ne p n with rfl | hp
      · simp [hn]
      · simp [hn, hp, hp.symm]

/-- The rebuilt map holds each producer of the schedule with its value, and nobody else. -/
lemma find?_rebuildMap (schedule : ProducerAuthoritySchedule) (value : Name → ℕ) (n : Name) :
    (rebuildMap schedule value).find? n =
      if n ∈ schedule.names then some (n, value n) else none := by
  rw [rebuildMap, find?_foldl_upsert, find?_empty]

variable {schedule : ProducerAuthoritySchedule} {m : ProducerMap}

lemma mem_rebuildMap {value : Name → ℕ} :
    r ∈ rebuildMap schedule value ↔ r.1 ∈ schedule.names ∧ r.2 = value r.1 := by
  have hfind : r ∈ rebuildMap schedule value ↔ (rebuildMap schedule value).find? r.1 = some r := by
    rw [Table.find?_eq_some]
    simp
  rw [hfind, find?_rebuildMap]
  split_ifs with hn
  · simp [hn, Prod.ext_iff, eq_comm]
  · simp [hn]

lemma existingOr_le (hm : ∀ r ∈ m, r.2 ≤ bound)
    (hf : fallback ≤ bound) (pro : Name) : existingOr m fallback pro ≤ bound := by
  unfold existingOr
  cases h : m.find? pro with
  | none => simpa using hf
  | some r => simpa using hm r (mem_of_find? h)

lemma forall_upsert_le (hm : ∀ r ∈ m, r.2 ≤ bound)
    (hr : r.2 ≤ bound) : ∀ q ∈ m.upsert r, q.2 ≤ bound := by
  intro q hq
  rcases mem_of_mem_upsert hq with ⟨hq, -⟩ | rfl
  · exact hm q hq
  · exact hr

/-- The map `m` has an entry for every producer of the schedule. -/
def Covers (m : ProducerMap) (schedule : ProducerAuthoritySchedule) : Prop :=
  ∀ n ∈ schedule.names, ∃ v, m.find? n = some (n, v)

lemma Covers.upsert (h : Covers m schedule) (r : Name × ℕ) : Covers (m.upsert r) schedule := by
  intro n hn
  rw [find?_upsert]
  split_ifs with hr
  · exact ⟨r.2, by rw [← hr]⟩
  · exact h n hn

lemma covers_rebuildMap (schedule : ProducerAuthoritySchedule) (value : Name → ℕ) :
    Covers (rebuildMap schedule value) schedule := by
  intro n hn
  exact ⟨value n, by rw [find?_rebuildMap, if_pos hn]⟩

/-! ### The irreversible block number -/

/-- What the producers imply to be irreversible, with the new value of `producer`. -/
def impliedBlocknums (s : BlockHeaderState) (producer : Name) : List ℕ :=
  s.producerToLastImpliedIrb.rows.map fun i =>
    if i.1 = producer then s.dposProposedIrreversibleBlocknum else i.2

lemma calcDposLastIrreversible_def (s : BlockHeaderState) (producer : Name) :
    s.calcDposLastIrreversible producer = if (s.impliedBlocknums producer).length = 0 then 0
      else (nthElement (s.impliedBlocknums producer)
        (((s.impliedBlocknums producer).length - 1) / 3)).getD 0 := rfl

lemma calcDposLastIrreversible_eq (s : BlockHeaderState) (producer : Name) :
    (s.impliedBlocknums producer = [] ∧ s.calcDposLastIrreversible producer = 0) ∨
      nthElement (s.impliedBlocknums producer) (((s.impliedBlocknums producer).length - 1) / 3) =
        some (s.calcDposLastIrreversible producer) := by
  rw [calcDposLastIrreversible_def]
  rcases Nat.eq_zero_or_pos (s.impliedBlocknums producer).length with h0 | hpos
  · exact .inl ⟨length_eq_zero_iff.mp h0, if_pos h0⟩
  · right
    obtain ⟨a, ha⟩ := nthElement_isSome
      (l := s.impliedBlocknums producer) (i := ((s.impliedBlocknums producer).length - 1) / 3)
      (by omega)
    rw [if_neg (by omega), ha, Option.getD_some]

lemma calcDposLastIrreversible_le {s : BlockHeaderState}
    (h : ∀ r ∈ s.producerToLastImpliedIrb, r.2 ≤ s.dposProposedIrreversibleBlocknum)
    (producer : Name) :
    s.calcDposLastIrreversible producer ≤ s.dposProposedIrreversibleBlocknum := by
  rcases s.calcDposLastIrreversible_eq producer with ⟨-, h0⟩ | hn
  · omega
  · obtain ⟨r, hr, heq⟩ := mem_map.mp (mem_of_nthElement hn)
    rw [← heq]
    split_ifs
    · exact le_rfl
    · exact h r hr

/-! ### One header, field by field -/

section Fields

variable {env : HeaderEnv} {s s' : BlockHeaderState} {e : HeaderInput}

def Promotes (t : Transition BlockHeaderState HeaderInput) : Prop :=
  t.pre.promotes t.post.dposIrreversibleBlocknum

instance : DecidablePred Promotes := fun _ => inferInstanceAs (Decidable (_ ∧ _))

section

variable (h : Accepts env s e s')
include h

lemma Accepts.scheduled : e.producer ∈ s.activeSchedule.names := by
  obtain ⟨proauth, h⟩ := next_eq_ok h
  rw [h.producer_eq]
  exact mem_map_of_mem (mem_of_getElem? h.scheduled)

lemma Accepts.blockNum_eq_u32 : s'.blockNum = u32 (s.blockNum + 1) := by
  obtain ⟨proauth, h⟩ := next_eq_ok h
  exact congrArg (·.blockNum) h.common_eq

lemma Accepts.dposIrreversibleBlocknum_eq :
    s'.dposIrreversibleBlocknum = s.calcDposLastIrreversible e.producer := by
  obtain ⟨proauth, h⟩ := next_eq_ok h
  rw [h.producer_eq]
  exact congrArg (·.dposIrreversibleBlocknum) h.common_eq

lemma Accepts.activeSchedule_eq : s'.activeSchedule =
      if Promotes ⟨s, e, s'⟩ then s.pendingSchedule.schedule else s.activeSchedule := by
  have hirr := h.dposIrreversibleBlocknum_eq
  obtain ⟨proauth, h⟩ := next_eq_ok h
  simp only [Promotes, hirr, h.producer_eq]
  exact congrArg (·.activeSchedule) h.common_eq

lemma Accepts.lastImpliedIrb_eq : s'.producerToLastImpliedIrb =
      if Promotes ⟨s, e, s'⟩ then
        s.promoteLastImpliedIrb s.pendingSchedule.schedule e.producer s'.dposIrreversibleBlocknum
      else
        s.producerToLastImpliedIrb.upsert (e.producer, s.dposProposedIrreversibleBlocknum) := by
  have hirr := h.dposIrreversibleBlocknum_eq
  obtain ⟨proauth, h⟩ := next_eq_ok h
  simp only [Promotes, hirr, h.producer_eq]
  exact congrArg (·.producerToLastImpliedIrb) h.common_eq

lemma Accepts.lastProduced_eq : s'.producerToLastProduced =
      if Promotes ⟨s, e, s'⟩ then
        s.promoteLastProduced s.pendingSchedule.schedule e.producer s'.blockNum
          s'.dposIrreversibleBlocknum
      else s.producerToLastProduced.upsert (e.producer, s'.blockNum) := by
  have hirr := h.dposIrreversibleBlocknum_eq
  have hnum := h.blockNum_eq_u32
  obtain ⟨proauth, h⟩ := next_eq_ok h
  simp only [Promotes, hirr, hnum, h.producer_eq]
  exact congrArg (·.producerToLastProduced) h.common_eq

/-- The pending schedule is announced by the header, or empty, or the one before. -/
lemma Accepts.pendingSchedule_cases :
    e.header.toBlockHeader.Announces s'.pendingSchedule.schedule ∨
      s'.pendingSchedule.schedule.producers = [] ∨
      s'.pendingSchedule.schedule = s.pendingSchedule.schedule := by
  obtain ⟨proauth, h⟩ := next_eq_ok h
  obtain ⟨announced, hpend, hann⟩ := h.pending_eq
  rw [hpend]
  cases announced with
  | some a => exact .inl (hann a.1 a.2 rfl)
  | none =>
    right
    unfold PendingBlockHeaderState.nextPendingSchedule
    split_ifs
    · exact .inl rfl
    · exact .inr rfl

end

end Fields

/-! ### The invariant -/

/-- What holds in every state of a chain whose block numbers have not wrapped. -/
structure ChainInv (s : BlockHeaderState) : Prop where
  length_le : s.confirmCount.length ≤ maximumTrackedDposConfirmations
  /-- Every tracked block is above the proposed irreversible one. -/
  proposed_le : s.dposProposedIrreversibleBlocknum + s.confirmCount.length ≤ s.blockNum
  implied_le : ∀ r ∈ s.producerToLastImpliedIrb, r.2 ≤ s.dposProposedIrreversibleBlocknum
  irreversible_le : s.dposIrreversibleBlocknum ≤ s.dposProposedIrreversibleBlocknum
  produced_le : ∀ r ∈ s.producerToLastProduced, r.2 ≤ s.blockNum
  /-- Every scheduled producer has an entry, except at genesis, where the maps are empty and the
  next block promotes the initial schedule. -/
  covers : Covers s.producerToLastImpliedIrb s.activeSchedule ∨
    (s.producerToLastImpliedIrb = Table.empty ∧ s.dposIrreversibleBlocknum = 0 ∧ s.promotes 0)

lemma ChainInv.genesis (env : HeaderEnv) (initialKey : PublicKey) (initialTimestamp : UInt32)
    (chainId : Sha256) : ChainInv (genesis env initialKey initialTimestamp chainId) where
  length_le := by simp [BlockHeaderState.genesis]
  proposed_le := by simp [BlockHeaderState.genesis]
  implied_le := by simp [BlockHeaderState.genesis]
  irreversible_le := by simp [BlockHeaderState.genesis]
  produced_le := by simp [BlockHeaderState.genesis]
  covers := .inr ⟨rfl, rfl, Nat.one_ne_zero, le_rfl⟩

section Step

variable {env : HeaderEnv} {s s' : BlockHeaderState} {e : HeaderInput}

section

variable (hi : ChainInv s)
include hi

section

variable (h : Accepts env s e s')
include h

lemma ChainInv.counterStep (hw : s.blockNum + 1 < 2 ^ 32) : CounterStep ⟨s, e, s'⟩ := by
  have := hi.proposed_le
  exact BlockHeaderState.counterStep h hw (by omega)

lemma ChainInv.blockNum_eq (hw : s.blockNum + 1 < 2 ^ 32) : s'.blockNum = s.blockNum + 1 :=
  (hi.counterStep h hw).blockNum_eq

/-- The proposed irreversible block never decreases and stays below the tracked window. -/
lemma ChainInv.proposed_mono (hw : s.blockNum + 1 < 2 ^ 32) :
    s.dposProposedIrreversibleBlocknum ≤ s'.dposProposedIrreversibleBlocknum ∧
      s'.dposProposedIrreversibleBlocknum + s'.confirmCount.length ≤ s'.blockNum := by
  have hstep := hi.counterStep h hw
  have hnum : s'.blockNum = s.blockNum + 1 := hstep.blockNum_eq
  have hlen : s'.confirmCount.length ≤ s.grown.length := hstep.length_le
  have hgrown := length_grown_le s
  have hold := hi.proposed_le
  rcases hstep.proposal with hsame | ⟨⟨-, -, hwin⟩, heq, -⟩
  · dsimp only at hsame
    omega
  · dsimp only at hwin heq
    omega

lemma ChainInv.irreversible_le_pre :
    s'.dposIrreversibleBlocknum ≤ s.dposProposedIrreversibleBlocknum := by
  rw [h.dposIrreversibleBlocknum_eq]
  exact calcDposLastIrreversible_le hi.implied_le _

end

/-- After genesis, a step that does not promote starts from a state that has all its entries. -/
lemma ChainInv.covers_of_not_promotes (hp : ¬Promotes ⟨s, e, s'⟩) :
    Covers s.producerToLastImpliedIrb s.activeSchedule := by
  rcases hi.covers with hc | ⟨-, -, hne, hle⟩
  · exact hc
  · exact absurd ⟨hne, hle.trans (Nat.zero_le _)⟩ hp

lemma ChainInv.implied_le_pre (h : Accepts env s e s') :
    ∀ r ∈ s'.producerToLastImpliedIrb, r.2 ≤ s.dposProposedIrreversibleBlocknum := by
  have hirr := hi.irreversible_le_pre h
  rw [h.lastImpliedIrb_eq]
  split_ifs
  · intro r hr
    obtain ⟨-, hval⟩ := mem_rebuildMap.mp hr
    rw [hval]
    split_ifs
    · exact le_rfl
    · exact existingOr_le hi.implied_le hirr _
  · exact forall_upsert_le hi.implied_le le_rfl

lemma ChainInv.produced_le_post (h : Accepts env s e s')
    (hw : s.blockNum + 1 < 2 ^ 32) : ∀ r ∈ s'.producerToLastProduced, r.2 ≤ s'.blockNum := by
  have hnum := hi.blockNum_eq h hw
  have hold : ∀ r ∈ s.producerToLastProduced, r.2 ≤ s'.blockNum := by
    intro r hr
    have := hi.produced_le r hr
    omega
  have hirr : s'.dposIrreversibleBlocknum ≤ s'.blockNum := by
    have h1 := hi.irreversible_le_pre h
    have h2 := hi.proposed_le
    omega
  rw [h.lastProduced_eq]
  split_ifs
  · refine forall_upsert_le (fun r hr => ?_) le_rfl
    obtain ⟨-, hval⟩ := mem_rebuildMap.mp hr
    rw [hval]
    split_ifs
    · exact le_rfl
    · exact existingOr_le hold hirr _
  · exact forall_upsert_le hold le_rfl

/-- **Every accepted header keeps the invariant**, as long as the block number does not wrap. -/
theorem ChainInv.step (h : Accepts env s e s') (hw : s.blockNum + 1 < 2 ^ 32) : ChainInv s' := by
  have hprop := hi.proposed_mono h hw
  refine ⟨?_, hprop.2, ?_, ?_, hi.produced_le_post h hw, .inl ?_⟩
  · exact (hi.counterStep h hw).length_le.trans (length_grown_le_max hi.length_le)
  · intro r hr
    exact (hi.implied_le_pre h r hr).trans hprop.1
  · exact (hi.irreversible_le_pre h).trans hprop.1
  · rw [h.lastImpliedIrb_eq, h.activeSchedule_eq]
    by_cases hp : Promotes ⟨s, e, s'⟩
    · rw [if_pos hp, if_pos hp]
      exact covers_rebuildMap _ _
    · rw [if_neg hp, if_neg hp]
      exact (hi.covers_of_not_promotes hp).upsert _

end

end Step

end Sysio.BlockHeaderState
