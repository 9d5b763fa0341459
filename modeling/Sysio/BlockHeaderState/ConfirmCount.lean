import Sysio.BlockHeaderState.Chain
import Sysio.BlockHeaderState.Produce

/-!
# The confirmation counters along a chain

Every counter of a chain from genesis belongs to a block of the chain and says how many more
confirmations that block needs: counter and confirmations so far add up to what the schedule that
signed the block requires (`counter_origin`).  With it, `confirmCount_invariant` collects what the
counters and the two irreversible block numbers satisfy in every reachable state.

All of this holds as long as the block number fits its 32 bits.  `exists_wrapped_chain` shows that
the header state machine itself does not stop there: a chain of two producers is accepted beyond
the last block number, and its next state is block zero.
-/

namespace Sysio.BlockHeaderState

open List Table

variable {s s₀ : BlockHeaderState} {e : HeaderInput} {i x : ℕ} {c c' : UInt8}

/-! ### The required number of confirmations -/

variable {schedule : ProducerAuthoritySchedule} {s' : BlockHeaderState}

lemma toNat_requiredConfs (h : schedule.producers.length ≤ maxProducers) :
    (requiredConfs schedule).toNat = schedule.producers.length * 2 / 3 + 1 := by
  unfold maxProducers at h
  rw [requiredConfs, u32_of_lt (by omega), UInt8.toNat_ofNat']
  omega

lemma requiredConfs_ne_zero
    (h : schedule.producers.length ≤ maxProducers) : requiredConfs schedule ≠ 0 := by
  intro h0
  have := toNat_requiredConfs h
  rw [h0] at this
  simp at this

/-- The active and the pending schedule have at most `max_producers` producers. -/
def SchedulesBounded (s : BlockHeaderState) : Prop :=
  s.activeSchedule.producers.length ≤ maxProducers ∧
    s.pendingSchedule.schedule.producers.length ≤ maxProducers

/-- Every schedule that the header announces has at most `max_producers` producers, as
`set_proposed_producers` demands of a proposed schedule. -/
def HeaderInput.AnnouncesBounded (e : HeaderInput) : Prop :=
  ∀ schedule, e.header.toBlockHeader.Announces schedule → schedule.producers.length ≤ maxProducers

instance : DecidablePred HeaderInput.AnnouncesBounded := fun e =>
  inferInstanceAs (Decidable (∀ schedule, e.header.toBlockHeader.Announces schedule → _))

lemma SchedulesBounded.step {env : HeaderEnv} (hb : s.SchedulesBounded)
    (he : e.AnnouncesBounded) (h : Accepts env s e s') : s'.SchedulesBounded := by
  constructor
  · rw [h.activeSchedule_eq]
    split_ifs
    · exact hb.2
    · exact hb.1
  · rcases h.pendingSchedule_cases with hann | hempty | hsame
    · exact he _ hann
    · rw [hempty]
      exact Nat.zero_le _
    · rw [hsame]
      exact hb.2

/-! ### Block numbers along a chain -/

section Runs

variable {env : HeaderEnv} {tr : List (Transition BlockHeaderState HeaderInput)}

/-- While the block numbers fit, they count the headers. -/
lemma blockNum_of_run (hr : Run (Accepts env) s₀ tr s) (hw : s₀.blockNum + tr.length < 2 ^ 32) :
    s.blockNum = s₀.blockNum + tr.length ∧ ∀ t ∈ tr, t.pre.blockNum + 1 < 2 ^ 32 ∧
      s₀.blockNum ≤ t.pre.blockNum ∧ t.post.blockNum ≤ s.blockNum := by
  induction hr with
  | nil => simp
  | @snoc tr s s' e _ hs ih =>
    rw [length_append, length_singleton] at hw
    obtain ⟨hnum, hall⟩ := ih (by omega)
    have hnext : s'.blockNum = s.blockNum + 1 := by
      rw [hs.blockNum_eq_u32, u32_of_lt (by omega)]
    refine ⟨by rw [length_append, length_singleton]; omega, ?_⟩
    intro t ht
    rcases mem_append.mp ht with ht | ht
    · have := hall t ht
      omega
    · obtain rfl := mem_singleton.mp ht
      dsimp only
      omega

lemma chainInv_of_run (hi : ChainInv s₀) (hr : Run (Accepts env) s₀ tr s)
    (hw : s₀.blockNum + tr.length < 2 ^ 32) :
    ChainInv s ∧ ∀ t ∈ tr, ChainInv t.pre ∧ Accepts env t.pre t.event t.post :=
  Run.forall_transition (C := fun s _ _ => s.blockNum + 1 < 2 ^ 32) hi
    (fun _ _ _ hi hw h => hi.step h hw) hr fun t ht => ((blockNum_of_run hr hw).2 t ht).1

lemma length_confirmCount_le (hi : ChainInv s₀) (hr : Run (Accepts env) s₀ tr s)
    (hw : s₀.blockNum + tr.length < 2 ^ 32) :
    s.confirmCount.length ≤ s₀.confirmCount.length + tr.length := by
  induction hr with
  | nil => simp
  | @snoc tr s s' e hr hs ih =>
    rw [length_append, length_singleton] at hw
    have hold := ih (by omega)
    have hinv := (chainInv_of_run hi hr (by omega)).1
    have hnum := (blockNum_of_run hr (by omega)).1
    have hlen : s'.confirmCount.length ≤ s.grown.length :=
      (hinv.counterStep hs (by omega)).length_le
    have := length_grown_le s
    rw [length_append, length_singleton]
    omega

/-! ### Where a counter comes from -/

lemma countP_confirms_eq_zero (hr : Run (Accepts env) s₀ tr s)
    (hw : s₀.blockNum + tr.length < 2 ^ 32) (hx : s.blockNum < x) :
    tr.countP (fun t => decide (Confirms t x)) = 0 := by
  rw [countP_eq_zero]
  intro t ht hcf
  obtain ⟨hle, -, -⟩ := of_decide_eq_true hcf
  have hlast := ((blockNum_of_run hr hw).2 t ht).2.2
  omega

/-- A counter that a header leaves positive has lost one for its confirmation. -/
lemma toNat_counter_add {p : Prop} [Decidable p] (h0 : c ≠ 0)
    (hval : c' = if p then c - 1 else c) (h1 : p → c ≠ 1) :
    c' ≠ 0 ∧ c'.toNat + (if p then 1 else 0) = c.toNat := by
  subst hval
  split_ifs with hp
  · refine ⟨?_, toNat_sub_one h0⟩
    rw [Ne, sub_one_eq_zero_iff]
    exact h1 hp
  · exact ⟨h0, rfl⟩

/-- **A counter and the confirmations so far make up the requirement** of the schedule that signed
the block. -/
theorem counter_origin (hi : ChainInv s₀) (hr : Run (Accepts env) s₀ tr s)
    (hw : s₀.blockNum + tr.length < 2 ^ 32)
    (hb : ∀ t ∈ tr, t.pre.activeSchedule.producers.length ≤ maxProducers)
    (hx : s₀.blockNum < x) (hc : s.counterOf x = some c) : c ≠ 0 ∧ ∃ t ∈ tr, t.post.blockNum = x ∧
      c.toNat + tr.countP (fun t => decide (Confirms t x)) =
        (requiredConfs t.pre.activeSchedule).toNat := by
  induction hr generalizing c with
  | nil =>
    unfold counterOf at hc
    split_ifs at hc
    omega
  | @snoc tr s s' e hr hs ih =>
    rw [length_append, length_singleton] at hw
    have hinv := (chainInv_of_run hi hr (by omega)).1
    have hnum := (blockNum_of_run hr (by omega)).1
    have hstep := hinv.counterStep hs (by omega)
    have hlast : tr.countP (fun t => decide (Confirms t x)) +
        (if Confirms ⟨s, e, s'⟩ x then 1 else 0) =
        List.countP (fun t => decide (Confirms t x)) (tr ++ [⟨s, e, s'⟩]) := by
      simp [countP_cons]
    obtain ⟨c0, horigin, hval, h1⟩ := hstep.counter x c hc
    rcases horigin with ⟨hnew, rfl⟩ | ⟨-, hold⟩
    · -- the block itself: no earlier header can have confirmed it
      have hb' : s.activeSchedule.producers.length ≤ maxProducers := hb ⟨s, e, s'⟩ (by simp)
      obtain ⟨hne, hadd⟩ := toNat_counter_add (requiredConfs_ne_zero hb') hval h1
      have hzero : tr.countP (fun t => decide (Confirms t x)) = 0 := by
        apply countP_confirms_eq_zero hr (by omega)
        rw [hnew, hstep.blockNum_eq]
        exact Nat.lt_succ_self _
      refine ⟨hne, ⟨s, e, s'⟩, by simp, hnew.symm, ?_⟩
      rwa [← hlast, hzero, Nat.zero_add]
    · obtain ⟨hne0, t, ht, hnum_t, hsum⟩ :=
        ih (by omega) (fun t ht => hb t (mem_append_left _ ht)) hold
      obtain ⟨hne, hadd⟩ := toNat_counter_add hne0 hval h1
      refine ⟨hne, t, mem_append_left _ ht, hnum_t, ?_⟩
      rw [← hlast]
      omega

end Runs

/-- The entry at position `i` is the counter of block `block_num - (size - 1 - i)`. -/
lemma counterOf_position (hle : s.confirmCount.length ≤ s.blockNum)
    (hc : s.confirmCount[i]? = some c) :
    s.counterOf (s.blockNum - (s.confirmCount.length - 1 - i)) = some c := by
  have hi := (List.getElem?_eq_some_iff.mp hc).1
  rw [counterOf, if_pos (by omega), getElem?_reverse (by omega), ← hc]
  congr 1
  omega

/-! ### The invariant -/

section Genesis

variable {env : HeaderEnv} {initialKey : PublicKey} {initialTimestamp : UInt32} {chainId : Sha256}

lemma blockNum_genesis : (genesis env initialKey initialTimestamp chainId).blockNum = 1 := by
  show u32 (numFromId Sha256.zero + 1) = 1
  decide

lemma schedulesBounded_of_run {tr : List (Transition BlockHeaderState HeaderInput)}
    (hr : Run (Accepts env) (genesis env initialKey initialTimestamp chainId) tr s)
    (hb : ∀ t ∈ tr, t.event.AnnouncesBounded) :
    ∀ t ∈ tr, t.pre.activeSchedule.producers.length ≤ maxProducers := by
  have h0 : (genesis env initialKey initialTimestamp chainId).SchedulesBounded := by
    constructor <;> (show 1 ≤ maxProducers; decide)
  intro t ht
  exact ((Run.forall_transition (C := fun _ e _ => e.AnnouncesBounded) h0
    (fun _ _ _ hs he h => hs.step he h) hr hb).2 t ht).1.1

/-- **Invariant of the confirmation counters.**  In a chain from genesis whose block numbers fit
32 bits and whose schedules have at most `max_producers` producers, at most
`maximum_tracked_dpos_confirmations` blocks are tracked, every entry lies in `1..255`, the entry at
position `i` is that of block `block_num - (size - 1 - i)` and counts the confirmations that block
still needs, and the irreversible block numbers stay below the tracked window and below the
block. -/
theorem confirmCount_invariant {tr : List (Transition BlockHeaderState HeaderInput)}
    {s : BlockHeaderState}
    (hr : Run (Accepts env) (genesis env initialKey initialTimestamp chainId) tr s)
    (hb : ∀ t ∈ tr, t.event.AnnouncesBounded) (hw : 1 + tr.length < 2 ^ 32) :
    s.confirmCount.length ≤ maximumTrackedDposConfirmations ∧
      (∀ c ∈ s.confirmCount, 1 ≤ c.toNat ∧ c.toNat ≤ 255) ∧
      (∀ i c, s.confirmCount[i]? = some c → ∃ t ∈ tr,
        t.post.blockNum = s.blockNum - (s.confirmCount.length - 1 - i) ∧
        c.toNat + tr.countP (fun t' => decide (Confirms t' t.post.blockNum)) =
          t.pre.activeSchedule.producers.length * 2 / 3 + 1) ∧
      (∀ t ∈ tr, t.pre.dposProposedIrreversibleBlocknum ≤ t.post.dposProposedIrreversibleBlocknum) ∧
      s.dposProposedIrreversibleBlocknum ≤ s.blockNum - s.confirmCount.length ∧
      s.confirmCount.length ≤ s.blockNum ∧ (tr ≠ [] → s.dposIrreversibleBlocknum < s.blockNum) := by
  have hi := ChainInv.genesis env initialKey initialTimestamp chainId
  have hw' : (genesis env initialKey initialTimestamp chainId).blockNum + tr.length < 2 ^ 32 := by
    rwa [blockNum_genesis]
  obtain ⟨hinv, htr⟩ := chainInv_of_run hi hr hw'
  obtain ⟨hnum, hall⟩ := blockNum_of_run hr hw'
  have hbound := schedulesBounded_of_run hr hb
  have hlen := length_confirmCount_le hi hr hw'
  have hprop := hinv.proposed_le
  rw [blockNum_genesis] at hnum
  have hempty : (genesis env initialKey initialTimestamp chainId).confirmCount.length = 0 := rfl
  have hentry : ∀ i c, s.confirmCount[i]? = some c → c ≠ 0 ∧ ∃ t ∈ tr,
      t.post.blockNum = s.blockNum - (s.confirmCount.length - 1 - i) ∧
      c.toNat + tr.countP (fun t' => decide (Confirms t' t.post.blockNum)) =
        t.pre.activeSchedule.producers.length * 2 / 3 + 1 := by
    intro i c hc
    have hpos := (List.getElem?_eq_some_iff.mp hc).1
    obtain ⟨hne, t, ht, hx, hsum⟩ := counter_origin hi hr hw' hbound
      (by rw [blockNum_genesis]; omega) (counterOf_position (by omega) hc)
    refine ⟨hne, t, ht, hx, ?_⟩
    rwa [hx, ← toNat_requiredConfs (hbound t ht)]
  refine ⟨hinv.length_le, ?_, fun i c hc => (hentry i c hc).2, ?_, by omega, by omega, ?_⟩
  · intro c hc
    obtain ⟨i, hi⟩ := mem_iff_getElem?.mp hc
    have hne := (hentry i c hi).1
    have hpos : c.toNat ≠ 0 := fun h0 => hne (UInt8.toNat_inj.mp (by simpa using h0))
    have := c.toNat_lt
    omega
  · intro t ht
    obtain ⟨hpre, hacc⟩ := htr t ht
    exact (hpre.proposed_mono hacc (hall t ht).1).1
  · intro hne
    cases hr with
    | nil => exact absurd rfl hne
    | @snoc tr' s' _ e hr' hs =>
      obtain ⟨hpre, -⟩ := htr ⟨s', e, s⟩ (by simp)
      have h1 := hpre.irreversible_le_pre hs
      have h2 : s'.dposProposedIrreversibleBlocknum + s'.confirmCount.length ≤ s'.blockNum :=
        hpre.proposed_le
      have h3 := hpre.blockNum_eq hs (hall ⟨s', e, s⟩ (by simp)).1
      dsimp only at h1 h3
      omega

end Genesis

/-- Three blocks by the initial producer, the second of which announces three producers, and one
block by each of two of these. -/
def growingPlan : List BlockPlan :=
  [⟨1, 0, none⟩, ⟨2, 0, some (demoSchedule 1 [1, 2, 3])⟩, ⟨3, 0, none⟩, ⟨36, 0, none⟩,
    ⟨48, 1, none⟩]

theorem confirmCount_invariant_twoOfThree :
    ∃ tr s, Run (Accepts demoEnv) (demoGenesis 0) tr s ∧ (∀ t ∈ tr, t.event.AnnouncesBounded) ∧
      s.confirmCount = [1, 2] ∧ (∀ i c, s.confirmCount[i]? = some c → ∃ t ∈ tr,
        t.post.blockNum = s.blockNum - (s.confirmCount.length - 1 - i) ∧
        c.toNat + tr.countP (fun t' => decide (Confirms t' t.post.blockNum)) =
          t.pre.activeSchedule.producers.length * 2 / 3 + 1) := by
  obtain ⟨tr, s, hr, hP⟩ := exists_run_of_produceChain demoEnv (demoGenesis 0) growingPlan
    (P := fun tr s => (∀ t ∈ tr, t.event.AnnouncesBounded) ∧ 1 + tr.length < 2 ^ 32 ∧
      s.confirmCount = [1, 2])
    (by decide)
  obtain ⟨hb, hw, hcount⟩ := hP
  exact ⟨tr, s, hr, hb, hcount, (confirmCount_invariant hr hb hw).2.2.1⟩

/-! ### Beyond the last block number -/

/-- A producer that names no earlier block passes the double confirmation check. -/
lemma checkDoubleConfirm_zero (hi : ChainInv s) (hw : s.blockNum + 1 < 2 ^ 32) (producer : Name) :
    s.checkDoubleConfirm producer 0 = .ok () := by
  unfold checkDoubleConfirm
  cases h : s.producerToLastProduced.find? producer with
  | none => rfl
  | some r =>
    have hle := hi.produced_le r (mem_of_find? h)
    refine sysAssert_eq_ok.mpr ?_
    rw [u32_of_lt hw, subU32_of_le hw (by simp)]
    simp
    omega

/-- The two producers of the long chain. -/
def twoProducers : ProducerAuthoritySchedule := demoSchedule 1 [1, 2]

/-- A state of the long chain: the two producers are active, nothing is pending, and there has been
a block in every slot since genesis in slot 13. -/
structure EverySlot (s : BlockHeaderState) : Prop where
  inv : ChainInv s
  active : s.activeSchedule = twoProducers
  pending : s.pendingSchedule.schedule.producers = []
  slot : s.header.timestamp = UInt32.ofNat (12 + s.blockNum)

lemma EverySlot.not_promotes (h : EverySlot s) : ¬Promotes ⟨s, e, s'⟩ := by
  rintro ⟨hne, -⟩
  exact hne (by simp [h.pending])

lemma EverySlot.scheduled (h : EverySlot s) : s.getScheduledProducer (s.header.timestamp + 1) =
      twoProducers.producers[(12 + s.blockNum + 1) % 2 ^ 32 % 24 / 12]? := by
  have hslot : (s.header.timestamp + 1).toNat = (12 + s.blockNum + 1) % 2 ^ 32 := by
    rw [h.slot, UInt32.toNat_add, UInt32.toNat_ofNat']
    simp
  rw [getScheduledProducer, h.active, hslot]
  rfl

/-- The next block in the next slot, by the scheduled producer. -/
lemma EverySlot.next (h : EverySlot s) {n : UInt16} (proauth : ProducerAuthority)
    (hs : twoProducers.producers[(12 + s.blockNum + 1) % 2 ^ 32 % 24 / 12]? = some proauth)
    (hc : s.checkDoubleConfirm proauth.producerName n = .ok ()) :
    ∃ e s', Accepts demoEnv s e s' ∧ e.producer = proauth.producerName ∧
      (∀ schedule, ¬e.header.toBlockHeader.Announces schedule) ∧
      (s.blockNum + 1 < 2 ^ 32 → EverySlot s') := by
  obtain ⟨e, s', hacc, htime, hprod, -, hann⟩ := exists_accepts demoEnv (h.scheduled.trans hs) hc
  refine ⟨e, s', hacc, hprod, hann, fun hw => ?_⟩
  refine ⟨h.inv.step hacc hw, ?_, ?_, ?_⟩
  · rw [hacc.activeSchedule_eq, if_neg h.not_promotes, h.active]
  · rcases hacc.pendingSchedule_cases with hnew | hempty | hsame
    · exact absurd hnew (hann _)
    · exact hempty
    · rw [hsame]
      exact h.pending
  · obtain ⟨proauth, hn⟩ := next_eq_ok hacc
    rw [hn.header_eq, htime, h.slot, h.inv.blockNum_eq hacc hw]
    simp [UInt32.ofNat_add, UInt32.add_assoc]

/-- The chain can be continued block by block up to the last number. -/
lemma EverySlot.exists_run (h : EverySlot s₀) (k : ℕ) (hk : s₀.blockNum + k < 2 ^ 32) :
    ∃ tr s, Run (Accepts demoEnv) s₀ tr s ∧ EverySlot s ∧ s.blockNum = s₀.blockNum + k ∧
      ∀ t ∈ tr, ∀ schedule, ¬t.event.header.toBlockHeader.Announces schedule := by
  induction k with
  | zero => exact ⟨[], s₀, Run.nil, h, rfl, by simp⟩
  | succ k ih =>
    obtain ⟨tr, s, hr, hs, hnum, hann⟩ := ih (by omega)
    have hidx : (12 + s.blockNum + 1) % 2 ^ 32 % 24 / 12 < twoProducers.producers.length := by
      show _ < 2
      omega
    obtain ⟨e, s', hacc, -, hann', hnext⟩ := hs.next _ (getElem?_eq_getElem hidx)
      (checkDoubleConfirm_zero hs.inv (by omega) _)
    have hw : s.blockNum + 1 < 2 ^ 32 := by omega
    have hnum' := hs.inv.blockNum_eq hacc hw
    refine ⟨tr ++ [⟨s, e, s'⟩], s', hr.snoc hacc, hnext hw, by omega, ?_⟩
    rw [forall_mem_append, forall_mem_singleton]
    exact ⟨hann, hann'⟩

/-- The initial producer announces the two producers, which become active with block 4. -/
def twoProducersPlan : List BlockPlan :=
  [⟨14, 0, none⟩, ⟨15, 0, some twoProducers⟩, ⟨16, 0, none⟩]

lemma exists_everySlot :
    ∃ tr s, Run (Accepts demoEnv) (demoGenesis 13) tr s ∧ EverySlot s ∧ s.blockNum = 4 ∧
      ∀ t ∈ tr, ∀ schedule, t.event.header.toBlockHeader.Announces schedule →
        schedule.producers ≠ [] ∧ schedule.producers.length ≤ maxProducers := by
  obtain ⟨tr, s, hr, hP⟩ := exists_run_of_produceChain demoEnv (demoGenesis 13) twoProducersPlan
    (P := fun tr s => tr.length = 3 ∧ s.activeSchedule = twoProducers ∧
      s.pendingSchedule.schedule.producers = [] ∧ s.header.timestamp = 16 ∧ s.blockNum = 4 ∧
      ∀ t ∈ tr, ∀ schedule, t.event.header.toBlockHeader.Announces schedule →
        schedule.producers ≠ [] ∧ schedule.producers.length ≤ maxProducers)
    (by decide)
  obtain ⟨hlen, hact, hpend, htime, hnum, hann⟩ := hP
  have hinv : ChainInv s := (chainInv_of_run (ChainInv.genesis _ _ _ _) hr (by
    rw [blockNum_genesis, hlen]
    norm_num)).1
  exact ⟨tr, s, hr, ⟨hinv, hact, hpend, by rw [htime, hnum]; rfl⟩, hnum, hann⟩

/-- **The block number wraps.**  Of two producers that fill every slot, the first produces block
`2 ^ 32 - 1` and the second one more, which names its parent as confirmed: the lower end of the
range that the double confirmation check looks at wraps together with the block number, so the
block is accepted, as block zero.  No number is below that of this block. -/
theorem exists_wrapped_chain : ∃ tr s, Run (Accepts demoEnv) (demoGenesis 13) tr s ∧
      (∀ t ∈ tr, ∀ schedule, t.event.header.toBlockHeader.Announces schedule →
        schedule.producers ≠ [] ∧ schedule.producers.length ≤ maxProducers) ∧
      tr ≠ [] ∧ s.blockNum = 0 ∧ ¬s.dposIrreversibleBlocknum < s.blockNum := by
  obtain ⟨tr0, s₀, hr0, hs0, hnum0, hann0⟩ := exists_everySlot
  obtain ⟨tr1, s1, hr1, hs1, hnum1, hann1⟩ := hs0.exists_run (2 ^ 32 - 6) (by omega)
  have hnum1 : s1.blockNum = 2 ^ 32 - 2 := by omega
  -- block `2 ^ 32 - 1` falls into slot 11, a slot of the first producer
  obtain ⟨e2, s2, hacc2, hprod2, hann2, hnext2⟩ :=
    hs1.next ⟨⟨1⟩, ⟨1, [⟨demoKey, 1⟩]⟩⟩ (by rw [hnum1]; rfl)
      (checkDoubleConfirm_zero hs1.inv (by omega) _)
  have hs2 : EverySlot s2 := hnext2 (by omega)
  have hnum2 : s2.blockNum = 2 ^ 32 - 1 := by
    have := hs1.inv.blockNum_eq hacc2 (by omega)
    omega
  -- the second producer has not produced since, and names one earlier block
  have hcheck : s2.checkDoubleConfirm ⟨2⟩ 1 = .ok () := by
    have hmap := hacc2.lastProduced_eq
    rw [if_neg hs1.not_promotes, hprod2] at hmap
    have hother : (⟨1⟩ : Name) ≠ ⟨2⟩ := by decide
    unfold checkDoubleConfirm
    rw [hmap, find?_upsert, if_neg hother]
    cases h : s1.producerToLastProduced.find? ⟨2⟩ with
    | none => rfl
    | some r =>
      have hle := hs1.inv.produced_le r (mem_of_find? h)
      refine sysAssert_eq_ok.mpr ?_
      have hbound : subU32 (u32 (s2.blockNum + 1)) (1 : UInt16).toNat = 2 ^ 32 - 1 := by
        rw [hnum2]
        decide
      rw [hbound]
      omega
  obtain ⟨e3, s3, hacc3, -, hann3, -⟩ :=
    hs2.next ⟨⟨2⟩, ⟨1, [⟨demoKey, 1⟩]⟩⟩ (by rw [hnum2]; rfl) hcheck
  have hnum3 : s3.blockNum = 0 := by
    rw [hacc3.blockNum_eq_u32, hnum2]
    decide
  refine ⟨_, s3, (hr0.append hr1).snoc hacc2 |>.snoc hacc3, ?_, by simp, hnum3, by omega⟩
  simp only [forall_mem_append, forall_mem_singleton]
  refine ⟨⟨⟨hann0, ?_⟩, ?_⟩, ?_⟩
  · intro t ht schedule h
    exact absurd h (hann1 t ht schedule)
  · intro schedule h
    exact absurd h (hann2 schedule)
  · intro schedule h
    exact absurd h (hann3 schedule)

end Sysio.BlockHeaderState
