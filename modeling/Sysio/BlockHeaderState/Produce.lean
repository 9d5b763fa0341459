import Sysio.BlockHeaderState.Step

/-!
# Producing blocks

A producer builds its header from the pending state (`make_block_header`) and then finishes the
block with it.  `produceChain` does so for a list of planned blocks, which gives concrete chains to
look at; `exists_accepts` says when a state can be extended at all: an empty block in the next slot
is accepted whenever the scheduled producer passes the double confirmation check.
-/

namespace Sysio.BlockHeaderState

open Result PendingBlockHeaderState

variable {slot when_ : UInt32} {n : UInt16} {env : HeaderEnv} {s : BlockHeaderState}

/-! ### Planned chains -/

/-- What a producer decides about its block. -/
structure BlockPlan where
  slot : UInt32
  confirmed : UInt16
  newProducers : Option ProducerAuthoritySchedule
  deriving DecidableEq, Repr

/-- The transition of one planned block, its signature checked as for any other block. -/
def produce (env : HeaderEnv) (s : BlockHeaderState) (plan : BlockPlan) :
    Result (Transition BlockHeaderState HeaderInput) := do
  let p ← s.nextPending env plan.slot plan.confirmed
  let h ← p.makeBlockHeader env Sha256.zero Sha256.zero plan.newProducers [] none
  let s' ← s.next env ⟨h, ⟨0⟩⟩ [] false
  pure ⟨s, ⟨⟨h, ⟨0⟩⟩, [], false⟩, s'⟩

/-- The transitions of a list of planned blocks, and the state they lead to. -/
def produceChain (env : HeaderEnv) :
    BlockHeaderState → List BlockPlan →
      Result (List (Transition BlockHeaderState HeaderInput) × BlockHeaderState)
  | s, [] => .ok ([], s)
  | s, plan :: plans => do
    let t ← s.produce env plan
    let r ← produceChain env t.post plans
    pure (t :: r.1, r.2)

lemma produce_eq_ok {plan : BlockPlan} {t : Transition BlockHeaderState HeaderInput}
    (h : s.produce env plan = .ok t) : t.pre = s ∧ Accepts env s t.event t.post := by
  simp only [produce, bind_eq_ok, pure_eq_ok] at h
  obtain ⟨p, -, hd, -, s', hs', rfl⟩ := h
  exact ⟨rfl, hs'⟩

lemma run_of_produceChain {plans : List BlockPlan}
    {tr : List (Transition BlockHeaderState HeaderInput)} {s' : BlockHeaderState}
    (h : produceChain env s plans = .ok (tr, s')) : Run (Accepts env) s tr s' := by
  induction plans generalizing s tr with
  | nil =>
    cases h
    exact Run.nil
  | cons plan plans ih =>
    simp only [produceChain, bind_eq_ok, pure_eq_ok, Prod.mk.injEq] at h
    obtain ⟨t, ht, r, hr, rfl, rfl⟩ := h
    obtain ⟨hpre, hacc⟩ := produce_eq_ok ht
    have := Run.cons hacc (ih hr)
    rwa [← hpre] at this ⊢

lemma exists_run_of_produceChain (env : HeaderEnv) (s : BlockHeaderState) (plans : List BlockPlan)
    {P : List (Transition BlockHeaderState HeaderInput) → BlockHeaderState → Prop}
    [∀ tr s, Decidable (P tr s)]
    (h : (produceChain env s plans).toOption.any (fun r => P r.1 r.2) = true) :
    ∃ tr s', Run (Accepts env) s tr s' ∧ P tr s' := by
  obtain ⟨⟨tr, s'⟩, hr, hP⟩ := (Option.any_eq_true _ _).mp h
  exact ⟨tr, s', run_of_produceChain (eq_ok_of_toOption hr), of_decide_eq_true hP⟩

/-! ### Slots -/

/-- The following slot is accepted as one that is given; one that wraps to zero is read as "the
following one". -/
lemma nextSlot_succ (s : BlockHeaderState) :
    s.nextSlot (s.header.timestamp + 1) = .ok (s.header.timestamp + 1) := by
  unfold nextSlot
  split_ifs with h0
  · have hlt : s.header.timestamp < s.header.timestamp + 1 := by
      rw [UInt32.lt_iff_toNat_lt]
      have hne : (s.header.timestamp + 1).toNat ≠ 0 := fun h =>
        h0 (UInt32.toNat_inj.mp (by simpa using h))
      have := s.header.timestamp.toNat_lt
      rw [UInt32.toNat_add] at hne ⊢
      simp at hne ⊢
      omega
    rw [bind_eq_ok]
    exact ⟨(), sysAssert_eq_ok.mpr hlt, rfl⟩
  · rfl

/-- The slot that was chosen for a block is accepted when it is given. -/
lemma nextSlot_idem (h : s.nextSlot when_ = .ok slot) :
    s.nextSlot slot = .ok slot := by
  have h' := h
  unfold nextSlot at h'
  split_ifs at h' with h0
  · simp only [bind_eq_ok, pure_eq_ok] at h'
    obtain ⟨-, -, rfl⟩ := h'
    exact h
  · rw [pure_eq_ok] at h'
    rw [← h']
    exact s.nextSlot_succ

/-- The pending state of a block is found again from its slot and its `confirmed` field. -/
lemma nextPending_idem {p : PendingBlockHeaderState}
    (h : s.nextPending env when_ n = .ok p) :
    s.nextPending env p.timestamp p.confirmed = .ok p := by
  obtain ⟨slot, proauth, hslot, hsch, hchk, rfl⟩ := nextPending_eq_ok h
  show s.nextPending env slot n = _
  simp only [nextPending, bind_eq_ok]
  refine ⟨slot, nextSlot_idem hslot, ?_⟩
  rw [hsch]
  simp only [bind_eq_ok]
  exact ⟨(), hchk, rfl⟩

/-! ### Extending a chain -/

/-- **An empty block in the next slot is accepted** if the scheduled producer may confirm the range
it names. -/
theorem exists_accepts (env : HeaderEnv) {proauth : ProducerAuthority}
    (hs : s.getScheduledProducer (s.header.timestamp + 1) = some proauth)
    (hc : s.checkDoubleConfirm proauth.producerName n = .ok ()) :
    ∃ e s', Accepts env s e s' ∧ e.header.timestamp = s.header.timestamp + 1 ∧
      e.producer = proauth.producerName ∧ e.header.confirmed = n ∧
      ∀ schedule, ¬e.header.toBlockHeader.Announces schedule := by
  have hslot := s.nextSlot_succ
  have hp : s.nextPending env (s.header.timestamp + 1) n =
      .ok (s.pendingState env (s.header.timestamp + 1) n proauth) := by
    simp only [nextPending, bind_eq_ok]
    exact ⟨_, hslot, by simp [hs, hc]⟩
  let h : BlockHeader :=
    { timestamp := s.header.timestamp + 1
      producer := proauth.producerName
      confirmed := n
      previous := s.id
      transactionMroot := Sha256.zero
      actionMroot := Sha256.zero
      scheduleVersion := s.activeSchedule.version
      newProducers := none
      headerExtensions := [] }
  have hfinish : ∃ s', (s.pendingState env (s.header.timestamp + 1) n proauth).finishNext env
      ⟨h, ⟨0⟩⟩ [] true = .ok s' := by
    simp only [finishNext, finishNextUnsigned,
      BlockHeader.validateAndExtractHeaderExtensions, BlockHeader.extractExtensions,
      legacySchedule, extensionSchedule,
      PendingBlockHeaderState.activateFeatures, pendingState, sysAssert, h]
    exact ⟨_, rfl⟩
  obtain ⟨s', hs'⟩ := hfinish
  have hnext : s.next env ⟨h, ⟨0⟩⟩ [] true = .ok s' := by
    rw [next, bind_eq_ok]
    exact ⟨_, hp, hs'⟩
  refine ⟨⟨⟨h, ⟨0⟩⟩, [], true⟩, s', hnext, rfl, rfl, rfl, ?_⟩
  rintro schedule (⟨l, hl, -⟩ | hmem)
  · cases hl
  · cases hmem

/-! ### A concrete environment -/

/-- The key that signs every block of the concrete chains. -/
def demoKey : PublicKey := ⟨0, 1⟩

/-- A digest that tells headers apart by their slot only, and a key recovery that always finds
`demoKey`. -/
def demoEnv : HeaderEnv where
  digest h := { Sha256.zero with h3 := h.timestamp.toUInt64 }
  hashLegacySchedule _ := Sha256.zero
  hashSchedule _ := Sha256.zero
  hashPair _ _ := Sha256.zero
  recover _ _ := pure demoKey
  wtmsigDigest := none
  validator _ _ _ := pure ()

/-- The genesis state of the concrete chains, in the given slot. -/
def demoGenesis (slot : UInt32) : BlockHeaderState := genesis demoEnv demoKey slot Sha256.zero

/-- A schedule whose producers all sign with `demoKey`. -/
def demoSchedule (version : UInt32) (names : List UInt64) : ProducerAuthoritySchedule where
  version := version
  producers := names.map fun n => ⟨⟨n⟩, ⟨1, [⟨demoKey, 1⟩]⟩⟩

end Sysio.BlockHeaderState
