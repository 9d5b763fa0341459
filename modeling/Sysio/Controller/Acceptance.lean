import Sysio.Controller.Production

/-!
# Block acceptance and the local head

`createBlockStateI` checks the transaction root of a block with the digests that the *local* state
selects: those of the pending block if there is one, and of the head block otherwise.  Everything
else it checks depends on the block and its parent alone.  So two controllers agree about a block
when they agree about the feature `disable_compression_in_transaction_merkle`, and an honest block
is accepted exactly by those controllers that have it in the state that the producer had.  A block
that activates the feature itself is rejected by everyone whose head is still its parent.
-/

namespace Sysio.Controller

open BlockHeaderState

variable {c1 c2 completed started : Controller} {env : ControllerEnv}

/-! ### What the local state decides -/

/-- The feature on which the digests of receipts depend, as the controller sees it now. -/
def receiptFlag (c : Controller) : Bool :=
  c.isBuiltinActivated .disableCompressionInTransactionMerkle

/-- The choice of digests makes no difference for the block. -/
def RootsCoincide (env : ControllerEnv) (b : SignedBlock) : Prop :=
  env.calculateTrxMerkle b.transactions true = env.calculateTrxMerkle b.transactions false

variable {b : SignedBlock} {c : Controller}

lemma calculateTrxMerkle_congr (h : c1.receiptFlag = c2.receiptFlag ∨ RootsCoincide env b) :
    env.calculateTrxMerkle b.transactions c1.receiptFlag =
      env.calculateTrxMerkle b.transactions c2.receiptFlag := by
  rcases h with h | h
  · rw [h]
  · cases c1.receiptFlag <;> cases c2.receiptFlag
    · rfl
    · exact h.symm
    · exact h
    · rfl

/-- A different root needs different feature states. -/
lemma receiptFlag_or_rootsCoincide (h : env.calculateTrxMerkle b.transactions c1.receiptFlag =
      env.calculateTrxMerkle b.transactions c2.receiptFlag) :
    c1.receiptFlag = c2.receiptFlag ∨ RootsCoincide env b := by
  cases h1 : c1.receiptFlag <;> cases h2 : c2.receiptFlag
  · exact .inl rfl
  · rw [h1, h2] at h
    exact .inr h.symm
  · rw [h1, h2] at h
    exact .inr h
  · exact .inl rfl

lemma createBlockStateI_eq_ok {id : BlockId}
    {prev bsp : BlockHeaderState} : c.createBlockStateI env id b prev = .ok bsp ↔
      b.transactionMroot = env.calculateTrxMerkle b.transactions c.receiptFlag ∧
        ∃ sigs, b.extractAdditionalSignatures = .ok sigs ∧
          prev.next env.toHeaderEnv b.toSignedBlockHeader sigs false = .ok bsp ∧ id = bsp.id := by
  simp only [createBlockStateI, Result.bind_eq_ok, Result.pure_eq_ok, sysAssert_eq_ok]
  constructor
  · rintro ⟨-, hroot, sigs, hsigs, bsp', hnext, -, hid, rfl⟩
    exact ⟨hroot, sigs, hsigs, hnext, hid⟩
  · rintro ⟨hroot, sigs, hsigs, hnext, hid⟩
    exact ⟨(), hroot, sigs, hsigs, bsp, hnext, (), hid, rfl⟩

/-! ### Honest blocks -/

lemma validator_of_validateProtocolFeatures {when_ : UInt32} {n : UInt16}
    {p : PendingBlockHeaderState} {features : List Sha256}
    (hv : c.validateProtocolFeatures env features = .ok ())
    (hp : c.head.nextPending env.toHeaderEnv when_ n = .ok p) (hw : when_ ≠ 0) :
    env.validator p.timestamp p.prevActivatedProtocolFeatures features = .ok () := by
  have hlt := lt_timestamp_of_nextPending hp hw
  obtain ⟨slot, proauth, -, -, -, rfl⟩ := nextPending_eq_ok hp
  rw [env.validator_eq]
  unfold validateProtocolFeatures at hv
  split_ifs at hv with hnil
  · rw [hnil]
    rfl
  · rw [env.validator_eq] at hv
    -- the check was made at the time of the parent
    exact ProtocolFeatureSet.checkProtocolFeatures_congr (UInt32.le_of_lt hlt) (fun _ => Iff.rfl) hv

/-- A controller accepts a produced block exactly if it finds the same root. -/
lemma createBlockStateI_of_produceBlock {sc : SubChain}
    {plan : ProductionPlan} {cb : CompletedBlock} (hw : plan.when_ ≠ 0)
    (h : c.produceBlock env sc plan = .ok (started, completed))
    (hcb : completed.completedBlock = some cb) (v : Controller) :
    (∃ bsp, v.createBlockStateI env cb.blockState.id cb.block c.head.toBlockHeaderState = .ok bsp) ↔
      env.calculateTrxMerkle cb.block.transactions started.receiptFlag =
        env.calculateTrxMerkle cb.block.transactions v.receiptFlag := by
  obtain ⟨cb', p, header, hcb', hp, hsigned, hvalid, hfeatures, hroot, hheader, hexts⟩ :=
    produceBlock_eq_ok h
  obtain rfl : cb' = cb := Option.some.inj (hcb'.symm.trans hcb)
  have hok := validator_of_validateProtocolFeatures hvalid hp hw
  obtain ⟨hnext, hnodup⟩ := next_of_finishNextSigned hp hsigned fun fs hfs => hfeatures fs hfs ▸ hok
  have hroot' : cb'.block.transactionMroot =
      env.calculateTrxMerkle cb'.block.transactions started.receiptFlag := by
    rw [hheader, header_of_finishNextSigned hsigned, hroot]
    rfl
  have hsigs := SignedBlock.extractAdditionalSignatures_of_extensionsOf hexts hnodup
  simp only [createBlockStateI_eq_ok]
  constructor
  · rintro ⟨-, hmroot, -⟩
    exact hroot'.symm.trans hmroot
  · intro heq
    exact ⟨cb'.blockState, hroot'.trans heq, _, hsigs, hheader ▸ hnext, rfl⟩

/-- **Acceptance depends on the local feature state, and on nothing else that is local.**  Two
controllers that see the feature in the same state come to the same result about a block, and so do
any two when both kinds of digests give its root; a block that was produced over a parent is
accepted by exactly those controllers. -/
theorem createBlockStateI_outcome (env : ControllerEnv) :
    (∀ (c₁ c₂ : Controller) (id : BlockId) (b : SignedBlock) (prev : BlockHeaderState),
      c₁.receiptFlag = c₂.receiptFlag ∨ RootsCoincide env b →
        c₁.createBlockStateI env id b prev = c₂.createBlockStateI env id b prev) ∧
    ∀ (sc : SubChain) (c started completed : Controller) (plan : ProductionPlan)
      (cb : CompletedBlock),
      plan.when_ ≠ 0 → c.produceBlock env sc plan = .ok (started, completed) →
        completed.completedBlock = some cb → ∀ v : Controller,
          (∃ bsp, v.createBlockStateI env cb.blockState.id cb.block
              c.head.toBlockHeaderState = .ok bsp) ↔
            started.receiptFlag = v.receiptFlag ∨ RootsCoincide env cb.block := by
  constructor
  · intro c₁ c₂ id b prev h
    have hroot := calculateTrxMerkle_congr h
    unfold receiptFlag at hroot
    unfold createBlockStateI
    simp only [hroot]
  · intro sc c started completed plan cb hw h hcb v
    rw [createBlockStateI_of_produceBlock hw h hcb v]
    exact ⟨receiptFlag_or_rootsCoincide, calculateTrxMerkle_congr⟩

/-! ### A block that activates the feature -/

/-- A plugin without a settlement contract. -/
def demoSubChain : SubChain := ⟨⟨1⟩, [], Sha256.zero⟩

/-- A block with one transaction and the given feature activations. -/
def demoPlan (features : List Sha256) : ProductionPlan where
  when_ := 2
  confirmBlockCount := 0
  newProtocolFeatureActivations := features
  receipts := [⟨.packed ⟨[], .none, [], [], ⟨0, [], []⟩, ⟨0, 0, 0, 5⟩⟩, .executed, 100, 8⟩]
  actionReceiptDigests := []
  signer _ := [⟨0⟩]

/-- A block without activations is accepted by the controller that produced it. -/
theorem createBlockStateI_outcome_demo : ∃ started completed cb,
      demoController.produceBlock demoControllerEnv demoSubChain (demoPlan []) =
          .ok (started, completed) ∧
        completed.completedBlock = some cb ∧
        (∃ bsp, demoController.createBlockStateI demoControllerEnv cb.blockState.id cb.block
          demoController.head.toBlockHeaderState = .ok bsp) ∧
        demoController.createBlockStateI demoControllerEnv cb.blockState.id cb.block
            demoController.head.toBlockHeaderState =
          started.createBlockStateI demoControllerEnv cb.blockState.id cb.block
            demoController.head.toBlockHeaderState := by
  obtain ⟨⟨started, completed⟩, hp, cb, hcb, hflag⟩ :
      ∃ r, demoController.produceBlock demoControllerEnv demoSubChain (demoPlan []) = .ok r ∧
        ∃ cb ∈ r.2.completedBlock, demoController.receiptFlag = r.1.receiptFlag := by decide
  have hout := createBlockStateI_outcome demoControllerEnv
  refine ⟨started, completed, cb, hp, hcb, ?_, ?_⟩
  · exact (hout.2 _ _ _ _ _ _ (by decide) hp hcb demoController).mpr (.inl hflag.symm)
  · exact hout.1 _ _ _ _ _ (.inl hflag)

/-- **A block that activates the feature is rejected by a controller whose head is its parent**, and
accepted by the one that has started a block like it. -/
theorem createBlockStateI_activation_rejected :
    ∃ started completed cb, demoController.produceBlock demoControllerEnv demoSubChain
          (demoPlan [⟨0, 0, 0, 1⟩, ⟨0, 0, 0, 2⟩, ⟨0, 0, 0, 3⟩]) = .ok (started, completed) ∧
        completed.completedBlock = some cb ∧
        demoController.createBlockStateI demoControllerEnv cb.blockState.id cb.block
            demoController.head.toBlockHeaderState =
          .error ⟨.blockValidateException, "invalid block transaction merkle root"⟩ ∧
        ∃ bsp, started.createBlockStateI demoControllerEnv cb.blockState.id cb.block
          demoController.head.toBlockHeaderState = .ok bsp := by
  obtain ⟨⟨started, completed⟩, hp, cb, hcb, hrejected⟩ :
      ∃ r, demoController.produceBlock demoControllerEnv demoSubChain
          (demoPlan [⟨0, 0, 0, 1⟩, ⟨0, 0, 0, 2⟩, ⟨0, 0, 0, 3⟩]) = .ok r ∧
        ∃ cb ∈ r.2.completedBlock, demoController.createBlockStateI demoControllerEnv
            cb.blockState.id cb.block demoController.head.toBlockHeaderState =
          .error ⟨.blockValidateException, "invalid block transaction merkle root"⟩ := by decide
  exact ⟨started, completed, cb, hp, hcb, hrejected,
    (createBlockStateI_of_produceBlock (by decide) hp hcb started).mpr rfl⟩

end Sysio.Controller
