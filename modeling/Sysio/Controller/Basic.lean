import Sysio.Block
import Sysio.ForkDatabase.Basic

/-!
# The controller: building blocks and taking them in

The controller holds the fork database, the head block and at most one pending block.  A pending
block goes through three stages: receipts are added while it is *building*, its header is made when
it is *assembled*, and it is *completed* when it has been signed.  `createBlockStateI` is the way in
for a block that was built elsewhere; it runs in other threads, while the head moves.

What transactions do to the database is not part of this model.  They enter through the receipts
and the digests of executed actions that they leave in the pending block.
-/

namespace Sysio

/-! ### Pending blocks -/

inductive BlockStatus
  | irreversible
  | validated
  | complete
  | incomplete
  | ephemeral
  deriving DecidableEq, Repr

structure BuildingBlock where
  pendingBlockHeaderState : PendingBlockHeaderState
  newPendingProducerSchedule : Option ProducerAuthoritySchedule
  newProtocolFeatureActivations : List Sha256
  pendingTrxReceipts : List TransactionReceipt
  /-- The root of a block that is validated, or the digests of the receipts of a new one. -/
  trxMrootOrReceiptDigests : Sha256 ⊕ List Sha256
  actionReceiptDigests : List Sha256
  sHeader : Option SHeader

structure AssembledBlock where
  id : BlockId
  pendingBlockHeaderState : PendingBlockHeaderState
  unsignedBlock : SignedBlock

structure CompletedBlock where
  blockState : BlockHeaderState
  block : SignedBlock

/-- `block_stage_type`. -/
inductive BlockStage
  | building (bb : BuildingBlock)
  | assembled (ab : AssembledBlock)
  | completed (cb : CompletedBlock)

structure PendingState where
  blockStage : BlockStage
  blockStatus : BlockStatus

/-- `controller_impl`, with what building and accepting blocks reads. -/
structure Controller where
  forkDb : ForkDatabase
  head : BlockState
  pending : Option PendingState
  protocolFeatures : ProtocolFeatureManager
  /-- `protocol_state_object::preactivated_protocol_features`. -/
  preactivatedProtocolFeatures : List Sha256
  /-- `proposed_schedule_block_num` and `proposed_schedule` of the global properties. -/
  proposedSchedule : Option (ℕ × ProducerAuthoritySchedule)

namespace Controller

/-- `is_builtin_activated`: asked for the pending block if there is one, and for the head
otherwise. -/
def isBuiltinActivated (c : Controller) (f : BuiltinProtocolFeature) : Bool :=
  let currentBlockNum := if c.pending.isSome then u32 (c.head.blockNum + 1) else c.head.blockNum
  c.protocolFeatures.isBuiltinActivated f currentBlockNum

/-! ### Starting a block -/

/-- The loop of `start_block` over the features to activate; `seen` are those already activated in
this block. -/
def activateFeatures (preactivated : List Sha256) (blockNum : ℕ) :
    List Sha256 → List Sha256 → ProtocolFeatureManager → Result ProtocolFeatureManager
  | _, [], m => .ok m
  | seen, d :: ds, m => do
    let f ← m.protocolFeatureSet.getProtocolFeature d
    sysAssert (d ∈ preactivated ∨ d ∈ seen ∨ f.preactivationRequired = false)
      .protocolFeatureException
      "attempted to activate protocol feature without prior required preactivation"
    sysAssert (d ∉ seen) .blockValidateException
      "attempted duplicate activation within a single block"
    let m ← m.activateFeature d blockNum
    activateFeatures preactivated blockNum (d :: seen) ds m

/-- The proposed schedule becomes pending once the block that proposed it is irreversible and
there is room. -/
def promoteProposed (c : Controller) (pbhs : PendingBlockHeaderState) :
    Result (Option ProducerAuthoritySchedule) :=
  match c.proposedSchedule with
  | none => pure none
  | some (blockNum, schedule) =>
    if blockNum ≤ pbhs.dposIrreversibleBlocknum ∧
        pbhs.prevPendingSchedule.schedule.producers.length = 0 then do
      sysAssert (schedule.version = pbhs.activeScheduleVersion + 1) .producerScheduleException
        "wrong producer schedule version specified"
      pure (some schedule)
    else pure none

/-- The state changes of a block that is to become a full one, with the building block as the
constructor of `pending_state` leaves it. -/
def prepareBlock (c : Controller) (bb : BuildingBlock) (status : BlockStatus) :
    Result Controller := do
  let pbhs := bb.pendingBlockHeaderState
  let features := bb.newProtocolFeatureActivations
  let m ← activateFeatures c.preactivatedProtocolFeatures pbhs.blockNum [] features
    c.protocolFeatures
  sysAssert (c.preactivatedProtocolFeatures.length = 0 ∨
      features.countP (· ∈ c.preactivatedProtocolFeatures) = c.preactivatedProtocolFeatures.length)
    .blockValidateException
    "There are pre-activated protocol features that were not activated at the start of this block"
  let promoted ← c.promoteProposed pbhs
  pure { c with
    pending := some ⟨.building { bb with newPendingProducerSchedule := promoted }, status⟩
    protocolFeatures := m
    preactivatedProtocolFeatures := if features = [] then c.preactivatedProtocolFeatures else []
    proposedSchedule := if promoted.isSome then none else c.proposedSchedule }

def startBlock (env : ControllerEnv) (c : Controller) (when_ : UInt32) (confirmBlockCount : UInt16)
    (newProtocolFeatureActivations : List Sha256) (status : BlockStatus) : Result Controller := do
  sysAssert (c.pending.isNone = true) .blockValidateException "pending block already exists"
  let pbhs ← c.head.nextPending env.toHeaderEnv when_ confirmBlockCount
  let bb : BuildingBlock := ⟨pbhs, none, newProtocolFeatureActivations, [], .inr [], [], none⟩
  if status = .ephemeral then pure { c with pending := some ⟨.building bb, status⟩ }
  else c.prepareBlock bb status

/-- What the public `start_block` does before it calls `startBlock`: new features must be valid at
the time of the head block (`validate_protocol_features`). -/
def validateProtocolFeatures (env : ControllerEnv) (c : Controller)
    (newProtocolFeatureActivations : List Sha256) : Result Unit :=
  if newProtocolFeatureActivations = [] then pure ()
  else env.validator c.head.header.timestamp c.head.activatedProtocolFeatures
    newProtocolFeatureActivations

/-! ### Adding transactions -/

/-- The building block, which the source reads with `std::get`. -/
def buildingBlock (c : Controller) : Result (BuildingBlock × BlockStatus) :=
  match c.pending with
  | some ⟨.building bb, status⟩ => pure (bb, status)
  | some _ => .error ⟨.blockValidateException, "already called finalize_block"⟩
  | none => .error ⟨.blockValidateException, "there is no pending block"⟩

/-- What `push_receipt` is called with. -/
structure ReceiptInput where
  trx : ReceiptTrx
  status : TransactionStatus
  cpuUsageUs : ℕ
  netUsage : ℕ

def ReceiptInput.receipt (r : ReceiptInput) : TransactionReceipt :=
  ⟨r.status, UInt32.ofNat r.cpuUsageUs, u32 (r.netUsage / 8), r.trx⟩

def pushReceipt (env : ControllerEnv) (c : Controller) (r : ReceiptInput) : Result Controller := do
  sysAssert (r.netUsage / 8 * 8 = r.netUsage) .transactionException
    "net_usage is not divisible by 8"
  let (bb, status) ← c.buildingBlock
  let digest :=
    env.receiptDigest (c.isBuiltinActivated .disableCompressionInTransactionMerkle) r.receipt
  pure { c with
    pending := some
      ⟨.building { bb with
        pendingTrxReceipts := bb.pendingTrxReceipts ++ [r.receipt]
        trxMrootOrReceiptDigests := bb.trxMrootOrReceiptDigests.map id (· ++ [digest]) }, status⟩ }

/-- The digests of the executed actions, as they are added to the building block. -/
def addDigests (c : Controller) (actionReceiptDigests : List Sha256) : Result Controller := do
  let (bb, status) ← c.buildingBlock
  pure { c with
    pending := some
      ⟨.building { bb with
        actionReceiptDigests := bb.actionReceiptDigests ++ actionReceiptDigests }, status⟩ }

def setSHeader (c : Controller) (sHeader : SHeader) : Result Controller := do
  let (bb, status) ← c.buildingBlock
  pure { c with pending := some ⟨.building { bb with sHeader := some sHeader }, status⟩ }

/-! ### Finishing a block -/

/-- The Merkle root of the receipts of a building block. -/
def trxMroot (env : ControllerEnv) (bb : BuildingBlock) : Sha256 :=
  match bb.trxMrootOrReceiptDigests with
  | .inl root => root
  | .inr digests => merkle env.hashCanonicalPair Sha256.zero digests

def finalizeBlock (env : ControllerEnv) (c : Controller) : Result Controller := do
  let (bb, status) ← c.buildingBlock
  let header ← bb.pendingBlockHeaderState.makeBlockHeader env.toHeaderEnv (trxMroot env bb)
    (merkle env.hashCanonicalPair Sha256.zero bb.actionReceiptDigests)
    bb.newPendingProducerSchedule bb.newProtocolFeatureActivations bb.sHeader
  let block : SignedBlock := ⟨⟨header, ⟨0⟩⟩, bb.pendingTrxReceipts, []⟩
  let ab : AssembledBlock := ⟨env.calculateId header, bb.pendingBlockHeaderState, block⟩
  pure { c with pending := some ⟨.assembled ab, status⟩ }

end Controller

/-- `block_header_state::sign`: the last signature is the one of the header. -/
def BlockHeaderState.sign (env : HeaderEnv) (s : BlockHeaderState)
    (signer : Sha256 → List Signature) : Result BlockHeaderState := do
  let sigs := signer (s.sigDigest env)
  let producerSignature ← require sigs.getLast? .noBlockSignatures "Signer returned no signatures"
  let signed := { s with
    header := { s.header with producerSignature := producerSignature }
    additionalSignatures := sigs.dropLast }
  signed.verifySignee env
  pure signed

/-- `finish_next` with a signer, called with a feature validator that accepts everything, and
`inject_additional_signatures`. -/
def PendingBlockHeaderState.finishNextSigned (env : HeaderEnv) (p : PendingBlockHeaderState)
    (h : SignedBlockHeader) (signer : Sha256 → List Signature) : Result BlockHeaderState := do
  let result ← p.finishNextUnsigned { env with validator := fun _ _ _ => pure () } h
  let result ← result.sign env signer
  sysAssert (result.additionalSignatures = [] ∨ p.wtmsigEnabled env = true)
    .producerScheduleException
    "Block was signed with multiple signatures before WTMsig block signatures are enabled"
  pure result

namespace Controller

section

variable (env : ControllerEnv) (c : Controller) (signer : Sha256 → List Signature)

/-- The part of `controller::finalize_block` after the block is assembled: the block is signed. -/
def completeBlock : Result Controller :=
  match c.pending with
  | some ⟨.assembled ab, status⟩ => do
    let bsp ← ab.pendingBlockHeaderState.finishNextSigned env.toHeaderEnv
      ab.unsignedBlock.toSignedBlockHeader signer
    let block := { ab.unsignedBlock with
      toSignedBlockHeader := bsp.header
      blockExtensions := SignedBlock.extensionsOf bsp.additionalSignatures }
    pure { c with pending := some ⟨.completed ⟨bsp, block⟩, status⟩ }
  | _ => .error ⟨.undefinedBehavior, "the block is not assembled"⟩

/-- `controller::finalize_block`: the block is assembled and signed. -/
def finishBlock : Result Controller := do
  let assembled ← c.finalizeBlock env
  assembled.completeBlock env signer

end

/-- What a producer decides about a block: when it is made and what is in it. -/
structure ProductionPlan where
  when_ : UInt32
  confirmBlockCount : UInt16
  newProtocolFeatureActivations : List Sha256
  receipts : List ReceiptInput
  actionReceiptDigests : List Sha256
  /-- The signer callback. -/
  signer : Sha256 → List Signature

/-- A block is started and filled with transactions.  The result is the controller right after the
start, and with all the transactions. -/
def buildBlock (env : ControllerEnv) (c : Controller) (plan : ProductionPlan) :
    Result (Controller × Controller) := do
  c.validateProtocolFeatures env plan.newProtocolFeatureActivations
  let started ← c.startBlock env plan.when_ plan.confirmBlockCount
    plan.newProtocolFeatureActivations .incomplete
  let filled ← plan.receipts.foldlM (pushReceipt env) started
  let filled ← filled.addDigests plan.actionReceiptDigests
  pure (started, filled)

def completedBlock (c : Controller) : Option CompletedBlock :=
  match c.pending with
  | some ⟨.completed cb, _⟩ => some cb
  | _ => none

/-! ### Taking in a block -/

def createBlockStateI (env : ControllerEnv) (c : Controller) (id : BlockId) (b : SignedBlock)
    (prev : BlockHeaderState) : Result BlockHeaderState := do
  let activated := c.isBuiltinActivated .disableCompressionInTransactionMerkle
  sysAssert (b.transactionMroot = env.calculateTrxMerkle b.transactions activated)
    .blockValidateException "invalid block transaction merkle root"
  let additionalSignatures ← b.extractAdditionalSignatures
  let bsp ← prev.next env.toHeaderEnv b.toSignedBlockHeader additionalSignatures false
  sysAssert (id = bsp.id) .blockValidateException "provided id does not match block id"
  pure bsp

end Controller

end Sysio
