import Sysio.BlockHeaderState.Id
import Sysio.Controller.ActivationHandlers
import Sysio.Controller.Production
import Sysio.Data.UndoStack

/-!
# A chain of blocks

`ChainState` is a controller together with what it needs to go back: the blocks below the head, each
with the database that it left, and the session of the pending block.  Blocks are produced
(`startBlock`, the calls of their transactions, `produce`) or received and applied (`applyBlock`), a
pending block can be aborted, and the head can be popped.  All of this is made of five moves
(`Move`), and an invariant of the moves is an invariant of the chain.

Of what transactions do, the calls that preactivate a protocol feature and that propose a producer
schedule are modelled, besides what they leave in the block; their effect on RAM is arbitrary.

A call that throws has no effect: the session of the pending block is undone, and the features of
the block that was to be started are popped.
-/

namespace Sysio

open Result List Option BlockHeaderState PendingBlockHeaderState Controller HeaderExtension Relation

variable {bsp r : BlockHeaderState} {signer : Sha256 → List Signature} {skip : Bool}
  {bb bb1 bb2 bb3 : BuildingBlock} {actionMroot d trxMroot : Sha256}

def BlockHeaderState.getNewProtocolFeatureActivations (s : BlockHeaderState) : List Sha256 :=
  (s.headerExts.findSome? HeaderExtension.newProtocolFeatures).getD []

namespace Controller

/-! ### What transactions ask of the controller -/

section

variable (c : Controller)

def pendingBlockTimestamp : Result UInt32 :=
  match c.pending with
  | none => .error ⟨.blockValidateException, "no pending block"⟩
  | some ⟨.building bb, _⟩ => pure bb.pendingBlockHeaderState.timestamp
  | some ⟨.assembled ab, _⟩ => pure ab.pendingBlockHeaderState.timestamp
  | some ⟨.completed cb, _⟩ => pure cb.blockState.header.timestamp

def isSpeculativeBlock : Bool :=
  match c.pending with
  | none => false
  | some p => decide (p.blockStatus = .incomplete ∨ p.blockStatus = .ephemeral)

/-- `is_protocol_feature_activated`, as a function of the digest.  Of the features that a building
block activates, all have been activated once `start_block` has returned, and none in an ephemeral
block. -/
def isProtocolFeatureActivated : Result (Sha256 → Bool) :=
  match c.pending with
  | none => pure fun d => decide (d ∈ c.head.activatedProtocolFeatures)
  | some ⟨.building bb, status⟩ =>
    pure fun d => decide (d ∈ bb.pendingBlockHeaderState.prevActivatedProtocolFeatures ∨
      status ≠ .ephemeral ∧ d ∈ bb.newProtocolFeatureActivations)
  | some ⟨.assembled _, _⟩ =>
    .error ⟨.miscException,
      "checking if protocol feature is activated in the assembled_block stage is not yet supported"⟩
  | some ⟨.completed cb, _⟩ =>
    pure fun d => decide (d ∈ cb.blockState.activatedProtocolFeatures)

/-- The `switch` of `preactivate_feature`. -/
def checkPreactivation (r : Recognized) : Result Unit :=
  let type : ExceptionType :=
    if c.isSpeculativeBlock then .subjectiveBlockProductionException
    else .protocolFeatureBadBlockException
  match r with
  | .unrecognized => .error ⟨type, "protocol feature with digest is unrecognized"⟩
  | .disabled => .error ⟨type, "protocol feature with digest is disabled"⟩
  | .tooEarly =>
    .error ⟨type,
      "timestamp is too early for the earliest allowed activation time of the protocol feature"⟩
  | .ready => pure ()

def preactivateFeature (featureDigest : Sha256) : Result Controller := do
  let pfs := c.protocolFeatures.protocolFeatureSet
  let timestamp ← c.pendingBlockTimestamp
  c.checkPreactivation (pfs.isRecognized featureDigest (slotTime timestamp))
  let isActivated ← c.isProtocolFeatureActivated
  sysAssert (isActivated featureDigest = false) .protocolFeatureException
    "protocol feature with digest is already activated"
  sysAssert (featureDigest ∉ c.preactivatedProtocolFeatures) .protocolFeatureException
    "protocol feature with digest is already pre-activated"
  sysAssert (pfs.validateDependencies featureDigest
      (fun d => isActivated d || decide (d ∈ c.preactivatedProtocolFeatures)) = true)
    .protocolFeatureException
    "not all dependencies of protocol feature with digest have been activated or pre-activated"
  pure { c with
    preactivatedProtocolFeatures := c.preactivatedProtocolFeatures ++ [featureDigest] }

def activeProducers : ProducerAuthoritySchedule :=
  match c.pending with
  | none => c.head.activeSchedule
  | some ⟨.building bb, _⟩ => bb.pendingBlockHeaderState.activeSchedule
  | some ⟨.assembled ab, _⟩ => ab.pendingBlockHeaderState.activeSchedule
  | some ⟨.completed cb, _⟩ => cb.blockState.activeSchedule

/-- `pending_producers`.  Transactions, which call it, only run while a block is building; the cache
of an assembled block is not modelled. -/
def pendingProducers : Result ProducerAuthoritySchedule :=
  match c.pending with
  | none => pure c.head.pendingSchedule.schedule
  | some ⟨.building bb, _⟩ =>
    pure (bb.newPendingProducerSchedule.getD
      bb.pendingBlockHeaderState.prevPendingSchedule.schedule)
  | some ⟨.assembled _, _⟩ => .error ⟨.undefinedBehavior, "the block is assembled"⟩
  | some ⟨.completed cb, _⟩ => pure cb.blockState.pendingSchedule.schedule

/-- Whether `set_proposed_producers` gives up before it looks at the schedules of the chain: an
empty schedule may be disallowed, and a schedule that was proposed in this block may be replaced by
a different one only. -/
def refusesProposal (producers : List ProducerAuthority) : Bool :=
  (decide (producers = []) && c.isBuiltinActivated .disallowEmptyProducerSchedule) ||
    match c.proposedSchedule with
    | none => false
    | some (blockNum, schedule) =>
      decide (blockNum ≠ u32 (c.head.blockNum + 1) ∨ producers = schedule.producers)

/-- `set_proposed_producers`: the version of the proposed schedule, or -1. -/
def setProposedProducers (producers : List ProducerAuthority) : Result (Controller × ℤ) := do
  if c.refusesProposal producers then pure (c, -1)
  else do
    let pendingSch ← c.pendingProducers
    let last := if pendingSch.producers = [] then c.activeProducers else pendingSch
    if producers = last.producers then pure (c, -1)
    else
      pure ({ c with
        proposedSchedule := some (u32 (c.head.blockNum + 1), ⟨last.version + 1, producers⟩) },
        (last.version + 1).toNat)

/-- The root of a received block, which takes the place of the digests of its receipts. -/
def setTrxMroot (root : Sha256) : Result Controller := do
  let (bb, status) ← c.buildingBlock
  pure { c with
    pending := some ⟨.building { bb with trxMrootOrReceiptDigests := .inl root }, status⟩ }

def assembledBlock : Option AssembledBlock :=
  match c.pending with
  | some ⟨.assembled ab, _⟩ => some ab
  | _ => none

end

end Controller

/-! ### Chains -/

/-- The database, as far as starting a block and the calls of transactions touch it. -/
structure ChainDatabase where
  /-- `protocol_state_object::preactivated_protocol_features`. -/
  preactivatedProtocolFeatures : List Sha256
  /-- `protocol_state_object::activated_protocol_features`. -/
  activatedProtocolFeatures : List (Sha256 × ℕ)
  /-- `proposed_schedule_block_num` and `proposed_schedule` of the global properties. -/
  proposedSchedule : Option (ℕ × ProducerAuthoritySchedule)
  handlers : HandlerDatabase

/-- A controller with its database and the way back. -/
structure ChainState where
  controller : Controller
  /-- `protocol_state_object::activated_protocol_features`. -/
  activatedProtocolFeatures : List (Sha256 × ℕ)
  handlers : HandlerDatabase
  /-- The session of the pending block: the database to which aborting the block returns. -/
  session : Option ChainDatabase
  /-- The blocks below the head, newest first, each with the database to which popping the block
  above it returns. -/
  below : List (BlockState × ChainDatabase)

/-- What a transaction asks for. -/
inductive TrxCall
  | preactivateFeature (featureDigest : Sha256)
  | setProposedProducers (producers : List ProducerAuthority)
  | pushReceipt (r : Controller.ReceiptInput)
  | addDigests (actionReceiptDigests : List Sha256)
  | setSHeader (sHeader : SHeader)
  /-- Whatever happens to RAM. -/
  | changeRam (ram : RamWorld) (ramCorrections : Table Name (Name × ℕ) Prod.fst)

namespace ChainState

/-- The blocks of the chain, newest first. -/
def blocks (s : ChainState) : List BlockState := s.controller.head :: s.below.map Prod.fst

def database (s : ChainState) : ChainDatabase :=
  ⟨s.controller.preactivatedProtocolFeatures, s.activatedProtocolFeatures,
    s.controller.proposedSchedule, s.handlers⟩

/-- `db.undo()`, with the head that belongs to the older state. -/
def undo (s : ChainState) (head : BlockState) (db : ChainDatabase) : ChainState :=
  { s with
    controller :=
      { s.controller with
        head := head
        pending := none
        protocolFeatures := s.controller.protocolFeatures.poppedBlocksTo head.blockNum
        preactivatedProtocolFeatures := db.preactivatedProtocolFeatures
        proposedSchedule := db.proposedSchedule }
    activatedProtocolFeatures := db.activatedProtocolFeatures
    handlers := db.handlers
    session := none }

/-- The database after the handlers of the features that a block activates; an ephemeral block
activates none. -/
def startHandlers (env : ControllerEnv) (s : ChainState) (features : List Sha256)
    (status : BlockStatus) : Result HandlerDatabase :=
  if status = .ephemeral then pure s.handlers
  else s.handlers.triggerHandlers env.protocolFeatureSet features

/-- `controller_impl::start_block`.  The handlers only touch the database, and the loop of
`Controller.startBlock` only the manager, so here one comes after the other. -/
def startBlock (env : ControllerEnv) (s : ChainState) (when_ : UInt32) (confirmBlockCount : UInt16)
    (features : List Sha256) (status : BlockStatus) : Result ChainState := do
  let c ← s.controller.startBlock env when_ confirmBlockCount features status
  let handlers ← s.startHandlers env features status
  pure { s with
    controller := c
    activatedProtocolFeatures :=
      if status = .ephemeral then s.activatedProtocolFeatures
      else s.activatedProtocolFeatures ++
        features.map fun d => (d, u32 (s.controller.head.blockNum + 1))
    handlers := handlers
    session := some s.database }

def abortBlock (s : ChainState) : ChainState :=
  match s.controller.pending, s.session with
  | some _, some db => s.undo s.controller.head db
  | _, _ => s

/-- `pop_block`, which is not called while a block is pending. -/
def popBlock (s : ChainState) : Result ChainState :=
  match s.controller.pending, s.below with
  | none, (prev, db) :: below => pure { s.undo prev db with below := below }
  | _, _ =>
    .error ⟨.blockValidateException, "attempt to pop beyond last irreversible block"⟩

def call (env : ControllerEnv) (s : ChainState) : TrxCall → Result ChainState
  | .preactivateFeature d => do
    let c ← s.controller.preactivateFeature d
    pure { s with controller := c }
  | .setProposedProducers producers => do
    let r ← s.controller.setProposedProducers producers
    pure { s with controller := r.1 }
  | .pushReceipt r => do
    let c ← s.controller.pushReceipt env r
    pure { s with controller := c }
  | .addDigests ds => do
    let c ← s.controller.addDigests ds
    pure { s with controller := c }
  | .setSHeader x => do
    let c ← s.controller.setSHeader x
    pure { s with controller := c }
  | .changeRam ram ramCorrections =>
    pure { s with handlers := { s.handlers with ram := ram, ramCorrections := ramCorrections } }

/-- `commit_block`: the block becomes the head, and its session stays on the undo stack. -/
def commitBlock (s : ChainState) (bsp : BlockHeaderState) : Result ChainState := do
  let db ← require s.session .undefinedBehavior "no session"
  if h : numFromId bsp.id = bsp.blockNum then
    pure { s with
      controller := { s.controller with head := ⟨bsp, true, h⟩, pending := none }
      session := none
      below := (s.controller.head, db) :: s.below }
  else .error ⟨.undefinedBehavior, "the id of a block carries its number"⟩

/-- `finalize_block` and `commit_block` of a block that was produced here.  `producer_plugin` does
not finish ephemeral blocks. -/
def produce (env : ControllerEnv) (s : ChainState) (signer : Sha256 → List Signature) :
    Result ChainState := do
  let (_, status) ← s.controller.buildingBlock
  sysAssert (status ≠ .ephemeral) .producerException
    "pending block should be in producing mode, not speculating"
  let c ← s.controller.finishBlock env signer
  let cb ← require c.completedBlock .undefinedBehavior "the block is not completed"
  s.commitBlock cb.blockState

/-- `apply_block`, with the calls of the transactions of the block.  The ids are compared in the
source; this "implicitly asserts that all header fields (less the signature) are identical". -/
def applyBlock (env : ControllerEnv) (s : ChainState) (bsp : BlockHeaderState)
    (status : BlockStatus) (calls : List TrxCall) : Result ChainState := do
  let started ← s.startBlock env bsp.header.timestamp bsp.header.confirmed
    bsp.getNewProtocolFeatureActivations status
  let c ← started.controller.setTrxMroot bsp.header.transactionMroot
  let filled ← calls.foldlM (call env) { started with controller := c }
  let assembled ← filled.controller.finalizeBlock env
  let ab ← require assembled.assembledBlock .undefinedBehavior "the block is not assembled"
  sysAssert (bsp.header.toBlockHeader = ab.unsignedBlock.toBlockHeader) .blockValidateException
    "Block ID does not match"
  filled.commitBlock bsp

inductive Event
  | startBlock (when_ : UInt32) (confirmBlockCount : UInt16) (features : List Sha256)
      (status : BlockStatus)
  | call (c : TrxCall)
  | produce (signer : Sha256 → List Signature)
  | applyBlock (bsp : BlockHeaderState) (status : BlockStatus) (calls : List TrxCall)
  | abortBlock
  | popBlock

def apply (env : ControllerEnv) (s : ChainState) : Event → Result ChainState
  | .startBlock when_ confirmBlockCount features status => do
    s.controller.validateProtocolFeatures env features
    sysAssert (status = .incomplete ∨ status = .ephemeral) .blockValidateException
      "speculative block type required"
    s.startBlock env when_ confirmBlockCount features status
  | .call c => s.call env c
  | .produce signer => s.produce env signer
  | .applyBlock bsp status calls => s.applyBlock env bsp status calls
  | .abortBlock => pure s.abortBlock
  | .popBlock => s.popBlock

/-- The call leaves RAM in order: accounts that are owed a correction exist. -/
def SoundCall : TrxCall → Prop
  | .changeRam ram ramCorrections => ∀ c ∈ ramCorrections.rows, ram.rl.UsageFits c.1
  | _ => True

def Builds (s : ChainState) (bb : BuildingBlock) (status : BlockStatus) : Prop :=
  s.controller.pending = some ⟨.building bb, status⟩

/-- When an event can happen: transactions are executed while a block is building, and a block that
is applied has been made from its header by `create_block_state`, on top of the head. -/
def Arises (env : ControllerEnv) (s : ChainState) : Event → Prop
  | .call c => (∃ bb status, s.Builds bb status) ∧ SoundCall c
  | .applyBlock bsp status calls =>
    (∃ skip, s.controller.head.next env.toHeaderEnv bsp.header bsp.additionalSignatures skip =
      .ok bsp) ∧ status ≠ .ephemeral ∧ status ≠ .incomplete ∧ ∀ c ∈ calls, SoundCall c
  | _ => True

def Step (env : ControllerEnv) (s : ChainState) (e : Event) (s' : ChainState) : Prop :=
  s.Arises env e ∧ s.apply env e = .ok s'

/-- The state after `initialize_blockchain_state`. -/
def initial (env : ControllerEnv) (initialKey : PublicKey) (initialTimestamp : UInt32)
    (chainId : Sha256) (ram : RamWorld) : ChainState :=
  let head : BlockState := ⟨.genesis env.toHeaderEnv initialKey initialTimestamp chainId, true,
      BlockHeaderState.IdNumbered.genesis env.toHeaderEnv initialKey initialTimestamp chainId⟩
  { controller :=
      { forkDb := ⟨Table.empty, some head, some head⟩
        head := head
        pending := none
        protocolFeatures := .new env.protocolFeatureSet
        preactivatedProtocolFeatures := []
        proposedSchedule := none }
    activatedProtocolFeatures := []
    handlers := ⟨genesisIntrinsics, genesisNumSupportedKeyTypes, ram, Table.empty⟩
    session := none
    below := [] }

end ChainState

/-! ### A finished header -/

/-- What `_finish_next` makes of a header, whatever its validator says: the rest of the state does
not depend on who asked. -/
structure FinishResult (p : PendingBlockHeaderState) (r : BlockHeaderState) : Prop where
  common_eq : r.toBlockHeaderStateCommon = p.toBlockHeaderStateCommon
  timestamp_eq : r.header.timestamp = p.timestamp
  exts_eq : r.headerExts = r.header.headerExtensions
  activated_eq : match r.headerExts.findSome? HeaderExtension.newProtocolFeatures with
    | none => r.activatedProtocolFeatures = p.prevActivatedProtocolFeatures
    | some features => (p.prevActivatedProtocolFeatures ++ features).Nodup ∧
        r.activatedProtocolFeatures =
          (p.prevActivatedProtocolFeatures ++ features).insertionSort (· ≤ ·)
  pending_eq : ∃ announced, r.pendingSchedule = p.nextPendingSchedule announced ∧
    announced.map Prod.fst = (r.headerExts.findSome? HeaderExtension.newSchedule).or
      (r.header.newProducers.map .ofLegacy) ∧
    ∀ a ∈ announced, p.checkNewSchedule a.1.version = .ok ()

namespace PendingBlockHeaderState

variable {env : HeaderEnv} {p : PendingBlockHeaderState}
  {o : Option (ProducerAuthoritySchedule × Sha256)} {h : SignedBlockHeader}

lemma legacySchedule_eq_ok {h : BlockHeader}
    (hl : p.legacySchedule env h = .ok o) : o.map Prod.fst = h.newProducers.map .ofLegacy ∧
      ∀ a ∈ o, p.checkNewSchedule a.1.version = .ok () := by
  unfold legacySchedule at hl
  cases hn : h.newProducers with
  | none =>
    rw [hn, pure_eq_ok] at hl
    subst hl
    exact ⟨rfl, nofun⟩
  | some l =>
    rw [hn] at hl
    simp only [bind_eq_ok, pure_eq_ok] at hl
    obtain ⟨-, -, _, hcheck, rfl⟩ := hl
    refine ⟨rfl, fun a ha => ?_⟩
    cases ha
    exact hcheck

lemma extensionSchedule_eq_ok {exts : List HeaderExtension}
    (he : p.extensionSchedule env exts = .ok o) :
    o.map Prod.fst = exts.findSome? newSchedule ∧
      ∀ a ∈ o, p.checkNewSchedule a.1.version = .ok () := by
  unfold extensionSchedule at he
  cases hs : exts.findSome? newSchedule with
  | none =>
    rw [hs, pure_eq_ok] at he
    subst he
    exact ⟨rfl, nofun⟩
  | some =>
    rw [hs] at he
    simp only [bind_eq_ok, pure_eq_ok] at he
    obtain ⟨-, -, _, hcheck, rfl⟩ := he
    refine ⟨rfl, fun a ha => ?_⟩
    cases ha
    exact hcheck

/-- **Inversion of `_finish_next`.** -/
theorem finishNextUnsigned_eq_ok (hr : p.finishNextUnsigned env h = .ok r) : FinishResult p r ∧
      ∀ features ∈ r.headerExts.findSome? newProtocolFeatures,
        env.validator p.timestamp p.prevActivatedProtocolFeatures features = .ok () := by
  simp only [finishNextUnsigned, bind_eq_ok, pure_eq_ok, sysAssert_eq_ok] at hr
  obtain ⟨-, htime, -, -, -, -, -, -, -, -, exts, hexts, legacy, hlegacy, ext, hext, feats, hfeats,
    rfl⟩ := hr
  have hexts' : exts = h.headerExtensions := BlockHeader.extractExtensions_eq_ok hexts
  obtain ⟨hlegacyMap, hlegacyCheck⟩ := legacySchedule_eq_ok hlegacy
  obtain ⟨hextMap, hextCheck⟩ := extensionSchedule_eq_ok hext
  refine ⟨⟨rfl, htime, hexts', ?_, ext.or legacy, rfl, ?_, ?_⟩, ?_⟩
  · show match exts.findSome? newProtocolFeatures with
      | none => feats = _
      | some features => _ ∧ feats = _
    unfold activateFeatures at hfeats
    cases hf : exts.findSome? newProtocolFeatures with
    | none =>
      rw [hf, pure_eq_ok] at hfeats
      exact hfeats.symm
    | some =>
      rw [hf] at hfeats
      simp only [bind_eq_ok, pure_eq_ok, sysAssert_eq_ok] at hfeats
      obtain ⟨-, -, -, hnodup, rfl⟩ := hfeats
      exact ⟨hnodup, rfl⟩
  · show _ = (exts.findSome? newSchedule).or (h.newProducers.map .ofLegacy)
    rw [← hextMap, ← hlegacyMap]
    cases ext <;> rfl
  · intro a ha
    cases ext with
    | none => exact hlegacyCheck a ha
    | some e =>
      obtain rfl := some.inj ha
      exact hextCheck e rfl
  · intro features hf
    unfold activateFeatures at hfeats
    rw [show exts.findSome? newProtocolFeatures = some features from hf] at hfeats
    simp only [bind_eq_ok] at hfeats
    obtain ⟨_, hvalid, -⟩ := hfeats
    exact hvalid

lemma finishNextSigned_eq_ok
    (hs : p.finishNextSigned env h signer = .ok bsp) : FinishResult p bsp := by
  simp only [finishNextSigned, bind_eq_ok, pure_eq_ok] at hs
  obtain ⟨r, hr, b, hb, -, -, rfl⟩ := hs
  obtain ⟨sig, heq, -⟩ := sign_eq_ok hb
  obtain ⟨hfinish, -⟩ := finishNextUnsigned_eq_ok hr
  rw [heq]
  exact { hfinish with }

end PendingBlockHeaderState

lemma BlockHeaderState.next_finishResult {env : HeaderEnv} {s : BlockHeaderState}
    {h : SignedBlockHeader} {additionalSignatures : List Signature}
    (hn : s.next env h additionalSignatures skip = .ok bsp) :
    ∃ p, s.nextPending env h.timestamp h.confirmed = .ok p ∧ FinishResult p bsp ∧
      ∀ features ∈ bsp.headerExts.findSome? newProtocolFeatures,
        env.validator p.timestamp p.prevActivatedProtocolFeatures features = .ok () := by
  simp only [next, finishNext, bind_eq_ok] at hn
  obtain ⟨p, hp, -, -, r, hr, hn⟩ := hn
  obtain ⟨hfinish, hvalid⟩ := finishNextUnsigned_eq_ok hr
  have heq : bsp = { r with additionalSignatures := additionalSignatures } := by
    split_ifs at hn
    · rw [pure_eq_ok] at hn
      exact hn.symm
    · simp only [bind_eq_ok, pure_eq_ok] at hn
      obtain ⟨-, -, hn⟩ := hn
      exact hn.symm
  refine ⟨p, hp, ?_⟩
  rw [heq]
  exact ⟨{ hfinish with }, hvalid⟩

/-- The state of a block that has been finished from the building block `bb`: also the features and
the schedule of its header are those that the block was built with. -/
structure Finished (bb : BuildingBlock) (bsp : BlockHeaderState) : Prop where
  result : FinishResult bb.pendingBlockHeaderState bsp
  features_eq : bsp.getNewProtocolFeatureActivations = bb.newProtocolFeatureActivations
  schedule_eq : match bb.newPendingProducerSchedule with
    | none => bsp.pendingSchedule = bb.pendingBlockHeaderState.nextPendingSchedule none
    | some schedule => ∃ announced hash,
        bsp.pendingSchedule = ⟨bb.pendingBlockHeaderState.blockNum, hash, announced⟩ ∧
        announced.version = schedule.version ∧
        announced.producers.length = schedule.producers.length ∧
        bsp.header.toBlockHeader.Announces announced ∧
        bb.pendingBlockHeaderState.checkNewSchedule announced.version = .ok ()

lemma Finished.of_made {env : HeaderEnv} (hf : FinishResult bb.pendingBlockHeaderState bsp)
    (hm : bb.pendingBlockHeaderState.makeBlockHeader env trxMroot actionMroot
      bb.newPendingProducerSchedule bb.newProtocolFeatureActivations bb.sHeader =
        .ok bsp.header.toBlockHeader) : Finished bb bsp := by
  obtain ⟨hfeatures, hnone, hsome⟩ := makeBlockHeader_contents hm
  refine ⟨hf, ?_, ?_⟩
  · rw [getNewProtocolFeatureActivations, hf.exts_eq, hfeatures]
    split_ifs with hempty
    · exact hempty.symm
    · rfl
  · obtain ⟨announced, hpending, hmap, hcheck⟩ := hf.pending_eq
    rw [hf.exts_eq] at hmap
    cases hnew : bb.newPendingProducerSchedule with
    | none =>
      rw [(hnone hnew).1, (hnone hnew).2] at hmap
      show bsp.pendingSchedule = _
      rw [hpending, map_eq_none_iff.mp hmap]
    | some schedule =>
      rcases hsome schedule hnew with ⟨-, hext⟩ | ⟨l, hl, hversion, hlength, hext⟩
      · -- the schedule is in an extension
        rw [hext, some_or] at hmap
        obtain ⟨⟨announced, hash⟩, rfl, rfl⟩ := map_eq_some_iff.mp hmap
        obtain ⟨e, hmem, he⟩ := exists_of_findSome?_eq_some hext
        refine ⟨announced, hash, hpending, rfl, rfl, .inr ?_, hcheck _ rfl⟩
        cases e with
        | producerScheduleChange x =>
          cases he
          exact hmem
        | protocolFeatureActivation fs => cases he
        | sRoot x => cases he
        | unsupported id => cases he
      · -- the schedule is in `new_producers`
        rw [hext, hl, none_or] at hmap
        obtain ⟨⟨announced, hash⟩, rfl, rfl⟩ := map_eq_some_iff.mp hmap
        refine ⟨_, hash, hpending, hversion, ?_, .inl ⟨l, hl, rfl⟩, hcheck _ rfl⟩
        rw [← hlength]
        exact length_map _

namespace ChainState

variable {env : ControllerEnv} {s s' : ChainState} {bb' : BuildingBlock} {status : BlockStatus}

/-! ### What events do -/

/-- The state with a new head on top of the old one, whose database was `db`. -/
def committed (s : ChainState) (head : BlockState) (db : ChainDatabase) : ChainState :=
  { s with
    controller := { s.controller with head := head, pending := none }
    session := none
    below := (s.controller.head, db) :: s.below }

variable {c : Controller} {calls : List TrxCall} {e : Event}

lemma commitBlock_eq_ok (h : s.commitBlock bsp = .ok s') :
    ∃ db hid, s.session = some db ∧ s' = s.committed ⟨bsp, true, hid⟩ db := by
  simp only [commitBlock, bind_eq_ok, require_eq_ok] at h
  obtain ⟨db, hdb, h⟩ := h
  split at h
  · next hid =>
    rw [pure_eq_ok] at h
    exact ⟨db, hid, hdb, h.symm⟩
  · cases h

lemma buildingBlock_eq_ok (h : c.buildingBlock = .ok (bb, status)) :
    c.pending = some ⟨.building bb, status⟩ := by
  unfold buildingBlock at h
  split at h
  · next bb' status' hpending =>
    simp only [pure_eq_ok, Prod.mk.injEq] at h
    rw [hpending, h.1, h.2]
  · cases h
  · cases h

/-- What `start_block` has done when it returns. -/
structure Started (env : ControllerEnv) (s : ChainState) (features : List Sha256)
    (status : BlockStatus) (bb : BuildingBlock) (s' : ChainState) : Prop where
  not_pending : s.controller.pending = none
  builds : s'.Builds bb status
  features_eq : bb.newProtocolFeatureActivations = features
  head_eq : s'.controller.head = s.controller.head
  session_eq : s'.session = some s.database
  below_eq : s'.below = s.below
  ephemeral : status = .ephemeral → bb.newPendingProducerSchedule = none ∧
    s'.database = s.database ∧ s'.controller.protocolFeatures = s.controller.protocolFeatures
  activated : status ≠ .ephemeral →
    Controller.activateFeatures s.controller.preactivatedProtocolFeatures
        (u32 (s.controller.head.blockNum + 1)) [] features s.controller.protocolFeatures =
      .ok s'.controller.protocolFeatures
  complete : status ≠ .ephemeral → s.controller.preactivatedProtocolFeatures.length = 0 ∨
    features.countP (· ∈ s.controller.preactivatedProtocolFeatures) =
      s.controller.preactivatedProtocolFeatures.length
  promoted : status ≠ .ephemeral →
    s.controller.promoteProposed bb.pendingBlockHeaderState = .ok bb.newPendingProducerSchedule
  database_eq : status ≠ .ephemeral → ∃ handlers,
    s.handlers.triggerHandlers env.protocolFeatureSet features = .ok handlers ∧
    s'.database = ⟨if features = [] then s.controller.preactivatedProtocolFeatures else [],
        s.activatedProtocolFeatures ++
          features.map fun d => (d, u32 (s.controller.head.blockNum + 1)),
        if bb.newPendingProducerSchedule.isSome then none else s.controller.proposedSchedule,
        handlers⟩

/-- **Inversion of `start_block`.** -/
theorem startBlock_eq_ok {when_ : UInt32} {n : UInt16} {features : List Sha256}
    (h : s.startBlock env when_ n features status = .ok s') :
    ∃ bb, s.controller.head.nextPending env.toHeaderEnv when_ n =
        .ok bb.pendingBlockHeaderState ∧ Started env s features status bb s' := by
  simp only [startBlock, bind_eq_ok, pure_eq_ok] at h
  obtain ⟨c, hc, handlers, hhandlers, rfl⟩ := h
  unfold startHandlers at hhandlers
  simp only [Controller.startBlock, bind_eq_ok, sysAssert_eq_ok, isNone_iff_eq_none] at hc
  obtain ⟨-, hnone, p, hp, hc⟩ := hc
  by_cases hstatus : status = .ephemeral
  · rw [if_pos hstatus, pure_eq_ok] at hc hhandlers
    subst hc hhandlers
    refine ⟨_, hp, ⟨hnone, rfl, rfl, rfl, rfl, rfl, fun _ => ⟨rfl, ?_, rfl⟩,
      fun h => absurd hstatus h, fun h => absurd hstatus h, fun h => absurd hstatus h,
      fun h => absurd hstatus h⟩⟩
    simp only [database, if_pos hstatus]
  · obtain ⟨slot, proauth, -, -, -, hpeq⟩ := nextPending_eq_ok hp
    have hnum : p.blockNum = u32 (s.controller.head.blockNum + 1) := by
      rw [hpeq]
      rfl
    rw [if_neg hstatus] at hc hhandlers
    simp only [prepareBlock, bind_eq_ok, sysAssert_eq_ok, pure_eq_ok, hnum] at hc
    obtain ⟨m, hm, -, hcomplete, promoted, hpromoted, rfl⟩ := hc
    refine ⟨_, hp, ⟨hnone, rfl, rfl, rfl, rfl, rfl, fun h => absurd h hstatus, fun _ => hm,
      fun _ => hcomplete, fun _ => hpromoted, fun _ => ⟨handlers, hhandlers, ?_⟩⟩⟩
    simp only [database, if_neg hstatus]

/-- What a call of a transaction leaves alone: the header of the block that is being built, with its
features and its schedule, and everything below. -/
structure SameBlock (bb : BuildingBlock) (status : BlockStatus) (s : ChainState)
    (bb' : BuildingBlock) (s' : ChainState) : Prop where
  builds : s'.Builds bb' status
  header_eq : bb'.pendingBlockHeaderState = bb.pendingBlockHeaderState
  schedule_eq : bb'.newPendingProducerSchedule = bb.newPendingProducerSchedule
  features_eq : bb'.newProtocolFeatureActivations = bb.newProtocolFeatureActivations
  head_eq : s'.controller.head = s.controller.head
  manager_eq : s'.controller.protocolFeatures = s.controller.protocolFeatures
  activated_eq : s'.activatedProtocolFeatures = s.activatedProtocolFeatures
  session_eq : s'.session = s.session
  below_eq : s'.below = s.below

lemma SameBlock.refl (h : s.Builds bb status) : SameBlock bb status s bb s :=
  ⟨h, rfl, rfl, rfl, rfl, rfl, rfl, rfl, rfl⟩

lemma SameBlock.trans {s1 s2 s3 : ChainState}
    (h1 : SameBlock bb1 status s1 bb2 s2) (h2 : SameBlock bb2 status s2 bb3 s3) :
    SameBlock bb1 status s1 bb3 s3 :=
  ⟨h2.builds, h2.header_eq.trans h1.header_eq, h2.schedule_eq.trans h1.schedule_eq,
    h2.features_eq.trans h1.features_eq, h2.head_eq.trans h1.head_eq,
    h2.manager_eq.trans h1.manager_eq, h2.activated_eq.trans h1.activated_eq,
    h2.session_eq.trans h1.session_eq, h2.below_eq.trans h1.below_eq⟩

/-- What `preactivate_feature` has checked, for a block that is building. -/
structure Preactivates (s : ChainState) (bb : BuildingBlock) (status : BlockStatus) (d : Sha256) :
    Prop where
  ready : s.controller.protocolFeatures.protocolFeatureSet.isRecognized d
    (slotTime bb.pendingBlockHeaderState.timestamp) = .ready
  not_activated : ¬(d ∈ bb.pendingBlockHeaderState.prevActivatedProtocolFeatures ∨
    status ≠ .ephemeral ∧ d ∈ bb.newProtocolFeatureActivations)
  not_preactivated : d ∉ s.controller.preactivatedProtocolFeatures
  dependencies : ∃ f, s.controller.protocolFeatures.protocolFeatureSet.recognized.find? d = some f ∧
    ∀ x ∈ f.dependencies, (x ∈ bb.pendingBlockHeaderState.prevActivatedProtocolFeatures ∨
      status ≠ .ephemeral ∧ x ∈ bb.newProtocolFeatureActivations) ∨
      x ∈ s.controller.preactivatedProtocolFeatures

lemma checkPreactivation_eq_ok {r : Recognized}
    (h : c.checkPreactivation r = .ok ()) : r = .ready := by
  cases r with
  | unrecognized => cases h
  | disabled => cases h
  | tooEarly => cases h
  | ready => rfl

lemma preactivateFeature_eq_ok (hb : s.Builds bb status)
    (h : s.controller.preactivateFeature d = .ok c) :
    Preactivates s bb status d ∧ c = { s.controller with
      preactivatedProtocolFeatures := s.controller.preactivatedProtocolFeatures ++ [d] } := by
  have hpending : s.controller.pending = some ⟨.building bb, status⟩ := hb
  have htime : s.controller.pendingBlockTimestamp = pure bb.pendingBlockHeaderState.timestamp := by
    rw [pendingBlockTimestamp, hpending]
  have hactive : s.controller.isProtocolFeatureActivated = pure fun d =>
      decide (d ∈ bb.pendingBlockHeaderState.prevActivatedProtocolFeatures ∨
        status ≠ .ephemeral ∧ d ∈ bb.newProtocolFeatureActivations) := by
    rw [isProtocolFeatureActivated, hpending]
  simp only [preactivateFeature, htime, hactive, bind_eq_ok, pure_eq_ok,
    sysAssert_eq_ok] at h
  obtain ⟨_, rfl, _, hready, _, rfl, _, hactivated, _, hpre, _, hdeps, rfl⟩ := h
  refine ⟨⟨?_, of_decide_eq_false hactivated, hpre, ?_⟩, rfl⟩
  · exact checkPreactivation_eq_ok hready
  · unfold ProtocolFeatureSet.validateDependencies at hdeps
    split at hdeps
    · cases hdeps
    · next f hf =>
      refine ⟨f, hf, fun x hx => ?_⟩
      have hok := List.all_eq_true.mp hdeps x hx
      rcases (Bool.or_eq_true _ _).mp hok with hok | hok
      · exact .inl (of_decide_eq_true hok)
      · exact .inr (of_decide_eq_true hok)

/-- The schedule on which `set_proposed_producers` bases a new version. -/
def lastSchedule (bb : BuildingBlock) : ProducerAuthoritySchedule :=
  let pendingSch :=
    bb.newPendingProducerSchedule.getD bb.pendingBlockHeaderState.prevPendingSchedule.schedule
  if pendingSch.producers = [] then bb.pendingBlockHeaderState.activeSchedule else pendingSch

lemma setProposedProducers_eq_ok {producers : List ProducerAuthority} {r : Controller × ℤ}
    (hb : s.Builds bb status) (h : s.controller.setProposedProducers producers = .ok r) :
    r.1 = s.controller ∨ r.1 = { s.controller with
      proposedSchedule := some (u32 (s.controller.head.blockNum + 1),
        ⟨(lastSchedule bb).version + 1, producers⟩) } := by
  have hpending : s.controller.pending = some ⟨.building bb, status⟩ := hb
  have hsch : s.controller.pendingProducers = pure (bb.newPendingProducerSchedule.getD
      bb.pendingBlockHeaderState.prevPendingSchedule.schedule) := by
    rw [pendingProducers, hpending]
  have hactive : s.controller.activeProducers = bb.pendingBlockHeaderState.activeSchedule := by
    rw [activeProducers, hpending]
  unfold setProposedProducers at h
  rw [hsch, hactive] at h
  split_ifs at h with hrefuses
  · rw [pure_eq_ok] at h
    exact .inl (by rw [← h])
  · simp only [bind_eq_ok, pure_eq_ok] at h
    obtain ⟨_, rfl, h⟩ := h
    change (if producers = (lastSchedule bb).producers then pure (s.controller, -1)
      else pure ({ s.controller with
        proposedSchedule := some (u32 (s.controller.head.blockNum + 1),
          ⟨(lastSchedule bb).version + 1, producers⟩) }, _)) = _ at h
    by_cases hsame : producers = (lastSchedule bb).producers
    · rw [if_pos hsame, pure_eq_ok] at h
      exact .inl (by rw [← h])
    · rw [if_neg hsame, pure_eq_ok] at h
      exact .inr (by rw [← h])

/-- What a call of a transaction does to the database. -/
structure Called (s : ChainState) (bb : BuildingBlock) (status : BlockStatus) (s' : ChainState) :
    Prop where
  preactivated : s'.controller.preactivatedProtocolFeatures =
      s.controller.preactivatedProtocolFeatures ∨
    ∃ d, Preactivates s bb status d ∧ s'.controller.preactivatedProtocolFeatures =
      s.controller.preactivatedProtocolFeatures ++ [d]
  proposed : s'.controller.proposedSchedule = s.controller.proposedSchedule ∨
    ∃ blockNum producers, s'.controller.proposedSchedule =
      some (blockNum, ⟨(lastSchedule bb).version + 1, producers⟩)
  whitelist_eq : s'.handlers.whitelistedIntrinsics = s.handlers.whitelistedIntrinsics
  sound : s.handlers.Sound → s'.handlers.Sound

lemma called_of_replace (hheader : bb'.pendingBlockHeaderState = bb.pendingBlockHeaderState)
    (hschedule : bb'.newPendingProducerSchedule = bb.newPendingProducerSchedule)
    (hfeatures : bb'.newProtocolFeatureActivations = bb.newProtocolFeatureActivations) :
    SameBlock bb status s bb'
        { s with controller := { s.controller with pending := some ⟨.building bb', status⟩ } } ∧
      Called s bb status
        { s with controller := { s.controller with pending := some ⟨.building bb', status⟩ } } :=
  ⟨⟨rfl, hheader, hschedule, hfeatures, rfl, rfl, rfl, rfl, rfl⟩,
    ⟨.inl rfl, .inl rfl, rfl, fun h => h⟩⟩

lemma Builds.eq_of_buildingBlock (hb : s.Builds bb status) {status' : BlockStatus}
    (h : s.controller.buildingBlock = .ok (bb', status')) : bb' = bb ∧ status' = status := by
  have heq := (buildingBlock_eq_ok h).symm.trans hb
  simp only [some.injEq, PendingState.mk.injEq, BlockStage.building.injEq] at heq
  exact heq

/-- **Inversion of the calls.** -/
theorem call_eq_ok {c : TrxCall} (hb : s.Builds bb status) (hc : SoundCall c)
    (h : s.call env c = .ok s') : ∃ bb', SameBlock bb status s bb' s' ∧ Called s bb status s' := by
  cases c with
  | preactivateFeature d =>
    simp only [call, bind_eq_ok, pure_eq_ok] at h
    obtain ⟨c, hc, rfl⟩ := h
    obtain ⟨hpre, rfl⟩ := preactivateFeature_eq_ok hb hc
    exact ⟨bb, ⟨hb, rfl, rfl, rfl, rfl, rfl, rfl, rfl, rfl⟩,
      ⟨.inr ⟨d, hpre, rfl⟩, .inl rfl, rfl, fun h => h⟩⟩
  | setProposedProducers producers =>
    simp only [call, bind_eq_ok, pure_eq_ok] at h
    obtain ⟨r, hr, rfl⟩ := h
    refine ⟨bb, ?_⟩
    rcases setProposedProducers_eq_ok hb hr with heq | heq
    · rw [heq]
      exact ⟨.refl hb, ⟨.inl rfl, .inl rfl, rfl, fun h => h⟩⟩
    · rw [heq]
      exact ⟨⟨hb, rfl, rfl, rfl, rfl, rfl, rfl, rfl, rfl⟩,
        ⟨.inl rfl, .inr ⟨_, producers, rfl⟩, rfl, fun h => h⟩⟩
  | pushReceipt r =>
    simp only [call, pushReceipt, bind_eq_ok, pure_eq_ok] at h
    obtain ⟨_, ⟨_, -, ⟨bb', status'⟩, hbb, rfl⟩, rfl⟩ := h
    obtain ⟨rfl, rfl⟩ := hb.eq_of_buildingBlock hbb
    exact ⟨_, called_of_replace rfl rfl rfl⟩
  | addDigests | setSHeader =>
    simp only [call, addDigests, setSHeader, bind_eq_ok, pure_eq_ok] at h
    obtain ⟨_, ⟨⟨bb', status'⟩, hbb, rfl⟩, rfl⟩ := h
    obtain ⟨rfl, rfl⟩ := hb.eq_of_buildingBlock hbb
    exact ⟨_, called_of_replace rfl rfl rfl⟩
  | changeRam =>
    cases h
    exact ⟨bb, ⟨hb, rfl, rfl, rfl, rfl, rfl, rfl, rfl, rfl⟩, ⟨.inl rfl, .inl rfl, rfl, fun _ => hc⟩⟩

/-- **Inversion of a production.** -/
theorem produce_eq_ok (h : s.produce env signer = .ok s') :
    ∃ bb status, s.Builds bb status ∧ status ≠ .ephemeral ∧ ∃ (head : BlockState) (db : _),
      Finished bb head.toBlockHeaderState ∧ s.session = some db ∧ s' = s.committed head db := by
  simp only [produce, bind_eq_ok, sysAssert_eq_ok, require_eq_ok] at h
  obtain ⟨⟨bb, status⟩, hbb, -, hstatus, c, hfinish, cb, hcb, hcommit⟩ := h
  obtain ⟨db, hid, hdb, rfl⟩ := commitBlock_eq_ok hcommit
  have hb : s.Builds bb status := buildingBlock_eq_ok hbb
  refine ⟨bb, status, hb, hstatus, ⟨cb.blockState, true, hid⟩, db, ?_, hdb, rfl⟩
  -- the header is made and signed
  simp only [finishBlock, finalizeBlock, bind_eq_ok, pure_eq_ok] at hfinish
  obtain ⟨_, ⟨⟨bb', status'⟩, hbb', header, hheader, rfl⟩, hcomplete⟩ := hfinish
  obtain ⟨rfl, rfl⟩ := hb.eq_of_buildingBlock hbb'
  simp only [completeBlock, bind_eq_ok, pure_eq_ok] at hcomplete
  obtain ⟨bsp, hsigned, rfl⟩ := hcomplete
  cases hcb
  have hmade : bsp.header.toBlockHeader = header := header_of_finishNextSigned hsigned
  subst hmade
  exact Finished.of_made (finishNextSigned_eq_ok hsigned) hheader

/-! ### Moves -/

/-- The features have been checked against the features of the head, at the time of the head when
the block is made here, and at the time of the block when it was received. -/
def Validated (env : ControllerEnv) (s : ChainState) (features : List Sha256) : Prop :=
  features = [] ∨ ∃ timestamp, env.validator timestamp s.controller.head.activatedProtocolFeatures
    features = .ok ()

/-- The moves of a chain.  A block that is applied is started, filled and committed like a block
that is produced. -/
inductive Move (env : ControllerEnv) : ChainState → ChainState → Prop
  | start {s s' : ChainState} {when_ : UInt32} {n : UInt16} {features : List Sha256}
      {status : BlockStatus} {bb : BuildingBlock}
      (hp : s.controller.head.nextPending env.toHeaderEnv when_ n = .ok bb.pendingBlockHeaderState)
      (hvalid : s.Validated env features) (hstarted : Started env s features status bb s') :
      Move env s s'
  | call {s s' : ChainState} {bb bb' : BuildingBlock} {status : BlockStatus}
      (hb : s.Builds bb status) (hsame : SameBlock bb status s bb' s')
      (hcalled : Called s bb status s') : Move env s s'
  | commit {s : ChainState} {bb : BuildingBlock} {status : BlockStatus} {head : BlockState}
      {db : ChainDatabase} (hb : s.Builds bb status) (hstatus : status ≠ .ephemeral)
      (hfinished : Finished bb head.toBlockHeaderState) (hdb : s.session = some db) :
      Move env s (s.committed head db)
  | abort {s : ChainState} {p : PendingState} {db : ChainDatabase}
      (hpending : s.controller.pending = some p) (hdb : s.session = some db) :
      Move env s (s.undo s.controller.head db)
  | pop {s : ChainState} {prev : BlockState} {db : ChainDatabase}
      {below : List (BlockState × ChainDatabase)} (hpending : s.controller.pending = none)
      (hbelow : s.below = (prev, db) :: below) : Move env s { s.undo prev db with below := below }

/-- A move on top of the given head. -/
def MoveOn (env : ControllerEnv) (head : BlockState) (s s' : ChainState) : Prop :=
  s.controller.head = head ∧ Move env s s'

lemma moves_of_calls {head : BlockState} (hb : s.Builds bb status)
    (hhead : s.controller.head = head) (hsound : ∀ c ∈ calls, SoundCall c)
    (h : calls.foldlM (ChainState.call env) s = .ok s') :
    ∃ bb', SameBlock bb status s bb' s' ∧ ReflTransGen (MoveOn env head) s s' := by
  induction calls generalizing s bb with
  | nil =>
    cases h
    exact ⟨bb, .refl hb, .refl⟩
  | cons c calls ih =>
    rw [foldlM_cons, bind_eq_ok] at h
    obtain ⟨s1, hc, h⟩ := h
    obtain ⟨bb1, hsame, hcalled⟩ := call_eq_ok hb (hsound c mem_cons_self) hc
    obtain ⟨bb', hsame', hmoves⟩ := ih hsame.builds (hsame.head_eq.trans hhead)
        (fun c hc => hsound c (mem_cons_of_mem _ hc)) h
    exact ⟨bb', hsame.trans hsame', .head ⟨hhead, .call hb hsame hcalled⟩ hmoves⟩

/-- A block is applied by starting it, executing its transactions and committing it: the header that
comes out is the one that was received. -/
lemma moves_of_applyBlock
    (hnext : s.controller.head.next env.toHeaderEnv bsp.header bsp.additionalSignatures skip =
      .ok bsp) (hstatus : status ≠ .ephemeral) (hsound : ∀ c ∈ calls, SoundCall c)
    (h : s.applyBlock env bsp status calls = .ok s') :
    ReflTransGen (MoveOn env s.controller.head) s s' := by
  simp only [applyBlock, bind_eq_ok, sysAssert_eq_ok, require_eq_ok] at h
  obtain ⟨started, hstart, c, hroot, filled, hfilled, assembled, hassembled, ab, hab, -, hheader,
    hcommit⟩ := h
  obtain ⟨bb, hp, hstarted⟩ := startBlock_eq_ok hstart
  obtain ⟨db, hid, hdb, rfl⟩ := commitBlock_eq_ok hcommit
  -- the root of the received block, then the calls
  simp only [setTrxMroot, bind_eq_ok, pure_eq_ok] at hroot
  obtain ⟨⟨bb0, status0⟩, hbb, rfl⟩ := hroot
  obtain ⟨rfl, rfl⟩ := hstarted.builds.eq_of_buildingBlock hbb
  obtain ⟨hsame0, hcalled0⟩ : SameBlock bb0 status0 started
      { bb0 with trxMrootOrReceiptDigests := .inl bsp.header.transactionMroot } _ ∧ _ :=
    called_of_replace rfl rfl rfl
  obtain ⟨bb', hsame, hmoves⟩ := moves_of_calls hsame0.builds hstarted.head_eq hsound hfilled
  -- the header is made again, and finished as it was when it was received
  simp only [finalizeBlock, bind_eq_ok, pure_eq_ok] at hassembled
  obtain ⟨⟨bb1, status1⟩, hbb1, header, hmade, rfl⟩ := hassembled
  obtain ⟨rfl, rfl⟩ := hsame.builds.eq_of_buildingBlock hbb1
  cases hab
  obtain ⟨p, hp', hresult, hchecked⟩ := next_finishResult hnext
  have hpeq : p = bb1.pendingBlockHeaderState := by
    have heq := hp'.symm.trans hp
    rw [(hsame0.trans hsame).header_eq]
    exact Except.ok.inj heq
  have hfinished : Finished bb1 bsp :=
    Finished.of_made (hpeq ▸ hresult) (hmade.trans (congrArg _ hheader.symm))
  have hvalid : s.Validated env bsp.getNewProtocolFeatureActivations := by
    obtain ⟨slot, proauth, -, -, -, rfl⟩ := nextPending_eq_ok hp'
    unfold getNewProtocolFeatureActivations
    cases hf : bsp.headerExts.findSome? newProtocolFeatures with
    | none => exact .inl rfl
    | some features => exact .inr ⟨_, hchecked features hf⟩
  have hfilledHead : filled.controller.head = s.controller.head :=
    hsame.head_eq.trans hstarted.head_eq
  exact ((hmoves.head ⟨hstarted.head_eq, .call hstarted.builds hsame0 hcalled0⟩).head
    ⟨rfl, .start hp hvalid hstarted⟩).tail ⟨hfilledHead, .commit hsame.builds hstatus hfinished hdb⟩

/-- **Every event is a sequence of moves.** -/
theorem Step.moves (h : Step env s e s') :
    ReflTransGen (MoveOn env s.controller.head) s s' := by
  obtain ⟨harises, h⟩ := h
  cases e with
  | startBlock =>
    simp only [apply, bind_eq_ok] at h
    obtain ⟨_, hvalid, -, -, h⟩ := h
    obtain ⟨bb, hp, hstarted⟩ := startBlock_eq_ok h
    refine .single ⟨rfl, .start hp ?_ hstarted⟩
    unfold validateProtocolFeatures at hvalid
    split_ifs at hvalid with hempty
    · exact .inl hempty
    · exact .inr ⟨_, hvalid⟩
  | call c =>
    obtain ⟨⟨bb, status, hb⟩, hsound⟩ := harises
    obtain ⟨bb', hsame, hcalled⟩ := call_eq_ok hb hsound h
    exact .single ⟨rfl, .call hb hsame hcalled⟩
  | produce signer =>
    obtain ⟨bb, status, hb, hstatus, head, db, hfinished, hdb, rfl⟩ := produce_eq_ok h
    exact .single ⟨rfl, .commit hb hstatus hfinished hdb⟩
  | applyBlock =>
    obtain ⟨⟨skip, hnext⟩, hstatus, -, hsound⟩ := harises
    exact moves_of_applyBlock hnext hstatus hsound h
  | abortBlock =>
    cases h
    unfold abortBlock
    split
    · next p db hpending hdb => exact .single ⟨rfl, .abort hpending hdb⟩
    · exact .refl
  | popBlock =>
    simp only [apply, popBlock] at h
    split at h
    · next prev db below hpending hbelow =>
      cases h
      exact .single ⟨rfl, .pop hpending hbelow⟩
    · cases h

/-! ### Invariants -/

/-- **The rule of invariants of a chain**: what every move on top of a head with `H` keeps. -/
theorem run_induction {tr : List (Transition ChainState Event)} {s0 : ChainState}
    {H : BlockState → Prop} {Q : ChainState → Prop} (h0 : Q s0)
    (hmove : ∀ s s', H s.controller.head → Q s → Move env s s' → Q s')
    (hr : Run (Step env) s0 tr s) (hH : ∀ t ∈ tr, H t.pre.controller.head) : Q s := by
  refine (Run.forall_transition (C := fun s _ _ => H s.controller.head) h0 ?_ hr hH).1
  intro s e s' h hhead hstep
  have hmoves := hstep.moves
  clear hstep
  induction hmoves with
  | refl => exact h
  | tail _ hlast ih => exact hmove _ _ (hlast.1 ▸ hhead) ih hlast.2

/-- The head with the database that it left. -/
def settled (s : ChainState) : BlockState × ChainDatabase :=
  (s.controller.head, s.session.getD s.database)

/-- The blocks of the chain satisfy `G`, and a block that is being built `B`. -/
structure Invariant (G : BlockState × ChainDatabase → List (BlockState × ChainDatabase) → Prop)
    (B : ChainState → BuildingBlock → BlockStatus → Prop) (s : ChainState) : Prop where
  stacked : Stacked G (s.settled :: s.below)
  stage : s.controller.pending = none ∧ s.session = none ∨
    ∃ bb status db, s.Builds bb status ∧ s.session = some db ∧ B s bb status

/-- What has to be proved of `G` and `B` in states with `P`: what a block is started with, what its
calls keep and what is left when it is committed. -/
structure Kept (env : ControllerEnv) (P : ChainState → Prop)
    (G : BlockState × ChainDatabase → List (BlockState × ChainDatabase) → Prop)
    (B : ChainState → BuildingBlock → BlockStatus → Prop) : Prop where
  start : ∀ {s s' : ChainState} {when_ : UInt32} {n : UInt16} {features : List Sha256}
    {status : BlockStatus} {bb : BuildingBlock}, P s →
    s.controller.head.nextPending env.toHeaderEnv when_ n = .ok bb.pendingBlockHeaderState →
    s.Validated env features → Started env s features status bb s' →
    G (s.controller.head, s.database) s.below → B s' bb status
  call : ∀ {s s' : ChainState} {bb bb' : BuildingBlock} {status : BlockStatus}, P s →
    SameBlock bb status s bb' s' → Called s bb status s' → B s bb status → B s' bb' status
  commit : ∀ {s : ChainState} {bb : BuildingBlock} {status : BlockStatus} {head : BlockState}
    {db : ChainDatabase}, P s → status ≠ .ephemeral →
    Finished bb head.toBlockHeaderState → s.session = some db → B s bb status →
    G (s.controller.head, db) s.below →
    G (head, s.database) ((s.controller.head, db) :: s.below)

namespace Invariant

variable {G : BlockState × ChainDatabase → List (BlockState × ChainDatabase) → Prop}
  {B : ChainState → BuildingBlock → BlockStatus → Prop} {P : ChainState → Prop}

lemma session_eq_none (h : Invariant G B s) (hpending : s.controller.pending = none) :
    s.session = none := by
  rcases h.stage with ⟨-, hnone⟩ | ⟨bb, status, db, hb, -, -⟩
  · exact hnone
  · rw [Builds, hpending] at hb
    cases hb

lemma top (h : Invariant G B s) (hpending : s.controller.pending = none) :
    G (s.controller.head, s.database) s.below := by
  have htop := h.stacked.1
  rwa [settled, h.session_eq_none hpending] at htop

lemma building (h : Invariant G B s) (hb : s.Builds bb status) :
    (∃ db, s.session = some db) ∧ B s bb status := by
  rcases h.stage with ⟨hnone, -⟩ | ⟨bb', status', db, hb', hdb, hB⟩
  · rw [Builds, hnone] at hb
    cases hb
  · have heq := hb.symm.trans hb'
    cases heq
    exact ⟨⟨db, hdb⟩, hB⟩

lemma of_move (hkept : Kept env P G B) (hP : P s) (h : Invariant G B s)
    (hmove : Move env s s') : Invariant G B s' := by
  cases hmove with
  | start hp hvalid hstarted =>
    have hG := h.top hstarted.not_pending
    refine ⟨?_, .inr ⟨_, _, _, hstarted.builds, hstarted.session_eq,
      hkept.start hP hp hvalid hstarted hG⟩⟩
    have hstacked := h.stacked
    rw [settled, h.session_eq_none hstarted.not_pending] at hstacked
    rwa [settled, hstarted.head_eq, hstarted.session_eq, hstarted.below_eq]
  | call hb hsame hcalled =>
    obtain ⟨⟨db, hdb⟩, hB⟩ := h.building hb
    refine ⟨?_, .inr ⟨_, _, db, hsame.builds, hsame.session_eq.trans hdb,
      hkept.call hP hsame hcalled hB⟩⟩
    have hstacked := h.stacked
    rw [settled, hdb] at hstacked
    rwa [settled, hsame.head_eq, hsame.session_eq, hdb, hsame.below_eq]
  | commit hb hstatus hfinished hdb =>
    obtain ⟨-, hB⟩ := h.building hb
    have hstacked := h.stacked
    rw [settled, hdb] at hstacked
    exact ⟨⟨hkept.commit hP hstatus hfinished hdb hB hstacked.1, hstacked⟩, .inl ⟨rfl, rfl⟩⟩
  | abort hpending hdb =>
    have hstacked := h.stacked
    rw [settled, hdb] at hstacked
    exact ⟨hstacked, .inl ⟨rfl, rfl⟩⟩
  | pop hpending hbelow =>
    have hstacked := h.stacked.2
    rw [hbelow] at hstacked
    exact ⟨hstacked, .inl ⟨rfl, rfl⟩⟩

end Invariant

/-! ### Carrying out events -/

/-- Whether an event of a node that makes its own blocks can happen; nobody is owed RAM here. -/
def arisesLocally (s : ChainState) : Event → Bool
  | .applyBlock _ _ _ => false
  | .call (.changeRam _ ramCorrections) =>
    s.controller.buildingBlock.toOption.isSome && ramCorrections.rows.isEmpty
  | .call _ => s.controller.buildingBlock.toOption.isSome
  | _ => true

lemma arises_of_arisesLocally (h : s.arisesLocally e = true) : s.Arises env e := by
  have hbuilds : s.controller.buildingBlock.toOption.isSome = true →
      ∃ bb status, s.Builds bb status := by
    intro hsome
    obtain ⟨⟨bb, status⟩, hbb⟩ := isSome_iff_exists.mp hsome
    exact ⟨bb, status, buildingBlock_eq_ok (eq_ok_of_toOption hbb)⟩
  cases e with
  | applyBlock => cases h
  | call c =>
    cases c with
    | changeRam =>
      obtain ⟨hsome, hempty⟩ := (Bool.and_eq_true _ _).mp h
      refine ⟨hbuilds hsome, fun c hc => ?_⟩
      rw [List.isEmpty_iff.mp hempty] at hc
      cases hc
    | _ => exact ⟨hbuilds h, trivial⟩
  | _ => trivial

/-- Carries out an event of a node that makes its own blocks. -/
def nextLocal (env : ControllerEnv) (s : ChainState) (e : Event) : Option ChainState :=
  if s.arisesLocally e then (s.apply env e).toOption else none

lemma step_of_nextLocal (h : s.nextLocal env e = some s') : Step env s e s' := by
  unfold nextLocal at h
  split_ifs at h with harises
  exact ⟨arises_of_arisesLocally harises, eq_ok_of_toOption h⟩

end ChainState

end Sysio
