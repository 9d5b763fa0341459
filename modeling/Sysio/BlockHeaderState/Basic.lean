import Sysio.BlockHeader
import Sysio.Data.OrderStatistic
import Sysio.Data.Table
import Sysio.IncrementalMerkle

/-!
# Block header states

`BlockHeaderState.next` is the header state machine: from the state of a block and a signed header
it computes the state of the next block, or throws.  It has two halves, as in the source:
`nextPending` works out everything that the time slot and the `confirmed` field decide (the
scheduled producer, the confirmation counters, the irreversible block numbers, the promotion of a
pending schedule), and `finishNext` checks the header against the result and takes over the new
schedule, the feature activations and the signatures.

Hashing, key recovery and the feature validator are fields of `HeaderEnv`.
-/

namespace Sysio

/-! ### Configuration -/

def producerRepetitions : ℕ := 12

def maxProducers : ℕ := 125

def maximumTrackedDposConfirmations : ℕ := 1024

/-- What the header functions use from outside: the hash functions, the recovery of a public key
from a signature, the digest of the built-in feature `wtmsig_block_signatures` and the validator of
feature activations. -/
structure HeaderEnv where
  /-- `block_header::digest`. -/
  digest : BlockHeader → Sha256
  /-- `digest_type::hash` of a legacy schedule. -/
  hashLegacySchedule : LegacyProducerSchedule → Sha256
  /-- `digest_type::hash` of a schedule. -/
  hashSchedule : ProducerAuthoritySchedule → Sha256
  /-- `digest_type::hash` of a pair of digests. -/
  hashPair : Sha256 → Sha256 → Sha256
  /-- The constructor of `public_key` from a signature and a digest, which throws for a signature
  that is malformed or not canonical. -/
  recover : Signature → Sha256 → Result PublicKey
  /-- `pfs.get_builtin_digest(builtin_protocol_feature_t::wtmsig_block_signatures)`. -/
  wtmsigDigest : Option Sha256
  /-- The `validator` callback: timestamp, current features, new features. -/
  validator : UInt32 → List Sha256 → List Sha256 → Result Unit

/-- `hash(make_canonical_pair(l, r))`: the first bit of each digest marks its side. -/
def HeaderEnv.hashCanonicalPair (env : HeaderEnv) (l r : Sha256) : Sha256 :=
  env.hashPair { l with h0 := l.h0 &&& 0xFFFFFFFFFFFFFF7F } { r with h0 := r.h0 ||| 0x80 }

/-- `block_header::calculate_id`: the digest with the block number in its first four bytes. -/
def HeaderEnv.calculateId (env : HeaderEnv) (h : BlockHeader) : BlockId :=
  let result := env.digest h
  { result with
    h0 := (result.h0 &&& 0xffffffff00000000) + endianReverseU32 (UInt64.ofNat h.blockNum) }

/-! ### States -/

/-- `flat_map<account_name,uint32_t>`. -/
abbrev ProducerMap := Table Name (Name × ℕ) Prod.fst

structure BlockHeaderStateCommon where
  blockNum : ℕ
  dposProposedIrreversibleBlocknum : ℕ
  dposIrreversibleBlocknum : ℕ
  activeSchedule : ProducerAuthoritySchedule
  blockrootMerkle : IncrementalMerkle Sha256
  producerToLastProduced : ProducerMap
  producerToLastImpliedIrb : ProducerMap
  validBlockSigningAuthority : BlockSigningAuthority
  confirmCount : List UInt8
  deriving DecidableEq

structure ScheduleInfo where
  /-- The number of the block that made the schedule pending. -/
  scheduleLibNum : ℕ
  scheduleHash : Sha256
  schedule : ProducerAuthoritySchedule
  deriving DecidableEq

structure PendingBlockHeaderState extends BlockHeaderStateCommon where
  prevActivatedProtocolFeatures : List Sha256
  prevPendingSchedule : ScheduleInfo
  wasPendingPromoted : Bool
  previous : BlockId
  producer : Name
  timestamp : UInt32
  activeScheduleVersion : UInt32
  confirmed : UInt16

structure BlockHeaderState extends BlockHeaderStateCommon where
  id : BlockId
  header : SignedBlockHeader
  pendingSchedule : ScheduleInfo
  activatedProtocolFeatures : List Sha256
  additionalSignatures : List Signature
  headerExts : List HeaderExtension
  deriving DecidableEq

/-- `first_preferred`: a larger irreversible block number wins, then a larger block number. -/
def firstPreferred (lhs rhs : BlockHeaderState) : Prop :=
  rhs.dposIrreversibleBlocknum < lhs.dposIrreversibleBlocknum ∨
    rhs.dposIrreversibleBlocknum = lhs.dposIrreversibleBlocknum ∧ rhs.blockNum < lhs.blockNum

instance : DecidableRel firstPreferred := fun _ _ => inferInstanceAs (Decidable (_ ∨ _))

namespace BlockHeaderState

/-- `get_scheduled_producer`; `none` when the schedule is empty, where the source takes a
remainder by zero. -/
def getScheduledProducer (s : BlockHeaderState) (t : UInt32) : Option ProducerAuthority :=
  let index := t.toNat % (s.activeSchedule.producers.length * producerRepetitions)
  s.activeSchedule.producers[index / producerRepetitions]?

/-! ### The confirmation counters -/

/-- `(uint32_t)(num_active_producers * 2 / 3) + 1`, stored in a `uint8_t`. -/
def requiredConfs (schedule : ProducerAuthoritySchedule) : UInt8 :=
  UInt8.ofNat (u32 (schedule.producers.length * 2 / 3) + 1)

/-- Grows the counters by the one for the new block, dropping the oldest when the window is
full. -/
def growConfirmCount (confirmCount : List UInt8) (requiredConfs : UInt8) : List UInt8 :=
  if confirmCount.length < maximumTrackedDposConfirmations then
    confirmCount ++ [requiredConfs]
  else
    confirmCount.drop 1 ++ [requiredConfs]

/-- The confirmation loop.  The first argument is `i + 1` and the second `blocks_to_confirm`; the
result holds the counters and the new proposed irreversible block number, if one counter reached
zero. -/
def confirmLoop (blockNum : ℕ) : ℕ → ℕ → List UInt8 → List UInt8 × Option ℕ
  | 0, _, confirmCount => (confirmCount, none)
  | _ + 1, 0, confirmCount => (confirmCount, none)
  | i + 1, blocksToConfirm + 1, confirmCount =>
    let confirmCount := confirmCount.modify i (· - 1)
    if confirmCount[i]? = some 0 then
      let blockNumForI := subU32 blockNum (u32 (confirmCount.length - 1 - i))
      -- the counters of this block and of all older ones are dropped
      if i = confirmCount.length - 1 then ([], some blockNumForI)
      else (confirmCount.drop (i + 1), some blockNumForI)
    else confirmLoop blockNum i blocksToConfirm confirmCount

/-- The counters after block `blockNum` with the given `confirmed` field, and the proposed
irreversible block number it implies. -/
def confirmBlocks (s : BlockHeaderState) (blockNum : ℕ) (numPrevBlocksToConfirm : UInt16) :
    List UInt8 × ℕ :=
  let grown := growConfirmCount s.confirmCount (requiredConfs s.activeSchedule)
  -- the new block confirms itself, too
  let r := confirmLoop blockNum grown.length (numPrevBlocksToConfirm.toNat + 1) grown
  (r.1, r.2.getD s.dposProposedIrreversibleBlocknum)

/-! ### Irreversibility -/

/-- `calc_dpos_last_irreversible`: one third into the sorted list of what each producer implies to
be irreversible, the producer of the next block with its new value. -/
def calcDposLastIrreversible (s : BlockHeaderState) (producerOfNextBlock : Name) : ℕ :=
  let blocknums := s.producerToLastImpliedIrb.rows.map fun i =>
    if i.1 = producerOfNextBlock then s.dposProposedIrreversibleBlocknum else i.2
  if blocknums.length = 0 then 0
  else (nthElement blocknums ((blocknums.length - 1) / 3)).getD 0

/-! ### Schedule promotion -/

/-- A map rebuilt for the producers of a schedule, by assigning each producer in schedule order. -/
def rebuildMap (schedule : ProducerAuthoritySchedule) (value : Name → ℕ) : ProducerMap :=
  schedule.names.foldl (fun m pro => m.upsert (pro, value pro)) Table.empty

/-- The value of a retained producer, or `fallback` for a producer that is new. -/
def existingOr (m : ProducerMap) (fallback : ℕ) (pro : Name) : ℕ :=
  ((m.find? pro).map Prod.snd).getD fallback

section

variable (s : BlockHeaderState) (schedule : ProducerAuthoritySchedule) (producer : Name)

/-- `new_producer_to_last_produced` of a promotion in block `blockNum` by `producer`. -/
def promoteLastProduced (blockNum dposIrreversibleBlocknum : ℕ) : ProducerMap :=
  (rebuildMap schedule fun pro =>
    if pro = producer then blockNum
    else existingOr s.producerToLastProduced dposIrreversibleBlocknum pro).upsert
      (producer, blockNum)

/-- `new_producer_to_last_implied_irb` of a promotion in a block by `producer`. -/
def promoteLastImpliedIrb (dposIrreversibleBlocknum : ℕ) : ProducerMap :=
  rebuildMap schedule fun pro =>
    if pro = producer then s.dposProposedIrreversibleBlocknum
    else existingOr s.producerToLastImpliedIrb dposIrreversibleBlocknum pro

end

/-- The promotion test: there is a pending schedule, and the block that announced it has become
irreversible. -/
def promotes (s : BlockHeaderState) (dposIrreversibleBlocknum : ℕ) : Prop :=
  s.pendingSchedule.schedule.producers.length ≠ 0 ∧
    s.pendingSchedule.scheduleLibNum ≤ dposIrreversibleBlocknum

instance (s : BlockHeaderState) (n : ℕ) : Decidable (s.promotes n) :=
  inferInstanceAs (Decidable (_ ∧ _))

/-! ### `next`, first half -/

/-- The slot of the next block: the given one, which must be in the future, or the following one
when none is given. -/
def nextSlot (s : BlockHeaderState) (when_ : UInt32) : Result UInt32 :=
  if when_ ≠ 0 then do
    sysAssert (s.header.timestamp < when_) .blockValidateException
      "next block must be in the future"
    pure when_
  else pure (s.header.timestamp + 1)

/-- The double confirmation check: the last block of the producer must lie below the range that
the new block confirms.  The lower end of the range is computed in `uint32_t`. -/
def checkDoubleConfirm (s : BlockHeaderState) (producer : Name)
    (numPrevBlocksToConfirm : UInt16) : Result Unit :=
  match s.producerToLastProduced.find? producer with
  | none => pure ()
  | some (_, lastProduced) =>
    sysAssert (lastProduced < subU32 (u32 (s.blockNum + 1)) numPrevBlocksToConfirm.toNat)
      .producerDoubleConfirm "producer double-confirming known range"

section

variable (env : HeaderEnv) (s : BlockHeaderState) (when_ : UInt32) (numPrevBlocksToConfirm : UInt16)

/-- The pending state of a block by `proauth` in slot `when_`, with every check passed. -/
def pendingState (proauth : ProducerAuthority) : PendingBlockHeaderState :=
  let blockNum := u32 (s.blockNum + 1)
  let confirmation := s.confirmBlocks blockNum numPrevBlocksToConfirm
  -- the proposal of the parent counts here, not the one just computed
  let lib := s.calcDposLastIrreversible proauth.producerName
  { blockNum := blockNum
    dposProposedIrreversibleBlocknum := confirmation.2
    dposIrreversibleBlocknum := lib
    activeSchedule := if s.promotes lib then s.pendingSchedule.schedule else s.activeSchedule
    blockrootMerkle := s.blockrootMerkle.append env.hashCanonicalPair s.id
    producerToLastProduced :=
      if s.promotes lib then
        s.promoteLastProduced s.pendingSchedule.schedule proauth.producerName blockNum lib
      else s.producerToLastProduced.upsert (proauth.producerName, blockNum)
    producerToLastImpliedIrb :=
      if s.promotes lib then
        s.promoteLastImpliedIrb s.pendingSchedule.schedule proauth.producerName lib
      else
        s.producerToLastImpliedIrb.upsert (proauth.producerName, s.dposProposedIrreversibleBlocknum)
    validBlockSigningAuthority := proauth.authority
    confirmCount := confirmation.1
    prevActivatedProtocolFeatures := s.activatedProtocolFeatures
    prevPendingSchedule := s.pendingSchedule
    wasPendingPromoted := decide (s.promotes lib)
    previous := s.id
    producer := proauth.producerName
    timestamp := when_
    activeScheduleVersion := s.activeSchedule.version
    confirmed := numPrevBlocksToConfirm }

/-- `block_header_state::next( when, num_prev_blocks_to_confirm )`. -/
def nextPending : Result PendingBlockHeaderState := do
  let slot ← s.nextSlot when_
  match s.getScheduledProducer slot with
  | none => .error ⟨.undefinedBehavior, "remainder by an empty schedule"⟩
  | some proauth => do
    s.checkDoubleConfirm proauth.producerName numPrevBlocksToConfirm
    pure (s.pendingState env slot numPrevBlocksToConfirm proauth)

end

end BlockHeaderState

/-! ### `next`, second half -/

namespace PendingBlockHeaderState

/-- `detail::is_builtin_activated` of `wtmsig_block_signatures` before this block. -/
def wtmsigEnabled (env : HeaderEnv) (p : PendingBlockHeaderState) : Bool :=
  match env.wtmsigDigest with
  | none => false
  | some d => decide (d ∈ p.prevActivatedProtocolFeatures)

/-- A schedule as a header announces it before `wtmsig_block_signatures`: each producer has one key
that satisfies its authority alone. -/
def downgradeProducers (schedule : ProducerAuthoritySchedule) : Result LegacyProducerSchedule := do
  let producers ← schedule.producers.mapM fun p =>
    match p.authority.keys with
    | [kw] => do
      sysAssert (kw.weight.toNat = p.authority.threshold.toNat) .producerScheduleException
        "multisig block signing present before enabled!"
      pure (⟨p.producerName, kw.key⟩ : ProducerKey)
    | _ => .error ⟨.producerScheduleException, "multisig block signing present before enabled!"⟩
  pure ⟨schedule.version, producers⟩

def makeBlockHeader (env : HeaderEnv) (p : PendingBlockHeaderState)
    (transactionMroot actionMroot : Sha256) (newProducers : Option ProducerAuthoritySchedule)
    (newProtocolFeatureActivations : List Sha256) (sHeader : Option SHeader) :
    Result BlockHeader := do
  let exts :=
    if newProtocolFeatureActivations.length > 0 then
      emplaceExtension [] (.protocolFeatureActivation newProtocolFeatureActivations)
    else []
  let (legacy, exts) ←
    match newProducers with
    | none => pure (none, exts)
    | some schedule =>
      if p.wtmsigEnabled env then
        pure (none, emplaceExtension exts (.producerScheduleChange schedule))
      else do
        let downgraded ← downgradeProducers schedule
        pure (some downgraded, exts)
  -- the map of extensions is ordered by their ids
  let exts := (sHeader.map fun s => emplaceExtension exts (.sRoot s)).getD exts
  pure
    { timestamp := p.timestamp
      producer := p.producer
      confirmed := p.confirmed
      previous := p.previous
      transactionMroot := transactionMroot
      actionMroot := actionMroot
      scheduleVersion := p.activeScheduleVersion
      newProducers := legacy
      headerExtensions := exts }

/-- The checks that a new schedule of the given version passes, whichever way it is announced. -/
def checkNewSchedule (p : PendingBlockHeaderState) (version : UInt32) : Result Unit := do
  sysAssert (p.wasPendingPromoted = false) .producerScheduleException
    "cannot set pending producer schedule in the same block in which pending was promoted to active"
  sysAssert (version = p.activeSchedule.version + 1) .producerScheduleException
    "wrong producer schedule version specified"
  sysAssert (p.prevPendingSchedule.schedule.producers = []) .producerScheduleException
    "cannot set new pending producers until last pending is confirmed"

section

variable (env : HeaderEnv) (p : PendingBlockHeaderState)

/-- The schedule that the header announces in `new_producers`, with its hash. -/
def legacySchedule (h : BlockHeader) : Result (Option (ProducerAuthoritySchedule × Sha256)) :=
  match h.newProducers with
  | none => pure none
  | some newProducers => do
    sysAssert (p.wtmsigEnabled env = false) .producerScheduleException
      ("Block header contains legacy producer schedule outdated by activation of " ++
        "WTMsig Block Signatures")
    p.checkNewSchedule newProducers.version
    pure (some (.ofLegacy newProducers, env.hashLegacySchedule newProducers))

/-- The schedule that the header announces in an extension, with its hash. -/
def extensionSchedule (exts : List HeaderExtension) :
    Result (Option (ProducerAuthoritySchedule × Sha256)) :=
  match exts.findSome? HeaderExtension.newSchedule with
  | none => pure none
  | some schedule => do
    sysAssert (p.wtmsigEnabled env = true) .producerScheduleException
      "Block header producer_schedule_change_extension before activation of WTMsig Block Signatures"
    p.checkNewSchedule schedule.version
    pure (some (schedule, env.hashSchedule schedule))

/-- The feature set after the activations in the header (`protocol_feature_activation_set`). -/
def activateFeatures (exts : List HeaderExtension) : Result (List Sha256) :=
  match exts.findSome? HeaderExtension.newProtocolFeatures with
  | none => pure p.prevActivatedProtocolFeatures
  | some features => do
    env.validator p.timestamp p.prevActivatedProtocolFeatures features
    sysAssert (p.prevActivatedProtocolFeatures ++ features).Nodup .invalidBlockHeaderExtension
      "duplication of protocol feature digests"
    -- a `flat_set`, so sorted and without duplicates
    pure ((p.prevActivatedProtocolFeatures ++ features).insertionSort (· ≤ ·))

end

/-- The pending schedule after this block: the announced one, or the previous one, of which a
promotion leaves only the version. -/
def nextPendingSchedule (p : PendingBlockHeaderState)
    (announced : Option (ProducerAuthoritySchedule × Sha256)) : ScheduleInfo :=
  match announced with
  | some (schedule, hash) => ⟨p.blockNum, hash, schedule⟩
  | none =>
    { p.prevPendingSchedule with
      schedule :=
        if p.wasPendingPromoted then ⟨p.prevPendingSchedule.schedule.version, []⟩
        else p.prevPendingSchedule.schedule }

/-- `_finish_next`. -/
def finishNextUnsigned (env : HeaderEnv) (p : PendingBlockHeaderState) (h : SignedBlockHeader) :
    Result BlockHeaderState := do
  sysAssert (h.timestamp = p.timestamp) .blockValidateException "timestamp mismatch"
  sysAssert (h.previous = p.previous) .unlinkableBlockException "previous mismatch"
  sysAssert (h.confirmed = p.confirmed) .blockValidateException "confirmed mismatch"
  sysAssert (h.producer = p.producer) .wrongProducer "wrong producer specified"
  sysAssert (h.scheduleVersion = p.activeScheduleVersion) .producerScheduleException
    "schedule_version in signed block is corrupted"
  let exts ← h.validateAndExtractHeaderExtensions
  let legacy ← p.legacySchedule env h.toBlockHeader
  let extension ← p.extensionSchedule env exts
  let features ← p.activateFeatures env exts
  pure
    { toBlockHeaderStateCommon := p.toBlockHeaderStateCommon
      id := env.calculateId h.toBlockHeader
      header := h
      -- at most one of the two is there, depending on the feature
      pendingSchedule := p.nextPendingSchedule (extension.or legacy)
      activatedProtocolFeatures := features
      additionalSignatures := []
      headerExts := exts }

end PendingBlockHeaderState

namespace BlockHeaderState

def sigDigest (env : HeaderEnv) (s : BlockHeaderState) : Sha256 :=
  let headerBmroot :=
    env.hashPair (env.digest s.header.toBlockHeader) (s.blockrootMerkle.getRoot Sha256.zero)
  env.hashPair headerBmroot s.pendingSchedule.scheduleHash

/-- The recovered keys of the additional signatures, which must be new ones. -/
def recoverKeys (env : HeaderEnv) (digest : Sha256) :
    List Signature → List PublicKey → Result (List PublicKey)
  | [], keys => .ok keys
  | sig :: sigs, keys => do
    let key ← env.recover sig digest
    sysAssert (key ∉ keys) .wrongSigningKey "block signed by same key twice"
    recoverKeys env digest sigs (key :: keys)

def verifySignee (env : HeaderEnv) (s : BlockHeaderState) : Result Unit := do
  sysAssert (1 + s.additionalSignatures.length ≤ s.validBlockSigningAuthority.keys.length)
    .wrongSigningKey "number of block signatures exceeds number of keys in block signing authority"
  let digest := s.sigDigest env
  let key ← env.recover s.header.producerSignature digest
  let keys ← recoverKeys env digest s.additionalSignatures [key]
  let r := s.validBlockSigningAuthority.keysSatisfyAndRelevant keys
  sysAssert (r.2 = keys.length) .wrongSigningKey "block signed by unexpected key"
  sysAssert (r.1 = true) .wrongSigningKey
    "block signatures do not satisfy the block signing authority"

end BlockHeaderState

def PendingBlockHeaderState.finishNext (env : HeaderEnv) (p : PendingBlockHeaderState)
    (h : SignedBlockHeader) (additionalSignatures : List Signature) (skipValidateSignee : Bool) :
    Result BlockHeaderState := do
  sysAssert (additionalSignatures = [] ∨ p.wtmsigEnabled env = true) .producerScheduleException
    "Block contains multiple signatures before WTMsig block signatures are enabled"
  let result ← p.finishNextUnsigned env h
  let result := { result with additionalSignatures := additionalSignatures }
  if skipValidateSignee then pure result
  else do
    result.verifySignee env
    pure result

namespace BlockHeaderState

/-- `block_header_state::next( header, ... )`. -/
def next (env : HeaderEnv) (s : BlockHeaderState) (h : SignedBlockHeader)
    (additionalSignatures : List Signature) (skipValidateSignee : Bool) :
    Result BlockHeaderState := do
  let pending ← s.nextPending env h.timestamp h.confirmed
  pending.finishNext env h additionalSignatures skipValidateSignee

/-- The header state of the genesis block, as `initialize_blockchain_state` sets it. -/
def genesis (env : HeaderEnv) (initialKey : PublicKey) (initialTimestamp : UInt32)
    (chainId : Sha256) : BlockHeaderState :=
  let initialSchedule : ProducerAuthoritySchedule := ⟨0, [⟨sysioName, ⟨1, [⟨initialKey, 1⟩]⟩⟩]⟩
  let header : BlockHeader :=
    { timestamp := initialTimestamp
      producer := Name.empty
      confirmed := 1
      previous := Sha256.zero
      transactionMroot := Sha256.zero
      actionMroot := chainId
      scheduleVersion := 0
      newProducers := none
      headerExtensions := [] }
  { blockNum := header.blockNum
    dposProposedIrreversibleBlocknum := 0
    dposIrreversibleBlocknum := 0
    activeSchedule := initialSchedule
    blockrootMerkle := IncrementalMerkle.empty
    producerToLastProduced := Table.empty
    producerToLastImpliedIrb := Table.empty
    validBlockSigningAuthority := ⟨0, []⟩
    confirmCount := []
    id := env.calculateId header
    header := ⟨header, ⟨0⟩⟩
    pendingSchedule :=
      -- the initial schedule is pending as well, so that the next block promotes it
      ⟨0, env.hashLegacySchedule ⟨0, [⟨sysioName, initialKey⟩]⟩, initialSchedule⟩
    activatedProtocolFeatures := []
    additionalSignatures := []
    headerExts := [] }

end BlockHeaderState

end Sysio
