import Mathlib.Data.List.DropRight
import Sysio.Data.Table
import Sysio.Types

/-!
# Protocol features

`ProtocolFeatureSet` is what the software recognizes; it is fixed at startup.
`ProtocolFeatureManager` records which of the features are active, and since which block: it grows
when a block is started that activates features, and it shrinks when blocks are popped.  Whether a
built-in feature is active is asked for a block number.
-/

namespace Sysio

/-- `builtin_protocol_feature_t`. -/
inductive BuiltinProtocolFeature
  | preactivateFeature
  | onlyLinkToExistingPermission
  | replaceDeferred
  | noDuplicateDeferredId
  | fixLinkauthRestriction
  | disallowEmptyProducerSchedule
  | restrictActionToSelf
  | onlyBillFirstAuthorizer
  | forwardSetcode
  | getSender
  | ramRestrictions
  | webauthnKey
  | wtmsigBlockSignatures
  | actionReturnValue
  | blockchainParameters
  | getCodeHash
  | configurableWasmLimits
  | cryptoPrimitives
  | getBlockNum
  | emKey
  | blsPrimitives
  | disableDeferredTrxsStage1
  | disableDeferredTrxsStage2
  | disableCompressionInTransactionMerkle
  deriving DecidableEq, Repr

/-- The value of the enumerator; 14 and 15 are reserved. -/
def BuiltinProtocolFeature.index : BuiltinProtocolFeature → ℕ
  | .preactivateFeature => 0
  | .onlyLinkToExistingPermission => 1
  | .replaceDeferred => 2
  | .noDuplicateDeferredId => 3
  | .fixLinkauthRestriction => 4
  | .disallowEmptyProducerSchedule => 5
  | .restrictActionToSelf => 6
  | .onlyBillFirstAuthorizer => 7
  | .forwardSetcode => 8
  | .getSender => 9
  | .ramRestrictions => 10
  | .webauthnKey => 11
  | .wtmsigBlockSignatures => 12
  | .actionReturnValue => 13
  | .blockchainParameters => 16
  | .getCodeHash => 17
  | .configurableWasmLimits => 18
  | .cryptoPrimitives => 19
  | .getBlockNum => 20
  | .emKey => 21
  | .blsPrimitives => 22
  | .disableDeferredTrxsStage1 => 23
  | .disableDeferredTrxsStage2 => 24
  | .disableCompressionInTransactionMerkle => 25

/-- `builtin_dependencies` of `builtin_protocol_feature_codenames`. -/
def BuiltinProtocolFeature.builtinDependencies :
    BuiltinProtocolFeature → List BuiltinProtocolFeature
  | .noDuplicateDeferredId => [.replaceDeferred]
  | .disableDeferredTrxsStage2 => [.disableDeferredTrxsStage1]
  | .disableCompressionInTransactionMerkle => [.disableDeferredTrxsStage2]
  | _ => []

/-- The time of a slot in microseconds (`block_timestamp::operator time_point`). -/
def slotTime (slot : UInt32) : ℕ := (slot.toNat * 500 + 946684800000) * 1000

/-! ### Recognized features -/

structure ProtocolFeature where
  featureDigest : Sha256
  dependencies : List Sha256
  /-- In microseconds. -/
  earliestAllowedActivationTime : ℕ
  preactivationRequired : Bool
  enabled : Bool
  builtinFeature : Option BuiltinProtocolFeature
  deriving DecidableEq, Repr

structure ProtocolFeatureSet where
  /-- `_recognized_protocol_features`. -/
  recognized : Table Sha256 ProtocolFeature fun f => f.featureDigest

/-- `protocol_feature_set::recognized_t`. -/
inductive Recognized
  | unrecognized
  | disabled
  | tooEarly
  | ready
  deriving DecidableEq, Repr

namespace ProtocolFeatureSet

section

variable (pfs : ProtocolFeatureSet)

def isRecognized (featureDigest : Sha256) (now : ℕ) : Recognized :=
  match pfs.recognized.find? featureDigest with
  | none => .unrecognized
  | some f =>
    if f.enabled = false then .disabled
    else if now < f.earliestAllowedActivationTime then .tooEarly
    else .ready

def getBuiltinDigest (feature : BuiltinProtocolFeature) : Option Sha256 :=
  (pfs.recognized.rows.find? fun f => f.builtinFeature = some feature).map (·.featureDigest)

/-- The size of the vector of recognized built-in features, which has a place for every enumerator
up to the largest recognized one. -/
def builtinCount : ℕ :=
  (pfs.recognized.rows.filterMap (·.builtinFeature)).foldl (fun n f => max n (f.index + 1)) 0

/-- The built-in features that the dependencies of a new feature stand for. -/
def dependencyBuiltins (dependencies : List Sha256) :
    Result (List (Option BuiltinProtocolFeature)) :=
  dependencies.mapM fun d => do
    let f ← require (pfs.recognized.find? d) .protocolFeatureException
      "builtin protocol feature has a dependency on a protocol feature that is not recognized"
    pure f.builtinFeature

def addFeature (f : ProtocolFeature) (codename : BuiltinProtocolFeature) :
    Result ProtocolFeatureSet := do
  sysAssert (pfs.getBuiltinDigest codename = none) .protocolFeatureException
    "builtin protocol feature with codename already added"
  let satisfied ← pfs.dependencyBuiltins f.dependencies
  sysAssert (∀ b ∈ codename.builtinDependencies, some b ∈ satisfied)
    .protocolFeatureValidationException
    "Not all the builtin dependencies of the builtin protocol feature were satisfied."
  sysAssert (pfs.recognized.find? f.featureDigest = none) .protocolFeatureException
    "another protocol feature with the same digest has already been added"
  pure ⟨pfs.recognized.upsert { f with builtinFeature := some codename }⟩

def getProtocolFeature (featureDigest : Sha256) : Result ProtocolFeature :=
  require (pfs.recognized.find? featureDigest) .protocolFeatureException
    "unrecognized protocol feature with digest"

def validateDependencies (featureDigest : Sha256) (validator : Sha256 → Bool) : Bool :=
  match pfs.recognized.find? featureDigest with
  | none => false
  | some f => f.dependencies.all validator

end

/-- The `switch` of `check_protocol_features`. -/
def checkRecognized : Recognized → Result Unit
  | .unrecognized =>
    .error ⟨.protocolFeatureException, "protocol feature with digest is unrecognized"⟩
  | .disabled => .error ⟨.protocolFeatureException, "protocol feature with digest is disabled"⟩
  | .tooEarly =>
    .error ⟨.protocolFeatureException,
      "timestamp is too early for the earliest allowed activation time of the protocol feature"⟩
  | .ready => pure ()

lemma checkRecognized_eq_ok {r : Recognized} : checkRecognized r = .ok () ↔ r = .ready := by
  cases r <;> simp [checkRecognized, pure, Except.pure]

/-- The loop of `check_protocol_features`; `before` are the new features already looked at. -/
def checkNewFeatures (pfs : ProtocolFeatureSet) (timestamp : UInt32) (current : List Sha256) :
    List Sha256 → List Sha256 → Result Unit
  | _, [] => .ok ()
  | before, f :: fs => do
    checkRecognized (pfs.isRecognized f (slotTime timestamp))
    sysAssert (f ∉ current) .protocolFeatureException
      "protocol feature with digest has already been activated"
    sysAssert (pfs.validateDependencies f (fun d => decide (d ∈ current ∨ d ∈ before)) = true)
      .protocolFeatureException
      "not all dependencies of protocol feature with digest have been activated"
    checkNewFeatures pfs timestamp current (before ++ [f]) fs

/-- `check_protocol_features`: depends on the recognized features only, not on the state of the
chain. -/
def checkProtocolFeatures (pfs : ProtocolFeatureSet) (timestamp : UInt32)
    (currentlyActivated newProtocolFeatures : List Sha256) : Result Unit :=
  pfs.checkNewFeatures timestamp currentlyActivated [] newProtocolFeatures

end ProtocolFeatureSet

/-! ### Active features -/

structure ProtocolFeatureManager where
  protocolFeatureSet : ProtocolFeatureSet
  /-- `_activated_protocol_features`: the digest and the activation block of each, oldest first. -/
  activatedProtocolFeatures : List (Sha256 × ℕ)
  /-- The list that `_head_of_builtin_activation_list` threads through `_builtin_protocol_features`,
  the latest activation first. -/
  builtinActivationList : List (BuiltinProtocolFeature × ℕ)

namespace ProtocolFeatureManager

def notActive : ℕ := 2 ^ 32 - 1

/-- A manager in whose chain no feature has been activated. -/
def new (pfs : ProtocolFeatureSet) : ProtocolFeatureManager := ⟨pfs, [], []⟩

section

variable (m : ProtocolFeatureManager)

/-- `_builtin_protocol_features[f].activation_block_num`. -/
def activationBlockNum (f : BuiltinProtocolFeature) : ℕ :=
  ((m.builtinActivationList.find? fun e => e.1 = f).map (·.2)).getD notActive

def isBuiltinActivated (f : BuiltinProtocolFeature) (currentBlockNum : ℕ) : Bool :=
  if m.protocolFeatureSet.builtinCount ≤ f.index then false
  else decide (m.activationBlockNum f ≤ currentBlockNum)

def activateFeature (featureDigest : Sha256) (currentBlockNum : ℕ) :
    Result ProtocolFeatureManager := do
  let f ← require (m.protocolFeatureSet.recognized.find? featureDigest) .protocolFeatureException
    "unrecognized protocol feature digest"
  sysAssert (∀ last ∈ m.activatedProtocolFeatures.getLast?, last.2 ≤ currentBlockNum)
    .protocolFeatureException "last protocol feature activation block num is later"
  let builtin ← require f.builtinFeature .protocolFeatureException
    "invariant failure: encountered non-builtin protocol feature which is not yet supported"
  sysAssert (m.activationBlockNum builtin = notActive) .protocolFeatureException
    "cannot activate already activated builtin feature with digest"
  pure { m with
    activatedProtocolFeatures := m.activatedProtocolFeatures ++ [(featureDigest, currentBlockNum)]
    builtinActivationList := (builtin, currentBlockNum) :: m.builtinActivationList }

def poppedBlocksTo (blockNum : ℕ) : ProtocolFeatureManager :=
  { m with
    activatedProtocolFeatures :=
      m.activatedProtocolFeatures.rdropWhile fun e => decide (blockNum < e.2)
    builtinActivationList := m.builtinActivationList.dropWhile fun e => decide (blockNum < e.2) }

end

end ProtocolFeatureManager

end Sysio
