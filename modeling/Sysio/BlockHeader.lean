import Sysio.Types

/-!
# Block headers

Producer schedules, block headers and their extensions.  An extension is kept in its unpacked form;
an id that no extension type has is `HeaderExtension.unsupported`.
-/

namespace Sysio

/-! ### Producer schedules -/

structure ProducerKey where
  producerName : Name
  blockSigningKey : PublicKey
  deriving DecidableEq, Repr

/-- `legacy::producer_schedule_type`. -/
structure LegacyProducerSchedule where
  version : UInt32
  producers : List ProducerKey
  deriving DecidableEq, Repr

/-- `block_signing_authority_v0`, the only alternative of `block_signing_authority`. -/
structure BlockSigningAuthority where
  threshold : UInt32
  keys : List KeyWeight
  deriving DecidableEq, Repr

structure ProducerAuthority where
  producerName : Name
  authority : BlockSigningAuthority
  deriving DecidableEq, Repr

structure ProducerAuthoritySchedule where
  version : UInt32
  producers : List ProducerAuthority
  deriving DecidableEq, Repr

namespace ProducerAuthoritySchedule

/-- The up-converting constructor from a legacy schedule: one key of weight 1 a producer. -/
def ofLegacy (old : LegacyProducerSchedule) : ProducerAuthoritySchedule where
  version := old.version
  producers := old.producers.map fun p => ⟨p.producerName, ⟨1, [⟨p.blockSigningKey, 1⟩]⟩⟩

/-- The names of the producers, in schedule order. -/
def names (s : ProducerAuthoritySchedule) : List Name := s.producers.map (·.producerName)

end ProducerAuthoritySchedule

/-- `block_signing_authority_v0::keys_satisfy_and_relevant`: whether the presented keys reach the
threshold (the sum saturates), and how many of the authority's keys are presented. -/
def BlockSigningAuthority.keysSatisfyAndRelevant (a : BlockSigningAuthority)
    (presentedKeys : List PublicKey) : Bool × ℕ :=
  let step := fun (acc : ℕ × ℕ) (kw : KeyWeight) =>
    if kw.key ∈ presentedKeys then
      let total :=
        if acc.1 < a.threshold.toNat then acc.1 + min (2 ^ 32 - 1 - acc.1) kw.weight.toNat
        else acc.1
      (total, acc.2 + 1)
    else acc
  let acc := a.keys.foldl step (0, 0)
  (decide (a.threshold.toNat ≤ acc.1), acc.2)

/-! ### Header extensions -/

structure SHeader where
  contractName : Name
  previousSId : Sha256
  currentSId : Sha256
  currentSRoot : Sha256
  deriving DecidableEq, Repr

/-- `block_header_extension`, unpacked. -/
inductive HeaderExtension
  | protocolFeatureActivation (protocolFeatures : List Sha256)
  | producerScheduleChange (schedule : ProducerAuthoritySchedule)
  | sRoot (sHeader : SHeader)
  /-- An id type that no extension has. -/
  | unsupported (id : UInt16)
  deriving DecidableEq, Repr

/-- `extension_id()`. -/
def HeaderExtension.id : HeaderExtension → UInt16
  | .protocolFeatureActivation _ => 0
  | .producerScheduleChange _ => 1
  | .sRoot _ => 2
  | .unsupported id => id

/-- The schedule of a `producer_schedule_change_extension`. -/
def HeaderExtension.newSchedule : HeaderExtension → Option ProducerAuthoritySchedule
  | .producerScheduleChange schedule => some schedule
  | _ => none

/-- The digests of a `protocol_feature_activation`. -/
def HeaderExtension.newProtocolFeatures : HeaderExtension → Option (List Sha256)
  | .protocolFeatureActivation features => some features
  | _ => none

/-- The header of an `s_root_extension`. -/
def HeaderExtension.sHeader : HeaderExtension → Option SHeader
  | .sRoot sHeader => some sHeader
  | _ => none

/-- What unpacking an extension checks: the id type is known, and a feature activation lists at
least one digest and none twice (`protocol_feature_activation::reflector_init`). -/
def HeaderExtension.unpack : HeaderExtension → Result Unit
  | .protocolFeatureActivation fs => do
    sysAssert (fs ≠ []) .illFormedProtocolFeatureActivation
      "Protocol feature activation extension must have at least one protocol feature digest"
    sysAssert fs.Nodup .illFormedProtocolFeatureActivation
      "Protocol feature digest was repeated in the protocol feature activation extension"
  | .producerScheduleChange _ => pure ()
  | .sRoot _ => pure ()
  | .unsupported _ =>
    .error ⟨.invalidBlockHeaderExtension, "Block header extension with id type is not supported"⟩

/-- `emplace_extension`: behind the extensions whose id is not larger. -/
def emplaceExtension (exts : List HeaderExtension) (ext : HeaderExtension) :
    List HeaderExtension :=
  exts.takeWhile (fun x => decide (x.id ≤ ext.id)) ++ ext ::
    exts.dropWhile fun x => decide (x.id ≤ ext.id)

/-! ### Headers -/

/-- `block_header`.  The timestamp is its slot number. -/
structure BlockHeader where
  timestamp : UInt32
  producer : Name
  confirmed : UInt16
  previous : BlockId
  transactionMroot : Sha256
  actionMroot : Sha256
  scheduleVersion : UInt32
  newProducers : Option LegacyProducerSchedule
  headerExtensions : List HeaderExtension
  deriving DecidableEq, Repr

structure SignedBlockHeader extends BlockHeader where
  producerSignature : Signature
  deriving DecidableEq, Repr

namespace BlockHeader

def blockNum (h : BlockHeader) : ℕ := u32 (numFromId h.previous + 1)

/-- The loop of `validate_and_extract_header_extensions`: `first` is `i == 0`, `lowerBound` is
`id_type_lower_bound`. -/
def extractExtensions (first : Bool) (lowerBound : UInt16) :
    List HeaderExtension → Result (List HeaderExtension)
  | [] => .ok []
  | e :: es => do
    sysAssert (lowerBound ≤ e.id) .invalidBlockHeaderExtension
      "Block header extensions are not in the correct order (ascending id types required)"
    e.unpack
    -- every extension type has `enforce_unique`
    sysAssert (first = true ∨ lowerBound < e.id) .invalidBlockHeaderExtension
      "Block header extension with id type is not allowed to repeat"
    let rest ← extractExtensions false e.id es
    pure (e :: rest)

def validateAndExtractHeaderExtensions (h : BlockHeader) : Result (List HeaderExtension) :=
  extractExtensions true 0 h.headerExtensions

/-- The S-header that a block carries, as `apply_block` looks for it. -/
def sHeader (h : BlockHeader) : Option SHeader :=
  h.headerExtensions.findSome? HeaderExtension.sHeader

end BlockHeader

end Sysio
