import Sysio.BlockHeaderState.Basic
import Sysio.Merkle
import Sysio.ProtocolFeature
import Sysio.Transaction

/-!
# Blocks

A signed block is a signed header with the transaction receipts and the block extensions.  The
header commits to the receipts with a Merkle root over their digests, of which there are two kinds:
one of the transaction as it was packed, and one that contains the transaction by its id.
-/

namespace Sysio

/-! ### Receipts -/

/-- `transaction_receipt_header::status_enum`. -/
inductive TransactionStatus
  | executed
  | softFail
  | hardFail
  | delayed
  | expired
  deriving DecidableEq, Repr

/-- The transaction of a receipt: by its id if it was scheduled, and whole otherwise. -/
inductive ReceiptTrx
  | id (trxId : Sha256)
  | packed (trx : PackedTransaction)
  deriving DecidableEq, Repr

structure TransactionReceipt where
  status : TransactionStatus
  cpuUsageUs : UInt32
  netUsageWords : ℕ
  trx : ReceiptTrx
  deriving DecidableEq, Repr

/-! ### Blocks -/

/-- `block_extension`, unpacked. -/
inductive BlockExtension
  | additionalBlockSignatures (signatures : List Signature)
  /-- An id type that no extension has. -/
  | unsupported (id : UInt16)
  deriving DecidableEq, Repr

/-- `extension_id()`. -/
def BlockExtension.id : BlockExtension → UInt16
  | .additionalBlockSignatures _ => 2
  | .unsupported id => id

/-- What unpacking an extension checks
(`additional_block_signatures_extension::reflector_init`). -/
def BlockExtension.unpack : BlockExtension → Result Unit
  | .additionalBlockSignatures signatures => do
    sysAssert (signatures ≠ []) .illFormedAdditionalBlockSignaturesExtension
      "Additional block signatures extension must contain at least one signature"
    sysAssert signatures.Nodup .illFormedAdditionalBlockSignaturesExtension
      "Signature was repeated in the additional block signatures extension"
  | .unsupported _ =>
    .error ⟨.invalidBlockExtension, "Block extension with id type is not supported"⟩

/-- The signatures of an `additional_block_signatures_extension`. -/
def BlockExtension.signatures? : BlockExtension → Option (List Signature)
  | .additionalBlockSignatures signatures => some signatures
  | .unsupported _ => none

structure SignedBlock extends SignedBlockHeader where
  transactions : List TransactionReceipt
  blockExtensions : List BlockExtension
  deriving DecidableEq, Repr

namespace SignedBlock

/-- The loop of `validate_and_extract_extensions`: `first` is `i == 0`, `lowerBound` is
`id_type_lower_bound`. -/
def extractExtensions (first : Bool) (lowerBound : UInt16) :
    List BlockExtension → Result (List BlockExtension)
  | [] => .ok []
  | e :: es => do
    sysAssert (lowerBound ≤ e.id) .invalidBlockExtension
      "Block extensions are not in the correct order (ascending id types required)"
    e.unpack
    sysAssert (first = true ∨ lowerBound < e.id) .invalidBlockHeaderExtension
      "Block extension with id type is not allowed to repeat"
    let rest ← extractExtensions false e.id es
    pure (e :: rest)

def validateAndExtractExtensions (b : SignedBlock) : Result (List BlockExtension) :=
  extractExtensions true 0 b.blockExtensions

def extractAdditionalSignatures (b : SignedBlock) : Result (List Signature) := do
  let exts ← b.validateAndExtractExtensions
  pure ((exts.findSome? BlockExtension.signatures?).getD [])

/-- The extensions of a produced block: the signatures beyond the first, if there are any. -/
def extensionsOf (additionalSignatures : List Signature) : List BlockExtension :=
  if additionalSignatures = [] then []
  else [.additionalBlockSignatures additionalSignatures]

lemma extractAdditionalSignatures_of_extensionsOf {b : SignedBlock} {sigs : List Signature}
    (hexts : b.blockExtensions = extensionsOf sigs) (hnodup : sigs.Nodup) :
    b.extractAdditionalSignatures = .ok sigs := by
  unfold extractAdditionalSignatures validateAndExtractExtensions
  rw [hexts, extensionsOf]
  split_ifs with hnil
  · subst hnil
    rfl
  · have hunpack : (BlockExtension.additionalBlockSignatures sigs).unpack = .ok () := by
      simp [BlockExtension.unpack, Result.bind_eq_ok, hnil, hnodup]
    have hextract : extractExtensions true 0 [.additionalBlockSignatures sigs] =
        .ok [.additionalBlockSignatures sigs] := by
      simp only [extractExtensions, Result.bind_eq_ok, sysAssert_eq_ok]
      exact ⟨(), show (0 : UInt16) ≤ 2 by decide, (), hunpack, (), .inl trivial, [], rfl, rfl⟩
    rw [hextract]
    rfl

end SignedBlock

/-! ### Digests -/

/-- What the controller uses from outside, and the features it recognizes: the hash functions of
receipts and packed transactions beside those of headers.  The header functions get the feature set
through their own arguments. -/
structure ControllerEnv extends HeaderEnv where
  /-- The encoder of `transaction_receipt::get_digest`. -/
  hashReceipt : TransactionStatus → UInt32 → ℕ → Sha256 → Sha256
  /-- The encoder of the prunable part in `packed_transaction::packed_digest`. -/
  hashPrunable : List Signature → List UInt8 → Sha256
  /-- The encoder of `packed_transaction::packed_digest`. -/
  hashPacked : Compression → List UInt8 → Sha256 → Sha256
  /-- The encoder of `packed_transaction::digest`. -/
  hashUnpacked : List Signature → List UInt8 → Sha256 → Sha256
  /-- `transaction::id`. -/
  transactionId : Transaction → Sha256
  protocolFeatureSet : ProtocolFeatureSet
  validator_eq : validator = protocolFeatureSet.checkProtocolFeatures
  wtmsigDigest_eq : wtmsigDigest = protocolFeatureSet.getBuiltinDigest .wtmsigBlockSignatures

namespace ControllerEnv

variable (env : ControllerEnv)

/-- `packed_transaction::packed_digest`. -/
def packedTransactionPackedDigest (t : PackedTransaction) : Sha256 :=
  env.hashPacked t.compression t.packedTrx (env.hashPrunable t.signatures t.packedContextFreeData)

/-- `packed_transaction::digest`. -/
def packedTransactionDigest (t : PackedTransaction) : Sha256 :=
  env.hashUnpacked t.signatures t.packedContextFreeData t.trxId

/-- `transaction_receipt::get_digest`, with the digest to take for a packed transaction. -/
def getDigest (packing : PackedTransaction → Sha256) (r : TransactionReceipt) : Sha256 :=
  env.hashReceipt r.status r.cpuUsageUs r.netUsageWords
    (match r.trx with
      | .id trxId => trxId
      | .packed trx => packing trx)

/-- The digest of a receipt that goes into the Merkle root: `transaction_receipt::digest` once
compression is disabled there, and `packed_digest` before. -/
def receiptDigest (disableCompressionInTransactionMerkle : Bool) (r : TransactionReceipt) :
    Sha256 :=
  if disableCompressionInTransactionMerkle then env.getDigest env.packedTransactionDigest r
  else env.getDigest env.packedTransactionPackedDigest r

def calculateTrxMerkle (trxs : List TransactionReceipt)
    (disableCompressionInTransactionMerkle : Bool) : Sha256 :=
  merkle env.hashCanonicalPair Sha256.zero
    (trxs.map (env.receiptDigest disableCompressionInTransactionMerkle))

end ControllerEnv

end Sysio
