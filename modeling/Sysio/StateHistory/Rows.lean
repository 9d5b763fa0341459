import Sysio.ChainConfig
import Sysio.CodeObjects
import Sysio.Permission.Basic

/-!
# Rows of the state history

The nineteen tables that the state history exports, with the fields that are sent and the ones that
decide whether a row is sent at all.  A row is sent as a list of fields: `serialize` follows the
stream operators of `serialization.hpp`, which hand one field after the other to `fc::raw::pack`.
The rows of contracts are sent with the names of their table and permissions with the name of their
parent, so `serialize` looks these up by number and throws where it does not find them.

`naturalKey` picks out of a row what a reader of the history knows it by.
-/

namespace Sysio.StateHistory

open Result List Option

/-! ### Tables -/

/-- The tables, in the order of `pack_deltas`. -/
inductive TableKind
  | account
  | accountMetadata
  | code
  | contractTable
  | contractRow
  | contractIndex64
  | contractIndex128
  | contractIndex256
  | contractIndexDouble
  | contractIndexLongDouble
  | globalProperty
  | generatedTransaction
  | protocolState
  | permission
  | permissionLink
  | resourceLimits
  | resourceUsage
  | resourceLimitsState
  | resourceLimitsConfig
  deriving DecidableEq, Repr

namespace TableKind

def all : List TableKind :=
  [account, accountMetadata, code, contractTable, contractRow, contractIndex64, contractIndex128,
    contractIndex256, contractIndexDouble, contractIndexLongDouble, globalProperty,
    generatedTransaction, protocolState, permission, permissionLink, resourceLimits, resourceUsage,
    resourceLimitsState, resourceLimitsConfig]

lemma mem_all (k : TableKind) : k ∈ all := by
  cases k <;> decide

/-- The name under which a table is sent. -/
def name : TableKind → String
  | account => "account"
  | accountMetadata => "account_metadata"
  | code => "code"
  | contractTable => "contract_table"
  | contractRow => "contract_row"
  | contractIndex64 => "contract_index64"
  | contractIndex128 => "contract_index128"
  | contractIndex256 => "contract_index256"
  | contractIndexDouble => "contract_index_double"
  | contractIndexLongDouble => "contract_index_long_double"
  | globalProperty => "global_property"
  | generatedTransaction => "generated_transaction"
  | protocolState => "protocol_state"
  | permission => "permission"
  | permissionLink => "permission_link"
  | resourceLimits => "resource_limits"
  | resourceUsage => "resource_usage"
  | resourceLimitsState => "resource_limits_state"
  | resourceLimitsConfig => "resource_limits_config"

lemma name_injective : Function.Injective name := by
  intro k k'
  cases k <;> cases k' <;> decide

end TableKind

/-! ### Rows -/

/-- `account_object`. -/
structure AccountRow extends AccountObject where
  abi : List UInt8
  deriving DecidableEq, Repr

/-- `account_metadata_object`. -/
structure AccountMetadataRow extends AccountMetadataObject where
  recvSequence : ℕ
  authSequence : ℕ
  codeSequence : ℕ
  abiSequence : ℕ
  codeHash : Sha256
  lastCodeUpdate : ℕ
  vmType : UInt8
  vmVersion : UInt8
  deriving DecidableEq, Repr

/-- `table_id_object`. -/
structure TableIdRow where
  code : Name
  scope : Name
  table : Name
  payer : Name
  count : ℕ
  deriving DecidableEq, Repr

/-- `key_value_object`. -/
structure KeyValueRow where
  tId : ℕ
  primaryKey : UInt64
  payer : Name
  value : List UInt8
  deriving DecidableEq, Repr

/-- `secondary_index<SecondaryKey,…>::index_object`. -/
structure SecondaryIndexRow (SecondaryKey : Type) where
  tId : ℕ
  primaryKey : UInt64
  payer : Name
  secondaryKey : SecondaryKey
  deriving DecidableEq, Repr

/-- `chain_config`. -/
structure ChainConfigRow extends ChainConfig where
  maxTransactionLifetime : UInt32
  deferredTrxExpirationWindow : UInt32
  maxTransactionDelay : UInt32
  maxInlineActionSize : UInt32
  maxInlineActionDepth : UInt16
  maxActionReturnValueSize : UInt32
  deriving DecidableEq, Repr

structure WasmConfig where
  maxMutableGlobalBytes : UInt32
  maxTableElements : UInt32
  maxSectionElements : UInt32
  maxLinearMemoryInit : UInt32
  maxFuncLocalBytes : UInt32
  maxNestedStructures : UInt32
  maxSymbolBytes : UInt32
  maxModuleBytes : UInt32
  maxCodeBytes : UInt32
  maxPages : UInt32
  maxCallDepth : UInt32
  deriving DecidableEq, Repr

/-- `global_property_object`. -/
structure GlobalPropertyRow where
  proposedScheduleBlockNum : Option ℕ
  proposedSchedule : ProducerAuthoritySchedule
  configuration : ChainConfigRow
  chainId : Sha256
  wasmConfiguration : WasmConfig
  deriving DecidableEq, Repr

/-- `generated_transaction_object`. -/
structure GeneratedTransactionRow where
  trxId : Sha256
  sender : Name
  /-- A `uint128_t`. -/
  senderId : ℕ
  payer : Name
  packedTrx : List UInt8
  deriving DecidableEq, Repr

/-- `protocol_state_object::activated_protocol_feature`. -/
structure ActivatedFeature where
  featureDigest : Sha256
  activationBlockNum : ℕ
  deriving DecidableEq, Repr

/-- `protocol_state_object`. -/
structure ProtocolStateRow where
  activatedProtocolFeatures : List ActivatedFeature
  preactivatedProtocolFeatures : List Sha256
  deriving DecidableEq, Repr

/-- `permission_object`. -/
structure PermissionRow where
  parent : ℕ
  owner : Name
  name : Name
  lastUpdated : ℕ
  auth : Authority
  deriving DecidableEq, Repr

/-- `resource_limits_object`. -/
structure ResourceLimitsRow where
  owner : Name
  pending : Bool
  netWeight : ℤ
  cpuWeight : ℤ
  ramBytes : ℤ
  deriving DecidableEq, Repr

/-- What the rows of a table hold.  Keys of type `float64_t` and `float128_t` are their bits. -/
def Row : TableKind → Type
  | .account => AccountRow
  | .accountMetadata => AccountMetadataRow
  | .code => CodeObject
  | .contractTable => TableIdRow
  | .contractRow => KeyValueRow
  | .contractIndex64 => SecondaryIndexRow UInt64
  | .contractIndex128 => SecondaryIndexRow ℕ
  | .contractIndex256 => SecondaryIndexRow (ℕ × ℕ)
  | .contractIndexDouble => SecondaryIndexRow UInt64
  | .contractIndexLongDouble => SecondaryIndexRow ℕ
  | .globalProperty => GlobalPropertyRow
  | .generatedTransaction => GeneratedTransactionRow
  | .protocolState => ProtocolStateRow
  | .permission => PermissionRow
  | .permissionLink => PermissionLinkObject
  | .resourceLimits => ResourceLimitsRow
  | .resourceUsage => ResourceUsageObject
  | .resourceLimitsState => ResourceLimitsState
  | .resourceLimitsConfig => ResourceLimitsConfig

/-- An object of the database: its number and what it holds. -/
structure Stored (R : Type) where
  id : ℕ
  obj : R
  deriving DecidableEq, Repr

/-! ### Fields -/

/-- What `fc::raw::pack` is called with. -/
inductive RowField
  /-- An unsigned integer of so many bytes. -/
  | uint (bytes value : ℕ)
  | int64 (value : ℤ)
  /-- `fc::unsigned_int`. -/
  | unsignedInt (value : ℕ)
  | bool (value : Bool)
  | digest (value : Sha256)
  | publicKey (value : PublicKey)
  /-- A string of bytes, after its length. -/
  | bytes (value : List UInt8)
  deriving DecidableEq, Repr

namespace RowField

/-- `to_uint64_t` of a name. -/
def ofName (n : Name) : RowField := .uint 8 n.value.toNat

lemma ofName_injective : Function.Injective ofName := by
  intro n n' h
  simp only [ofName, uint.injEq, true_and] at h
  cases n
  cases n'
  exact congrArg Name.mk (UInt64.toNat_inj.mp h)

/-- `history_serialize_container`, and `fc::raw::pack` of a vector. -/
def container {α : Type} (f : α → List RowField) (l : List α) : List RowField :=
  .unsignedInt l.length :: l.flatMap f

/-- `MAX_SIZE_OF_BYTE_ARRAYS`. -/
def maxSizeOfByteArrays : ℕ := 20 * 1024 * 1024

/-- `MAX_NUM_ARRAY_ELEMENTS`. -/
def maxNumArrayElements : ℕ := 1024 * 1024

/-- `operator<<` of a `shared_string`.  The values of contract rows are written with
`history_pack_big_bytes`, which has no bound. -/
def sharedString (v : List UInt8) : Result RowField := do
  sysAssert (v.length ≤ maxSizeOfByteArrays) .assertException
    "v.size() <= MAX_SIZE_OF_BYTE_ARRAYS: "
  pure (.bytes v)

def optional {α : Type} (f : α → List RowField) (o : Option α) : List RowField :=
  match o with
  | none => [.bool false]
  | some a => .bool true :: f a

end RowField

open RowField

/-! ### Serialization -/

/-- `shared_key_weight`. -/
def keyWeightFields (k : KeyWeight) : List RowField := [.publicKey k.key, .uint 2 k.weight.toNat]

/-- `shared_authority`. -/
def authorityFields (auth : Authority) : List RowField :=
  .uint 4 auth.threshold.toNat :: (container keyWeightFields auth.keys ++
    container (fun (a : PermissionLevelWeight) =>
      [ofName a.permission.actor, ofName a.permission.permission, .uint 2 a.weight.toNat])
      auth.accounts ++
    container (fun (w : WaitWeight) => [.uint 4 w.waitSec.toNat, .uint 2 w.weight.toNat])
      auth.waits)

/-- `shared_producer_authority_schedule`.  The authority of a producer is a variant, whose keys are
written with `fc::raw::pack`. -/
def scheduleFields (s : ProducerAuthoritySchedule) : Result (List RowField) := do
  s.producers.forM fun p => sysAssert (p.authority.keys.length ≤ maxNumArrayElements)
    .assertException "value.size() <= MAX_NUM_ARRAY_ELEMENTS: "
  pure (.uint 4 s.version.toNat :: container (fun (p : ProducerAuthority) =>
    [ofName p.producerName, .unsignedInt 0, .uint 4 p.authority.threshold.toNat] ++
      container keyWeightFields p.authority.keys) s.producers)

/-- `chain_config`. -/
def chainConfigFields (c : ChainConfigRow) : List RowField :=
  [.unsignedInt 1, .uint 8 c.maxBlockNetUsage.toNat, .uint 4 c.targetBlockNetUsagePct.toNat,
    .uint 4 c.maxTransactionNetUsage.toNat, .uint 4 c.basePerTransactionNetUsage.toNat,
    .uint 4 c.netUsageLeeway.toNat, .uint 4 c.contextFreeDiscountNetUsageNum.toNat,
    .uint 4 c.contextFreeDiscountNetUsageDen.toNat, .uint 4 c.maxBlockCpuUsage.toNat,
    .uint 4 c.targetBlockCpuUsagePct.toNat, .uint 4 c.maxTransactionCpuUsage.toNat,
    .uint 4 c.minTransactionCpuUsage.toNat, .uint 4 c.maxTransactionLifetime.toNat,
    .uint 4 c.deferredTrxExpirationWindow.toNat, .uint 4 c.maxTransactionDelay.toNat,
    .uint 4 c.maxInlineActionSize.toNat, .uint 2 c.maxInlineActionDepth.toNat,
    .uint 2 c.maxAuthorityDepth.toNat, .uint 4 c.maxActionReturnValueSize.toNat]

/-- `wasm_config`. -/
def wasmConfigFields (c : WasmConfig) : List RowField :=
  [.unsignedInt 0, .uint 4 c.maxMutableGlobalBytes.toNat, .uint 4 c.maxTableElements.toNat,
    .uint 4 c.maxSectionElements.toNat, .uint 4 c.maxLinearMemoryInit.toNat,
    .uint 4 c.maxFuncLocalBytes.toNat, .uint 4 c.maxNestedStructures.toNat,
    .uint 4 c.maxSymbolBytes.toNat, .uint 4 c.maxModuleBytes.toNat, .uint 4 c.maxCodeBytes.toNat,
    .uint 4 c.maxPages.toNat, .uint 4 c.maxCallDepth.toNat]

/-- `resource_limits::usage_accumulator`. -/
def usageAccumulatorFields (a : UsageAccumulator) : List RowField :=
  [.unsignedInt 0, .uint 4 a.lastOrdinal, .uint 8 a.valueEx, .uint 8 a.consumed]

/-- `resource_limits::ratio`. -/
def ratioFields (r : Ratio) : List RowField :=
  [.unsignedInt 0, .uint 8 r.numerator, .uint 8 r.denominator]

/-- `resource_limits::elastic_limit_parameters`. -/
def elasticLimitParametersFields (p : ElasticLimitParameters) : List RowField :=
  [.unsignedInt 0, .uint 8 p.target, .uint 8 p.max, .uint 4 p.periods, .uint 4 p.maxMultiplier] ++
    ratioFields p.contractRate ++ ratioFields p.expandRate

/-- The bytes of a 128-bit number in reverse. -/
def reverseBytes128 (x : ℕ) : ℕ :=
  (List.range 16).foldl (fun r i => r * 256 + x / 256 ^ i % 256) 0

/-- Where the tables of contracts and the parents of permissions are looked up by number. -/
structure Lookup where
  table? : ℕ → Option TableIdRow
  permission? : ℕ → Option PermissionRow

namespace Lookup

variable (ctx : Lookup)

/-- `get_table_id` and the fields that start the row of a contract. -/
def contractRowFields (tId : ℕ) (primaryKey : UInt64) (payer : Name) (rest : List RowField) :
    Result (List RowField) := do
  let t ← require (ctx.table? tId) .pluginException "can not found table id"
  pure ([.unsignedInt 0, ofName t.code, ofName t.scope, ofName t.table, .uint 8 primaryKey.toNat,
    ofName payer] ++ rest)

/-- `serialize_secondary_index`, after `serialize_secondary_index_data`. -/
def serializeSecondaryIndex {SecondaryKey : Type} (data : SecondaryKey → List RowField)
    (r : SecondaryIndexRow SecondaryKey) : Result (List RowField) :=
  ctx.contractRowFields r.tId r.primaryKey r.payer (data r.secondaryKey)

/-- The name that is sent for a parent.  Number `0` stands for none. -/
def parentName (parent : ℕ) : Result Name := do
  if parent = 0 then pure Name.empty
  else
    let p ← require (ctx.permission? parent) .pluginException
      "can not find parent of permission_object"
    pure p.name

/-- `operator<<` of the rows of a table. -/
def serialize : (k : TableKind) → Row k → Result (List RowField)
  | .account, (r : AccountRow) => do
    let abi ← sharedString r.abi
    pure [.unsignedInt 0, ofName r.name, .uint 4 r.creationDate, abi]
  | .accountMetadata, (r : AccountMetadataRow) =>
    pure ([.unsignedInt 0, ofName r.name, .bool r.isPrivileged, .int64 r.lastCodeUpdate] ++
      if r.codeHash ≠ Sha256.zero then
        [.bool true, .uint 1 r.vmType.toNat, .uint 1 r.vmVersion.toNat, .digest r.codeHash]
      else [.bool false])
  | .code, (r : CodeObject) => do
    let code ← sharedString r.code
    pure [.unsignedInt 0, .uint 1 r.vmType.toNat, .uint 1 r.vmVersion.toNat, .digest r.codeHash,
      code]
  | .contractTable, (r : TableIdRow) =>
    pure [.unsignedInt 0, ofName r.code, ofName r.scope, ofName r.table, ofName r.payer]
  | .contractRow, (r : KeyValueRow) =>
    ctx.contractRowFields r.tId r.primaryKey r.payer [.bytes r.value]
  | .contractIndex64, r => ctx.serializeSecondaryIndex (fun key => [.uint 8 key.toNat]) r
  | .contractIndex128, r => ctx.serializeSecondaryIndex (fun key => [.uint 16 key]) r
  | .contractIndex256, r =>
    ctx.serializeSecondaryIndex
      (fun key => [.uint 16 (reverseBytes128 key.1), .uint 16 (reverseBytes128 key.2)]) r
  | .contractIndexDouble, r => ctx.serializeSecondaryIndex (fun key => [.uint 8 key.toNat]) r
  | .contractIndexLongDouble, r => ctx.serializeSecondaryIndex (fun key => [.uint 16 key]) r
  | .globalProperty, (r : GlobalPropertyRow) => do
    let schedule ← scheduleFields r.proposedSchedule
    pure (.unsignedInt 1 :: (optional (fun n => [.uint 4 n]) r.proposedScheduleBlockNum ++
      schedule ++ chainConfigFields r.configuration ++ [.digest r.chainId] ++
      wasmConfigFields r.wasmConfiguration))
  | .generatedTransaction, (r : GeneratedTransactionRow) => do
    let packedTrx ← sharedString r.packedTrx
    pure [.unsignedInt 0, ofName r.sender, .uint 16 r.senderId, ofName r.payer, .digest r.trxId,
      packedTrx]
  | .protocolState, (r : ProtocolStateRow) =>
    pure (.unsignedInt 0 :: container (fun (f : ActivatedFeature) =>
      [.unsignedInt 0, .digest f.featureDigest, .uint 4 f.activationBlockNum])
        r.activatedProtocolFeatures)
  | .permission, (r : PermissionRow) => do
    let parent ← ctx.parentName r.parent
    pure ([.unsignedInt 0, ofName r.owner, ofName r.name, ofName parent, .int64 r.lastUpdated] ++
      authorityFields r.auth)
  | .permissionLink, (r : PermissionLinkObject) =>
    pure [.unsignedInt 0, ofName r.account, ofName r.code, ofName r.messageType,
      ofName r.requiredPermission]
  | .resourceLimits, (r : ResourceLimitsRow) => do
    sysAssert (r.pending = false) .pluginException
      "accepted_block sent while resource_limits_object in pending state"
    pure [.unsignedInt 0, ofName r.owner, .int64 r.netWeight, .int64 r.cpuWeight, .int64 r.ramBytes]
  | .resourceUsage, (r : ResourceUsageObject) =>
    pure ([.unsignedInt 0, ofName r.owner] ++ usageAccumulatorFields r.netUsage ++
      usageAccumulatorFields r.cpuUsage ++ [.uint 8 r.ramUsage])
  | .resourceLimitsState, (r : ResourceLimitsState) =>
    pure (.unsignedInt 0 :: (usageAccumulatorFields r.averageBlockNetUsage ++
      usageAccumulatorFields r.averageBlockCpuUsage ++
      [.uint 8 r.totalNetWeight, .uint 8 r.totalCpuWeight, .uint 8 r.totalRamBytes,
        .uint 8 r.virtualNetLimit, .uint 8 r.virtualCpuLimit]))
  | .resourceLimitsConfig, (r : ResourceLimitsConfig) =>
    pure (.unsignedInt 0 :: (elasticLimitParametersFields r.cpuLimitParameters ++
      elasticLimitParametersFields r.netLimitParameters ++
      [.uint 4 r.accountCpuUsageAverageWindow, .uint 4 r.accountNetUsageAverageWindow]))

end Lookup

/-- `include_delta`: whether a modified row is sent. -/
def includeDelta : (k : TableKind) → Row k → Row k → Bool
  | .contractTable, (old : TableIdRow), (curr : TableIdRow) => old.payer ≠ curr.payer
  | .resourceLimits, (old : ResourceLimitsRow), (curr : ResourceLimitsRow) =>
    old.netWeight ≠ curr.netWeight || old.cpuWeight ≠ curr.cpuWeight || old.ramBytes ≠ curr.ramBytes
  | .resourceLimitsState, (old : ResourceLimitsState), (curr : ResourceLimitsState) =>
    old.averageBlockNetUsage.lastOrdinal ≠ curr.averageBlockNetUsage.lastOrdinal ||
      old.averageBlockNetUsage.valueEx ≠ curr.averageBlockNetUsage.valueEx ||
      old.averageBlockNetUsage.consumed ≠ curr.averageBlockNetUsage.consumed ||
      old.averageBlockCpuUsage.lastOrdinal ≠ curr.averageBlockCpuUsage.lastOrdinal ||
      old.averageBlockCpuUsage.valueEx ≠ curr.averageBlockCpuUsage.valueEx ||
      old.averageBlockCpuUsage.consumed ≠ curr.averageBlockCpuUsage.consumed ||
      old.totalNetWeight ≠ curr.totalNetWeight || old.totalCpuWeight ≠ curr.totalCpuWeight ||
      old.totalRamBytes ≠ curr.totalRamBytes || old.virtualNetLimit ≠ curr.virtualNetLimit ||
      old.virtualCpuLimit ≠ curr.virtualCpuLimit
  | .accountMetadata, (old : AccountMetadataRow), (curr : AccountMetadataRow) =>
    old.name ≠ curr.name || old.isPrivileged ≠ curr.isPrivileged ||
      old.lastCodeUpdate ≠ curr.lastCodeUpdate || old.vmType ≠ curr.vmType ||
      old.vmVersion ≠ curr.vmVersion || old.codeHash ≠ curr.codeHash
  -- what is sent of a code is never modified
  | .code, _, _ => false
  | .protocolState, (old : ProtocolStateRow), (curr : ProtocolStateRow) =>
    old.activatedProtocolFeatures ≠ curr.activatedProtocolFeatures
  | _, _, _ => true

/-! ### Keys -/

/-- Which of the fields that are sent make up the natural key: from where on, and how many. -/
def TableKind.keyRange : TableKind → ℕ × ℕ
  | .account | .accountMetadata | .resourceLimits | .resourceUsage => (1, 1)
  | .code => (3, 1)
  | .contractTable | .permissionLink => (1, 3)
  | .contractRow | .contractIndex64 | .contractIndex128 | .contractIndex256
  | .contractIndexDouble | .contractIndexLongDouble => (1, 4)
  | .permission | .generatedTransaction => (1, 2)
  -- tables with a single row
  | .globalProperty | .protocolState | .resourceLimitsState | .resourceLimitsConfig => (0, 0)

/-- What a reader knows a row by: the account name, the code hash, code, scope and table and with
them the primary key, owner and permission, the key of a link, the owner. -/
def naturalKey (k : TableKind) (fields : List RowField) : List RowField :=
  (fields.drop k.keyRange.1).take k.keyRange.2

/-- The number of a contract row's table. -/
def tableOf? : (k : TableKind) → Row k → Option ℕ
  | .contractRow, (r : KeyValueRow) => some r.tId
  | .contractIndex64, (r : SecondaryIndexRow UInt64) => some r.tId
  | .contractIndex128, (r : SecondaryIndexRow ℕ) => some r.tId
  | .contractIndex256, (r : SecondaryIndexRow (ℕ × ℕ)) => some r.tId
  | .contractIndexDouble, (r : SecondaryIndexRow UInt64) => some r.tId
  | .contractIndexLongDouble, (r : SecondaryIndexRow ℕ) => some r.tId
  | _, _ => none

/-- What an index of the database is unique on. -/
def uniqueKey : (k : TableKind) → Row k → List RowField
  | .account, (r : AccountRow) => [ofName r.name]
  | .accountMetadata, (r : AccountMetadataRow) => [ofName r.name]
  | .code, (r : CodeObject) =>
    [.digest r.codeHash, .uint 1 r.vmType.toNat, .uint 1 r.vmVersion.toNat]
  | .contractTable, (r : TableIdRow) => [ofName r.code, ofName r.scope, ofName r.table]
  | .contractRow, (r : KeyValueRow) => [.uint 8 r.tId, .uint 8 r.primaryKey.toNat]
  | .contractIndex64, (r : SecondaryIndexRow UInt64) =>
    [.uint 8 r.tId, .uint 8 r.primaryKey.toNat]
  | .contractIndex128, (r : SecondaryIndexRow ℕ) => [.uint 8 r.tId, .uint 8 r.primaryKey.toNat]
  | .contractIndex256, (r : SecondaryIndexRow (ℕ × ℕ)) =>
    [.uint 8 r.tId, .uint 8 r.primaryKey.toNat]
  | .contractIndexDouble, (r : SecondaryIndexRow UInt64) =>
    [.uint 8 r.tId, .uint 8 r.primaryKey.toNat]
  | .contractIndexLongDouble, (r : SecondaryIndexRow ℕ) =>
    [.uint 8 r.tId, .uint 8 r.primaryKey.toNat]
  | .generatedTransaction, (r : GeneratedTransactionRow) => [ofName r.sender, .uint 16 r.senderId]
  | .permission, (r : PermissionRow) => [ofName r.owner, ofName r.name]
  | .permissionLink, (r : PermissionLinkObject) =>
    [ofName r.account, ofName r.code, ofName r.messageType]
  | .resourceLimits, (r : ResourceLimitsRow) => [.bool r.pending, ofName r.owner]
  | .resourceUsage, (r : ResourceUsageObject) => [ofName r.owner]
  -- tables with a single row
  | .globalProperty, _ | .protocolState, _ | .resourceLimitsState, _
  | .resourceLimitsConfig, _ => []

/-- What no function changes in a row: what its index is unique on, which "should not be changed
within a chainbase modifier lambda", and besides the bytes of a code and the parent of a
permission. -/
def fixedFields : (k : TableKind) → Row k → List RowField
  | .code, (r : CodeObject) => uniqueKey .code r ++ [.bytes r.code]
  | .permission, (r : PermissionRow) => uniqueKey .permission r ++ [.uint 8 r.parent]
  | k, r => uniqueKey k r

/-- The number of a permission's parent, if it has one. -/
def parentOf? : (k : TableKind) → Row k → Option ℕ
  | .permission, (r : PermissionRow) => if r.parent = 0 then none else some r.parent
  | _, _ => none

/-- Limits that do not count yet. -/
def isPending : (k : TableKind) → Row k → Bool
  | .resourceLimits, (r : ResourceLimitsRow) => r.pending
  | _, _ => false

/-- The sizes that are asserted when the row is written. -/
def Fits : (k : TableKind) → Row k → Prop
  | .account, (r : AccountRow) => r.abi.length ≤ maxSizeOfByteArrays
  | .code, (r : CodeObject) => r.code.length ≤ maxSizeOfByteArrays
  | .globalProperty, (r : GlobalPropertyRow) =>
    ∀ p ∈ r.proposedSchedule.producers, p.authority.keys.length ≤ maxNumArrayElements
  | .generatedTransaction, (r : GeneratedTransactionRow) =>
    r.packedTrx.length ≤ maxSizeOfByteArrays
  | _, _ => True

/-- What a table is called. -/
def TableIdRow.names (t : TableIdRow) : List RowField :=
  [ofName t.code, ofName t.scope, ofName t.table]

/-! ### Lemmas on rows -/

section Rows

variable {k : TableKind} {r r' : Row k} {ctx ctx' : Lookup} {fields : List RowField}

/-- A row that keeps what is fixed keeps what its index is unique on. -/
lemma uniqueKey_eq_of_fixedFields (h : fixedFields k r = fixedFields k r') :
    uniqueKey k r = uniqueKey k r' := by
  cases k <;> first
    | exact h
    | exact (append_inj h rfl).1

lemma tableOf?_eq_of_uniqueKey (h : uniqueKey k r = uniqueKey k r') :
    tableOf? k r = tableOf? k r' := by
  cases k <;> first
    | rfl
    | (simp only [uniqueKey, List.cons.injEq, RowField.uint.injEq, true_and] at h
       exact congrArg some h.1)

lemma isPending_eq_of_uniqueKey (h : uniqueKey k r = uniqueKey k r') :
    isPending k r = isPending k r' := by
  cases k <;> first
    | rfl
    | skip
  case resourceLimits =>
    simp only [uniqueKey, List.cons.injEq, RowField.bool.injEq] at h
    exact h.1

lemma parentOf?_eq_of_fixedFields (h : fixedFields k r = fixedFields k r') :
    parentOf? k r = parentOf? k r' := by
  cases k <;> first
    | rfl
    | skip
  case permission =>
    obtain ⟨-, h⟩ := append_inj h rfl
    simp only [List.cons.injEq, RowField.uint.injEq, true_and, and_true] at h
    simp only [parentOf?, h]

/-- What a row's natural key has of the key of its index, next to the names of its table. -/
def ownKey : TableKind → List RowField → List RowField
  | .code, key => key.take 1
  | .resourceLimits, key => key.drop 1
  | .contractRow, key | .contractIndex64, key | .contractIndex128, key | .contractIndex256, key
  | .contractIndexDouble, key | .contractIndexLongDouble, key => key.drop 1
  | _, key => key

variable {tId : ℕ} {primaryKey : UInt64} {rest : List RowField}

/-- A contract row's table and the rest of its natural key give the key of its index. -/
lemma uniqueKey_eq_of_tableOf? (h : tableOf? k r = some tId)
    (h' : tableOf? k r' = some tId) (hown : ownKey k (uniqueKey k r) = ownKey k (uniqueKey k r')) :
    uniqueKey k r = uniqueKey k r' := by
  -- only the rows of contracts have a table
  cases k <;> cases h
  all_goals
    have hid := some.inj h'
    simp only [ownKey, uniqueKey, drop_succ_cons, drop_zero] at hown ⊢
    rw [hown, hid]

/-- The names of the table of a contract row. -/
def Lookup.tableNames (ctx : Lookup) (k : TableKind) (r : Row k) : Option (List RowField) :=
  (tableOf? k r).bind fun tId => (ctx.table? tId).map TableIdRow.names

lemma contractRowFields_eq_ok {payer : Name}
    (h : ctx.contractRowFields tId primaryKey payer rest = .ok fields) :
    ∃ t, ctx.table? tId = some t ∧
      fields = .unsignedInt 0 :: (t.names ++ [.uint 8 primaryKey.toNat, ofName payer] ++ rest) := by
  simp only [Lookup.contractRowFields, bind_eq_ok, require_eq_ok, pure_eq_ok] at h
  obtain ⟨t, ht, rfl⟩ := h
  exact ⟨t, ht, rfl⟩

lemma naturalKey_of_serialize (h : ctx.serialize k r = .ok fields) :
    naturalKey k fields = (ctx.tableNames k r).getD [] ++ ownKey k (uniqueKey k r) := by
  cases k <;> first
    | (cases h; rfl)
    | (obtain ⟨t, ht, rfl⟩ := contractRowFields_eq_ok h
       simp only [Lookup.tableNames, tableOf?, bind_some, ht, map_some]
       rfl)
    | (simp only [Lookup.serialize, bind_eq_ok, pure_eq_ok] at h
       obtain ⟨_, -, rfl⟩ := h
       rfl)

/-- The lookups find the same names for a row. -/
structure Lookup.Agrees (ctx ctx' : Lookup) (k : TableKind) (r : Row k) : Prop where
  table : ∀ tId, tableOf? k r = some tId →
    (ctx.table? tId).map TableIdRow.names = (ctx'.table? tId).map TableIdRow.names
  parent : ∀ p, parentOf? k r = some p →
    (ctx.permission? p).map PermissionRow.name = (ctx'.permission? p).map PermissionRow.name

lemma contractRowFields_congr {payer : Name}
    (h : (ctx.table? tId).map TableIdRow.names = (ctx'.table? tId).map TableIdRow.names) :
    ctx.contractRowFields tId primaryKey payer rest =
      ctx'.contractRowFields tId primaryKey payer rest := by
  unfold Lookup.contractRowFields
  cases ht : ctx.table? tId with
  | none =>
    rw [ht, map_none, eq_comm, map_eq_none_iff] at h
    rw [h]
  | some t =>
    rw [ht, map_some, eq_comm, map_eq_some_iff] at h
    obtain ⟨t', ht', hnames⟩ := h
    simp only [TableIdRow.names, List.cons.injEq, and_true] at hnames
    obtain ⟨hcode, hscope, htable⟩ := hnames
    simp only [ht', require, ok_bind, hcode, hscope, htable]

lemma parentName_congr {p : ℕ} (h : p ≠ 0 →
    (ctx.permission? p).map PermissionRow.name = (ctx'.permission? p).map PermissionRow.name) :
    ctx.parentName p = ctx'.parentName p := by
  unfold Lookup.parentName
  split_ifs with hp
  · rfl
  · have h := h hp
    cases ht : ctx.permission? p with
    | none =>
      rw [ht, map_none, eq_comm, map_eq_none_iff] at h
      rw [h]
    | some t =>
      rw [ht, map_some, eq_comm, map_eq_some_iff] at h
      obtain ⟨t', ht', hname⟩ := h
      simp only [ht', require, ok_bind, hname]

lemma serialize_congr (h : ctx.Agrees ctx' k r) : ctx.serialize k r = ctx'.serialize k r := by
  cases k <;> first
    | rfl
    | exact contractRowFields_congr (h.table _ rfl)
    | skip
  case permission =>
    have hparent : ctx.parentName r.parent = ctx'.parentName r.parent :=
      parentName_congr fun hp => h.parent _ (if_neg hp)
    simp only [Lookup.serialize, hparent]

/-- **A modified row that is not sent has nothing new to send.** -/
theorem serialize_eq_of_not_includeDelta (hfixed : fixedFields k r = fixedFields k r')
    (h : includeDelta k r r' = false) : ctx.serialize k r = ctx.serialize k r' := by
  cases k <;> first
    | cases h
    | simp only [includeDelta, ne_eq, decide_not, Bool.or_eq_false_iff, Bool.not_eq_false',
        decide_eq_true_eq] at h
  case accountMetadata =>
    obtain ⟨⟨⟨⟨⟨hname, hpriv⟩, hupdate⟩, htype⟩, hversion⟩, hhash⟩ := h
    simp only [Lookup.serialize, hname, hpriv, hupdate, htype, hversion, hhash]
  case code =>
    simp only [fixedFields, uniqueKey, cons_append, nil_append, List.cons.injEq,
      RowField.digest.injEq, RowField.uint.injEq, RowField.bytes.injEq, true_and,
      and_true] at hfixed
    obtain ⟨hhash, htype, hversion, hcode⟩ := hfixed
    simp only [Lookup.serialize, hhash, htype, hversion, hcode]
  case contractTable =>
    simp only [fixedFields, uniqueKey, List.cons.injEq, and_true] at hfixed
    obtain ⟨hcode, hscope, htable⟩ := hfixed
    simp only [Lookup.serialize, h, hcode, hscope, htable]
  case protocolState => simp only [Lookup.serialize, h]
  case resourceLimits =>
    obtain ⟨⟨hnet, hcpu⟩, hram⟩ := h
    simp only [fixedFields, uniqueKey, List.cons.injEq, RowField.bool.injEq, and_true] at hfixed
    obtain ⟨hpending, howner⟩ := hfixed
    simp only [Lookup.serialize, hpending, howner, hnet, hcpu, hram]
  case resourceLimitsState =>
    obtain ⟨⟨⟨⟨⟨⟨⟨⟨⟨⟨h1, h2⟩, h3⟩, h4⟩, h5⟩, h6⟩, h7⟩, h8⟩, h9⟩, h10⟩, h11⟩ := h
    simp [Lookup.serialize, usageAccumulatorFields, h1, h2, h3, h4, h5, h6, h7, h8, h9, h10, h11]

/-- A row can be sent: its lookups find something, it is not pending, and it is small enough. -/
structure Lookup.Sendable (ctx : Lookup) (k : TableKind) (r : Row k) : Prop where
  table : ∀ tId, tableOf? k r = some tId → (ctx.table? tId).isSome
  parent : ∀ p, parentOf? k r = some p → (ctx.permission? p).isSome
  settled : isPending k r = false
  fits : Fits k r

lemma exists_contractRowFields (primaryKey : UInt64) (payer : Name)
    (rest : List RowField) (h : (ctx.table? tId).isSome) :
    ∃ fields, ctx.contractRowFields tId primaryKey payer rest = .ok fields := by
  obtain ⟨t, ht⟩ := isSome_iff_exists.mp h
  exact ⟨_, bind_eq_ok.mpr ⟨t, require_eq_ok.mpr ht, rfl⟩⟩

lemma exists_parentName {p : ℕ} (h : p ≠ 0 → (ctx.permission? p).isSome) :
    ∃ name, ctx.parentName p = .ok name := by
  unfold Lookup.parentName
  split_ifs with hp
  · exact ⟨_, rfl⟩
  · obtain ⟨q, hq⟩ := isSome_iff_exists.mp (h hp)
    exact ⟨_, bind_eq_ok.mpr ⟨q, require_eq_ok.mpr hq, rfl⟩⟩

lemma sharedString_eq {v : List UInt8} (h : v.length ≤ maxSizeOfByteArrays) :
    sharedString v = .ok (.bytes v) :=
  bind_eq_ok.mpr ⟨(), sysAssert_eq_ok.mpr h, rfl⟩

lemma exists_scheduleFields {s : ProducerAuthoritySchedule}
    (h : ∀ p ∈ s.producers, p.authority.keys.length ≤ maxNumArrayElements) :
    ∃ fields, scheduleFields s = .ok fields :=
  ⟨_, bind_eq_ok.mpr ⟨(), forM_eq_ok.mpr fun p hp => sysAssert_eq_ok.mpr (h p hp), rfl⟩⟩

lemma exists_serialize (h : ctx.Sendable k r) : ∃ fields, ctx.serialize k r = .ok fields := by
  cases k <;> first
    | exact ⟨_, rfl⟩
    | exact exists_contractRowFields _ _ _ (h.table _ rfl)
    | exact ⟨_, bind_eq_ok.mpr ⟨_, sharedString_eq h.fits, rfl⟩⟩
    | skip
  case globalProperty =>
    obtain ⟨schedule, hschedule⟩ := exists_scheduleFields h.fits
    exact ⟨_, bind_eq_ok.mpr ⟨schedule, hschedule, rfl⟩⟩
  case permission =>
    obtain ⟨name, hname⟩ := exists_parentName fun hp => h.parent _ (if_neg hp)
    exact ⟨_, bind_eq_ok.mpr ⟨name, hname, rfl⟩⟩
  case resourceLimits =>
    exact ⟨_, bind_eq_ok.mpr ⟨(), sysAssert_eq_ok.mpr h.settled, rfl⟩⟩

end Rows

end Sysio.StateHistory
