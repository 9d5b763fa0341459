import Sysio.TransactionContext.Basic

/-!
# Billed objects

Rows and tables of contracts, permissions, links, code, ABIs and deferred transactions take RAM.
Each handler names an account in `add_ram_usage`, but the transaction context only adds the bytes
up; who pays for them is decided at the end of the transaction.

The model keeps one table of all billed objects.  Besides what the database stores (the recorded
payer and what the size is computed from), each object carries what has been charged for it when it
was created and resized, and to whom.  No handler reads that field: it only says what has happened.

What the handlers check besides (authorizations, access to the tables of other contracts) does not
touch RAM and is left out; all of it can only make a transaction fail.
-/

namespace Sysio

/-! ### Sizes -/

/-- `billable_size_v`: the size, rounded up to the alignment. -/
def billableSize (value : ℕ) : ℕ := (value + 15) / 16 * 16

/-- `config::overhead_per_row_per_index_ram_bytes`. -/
def overheadPerRowPerIndex : ℕ := 32

/-- `billable_size_v<table_id_object>`. -/
def tableIdObjectSize : ℕ := billableSize (44 + overheadPerRowPerIndex * 2)

/-- `billable_size_v<key_value_object>`. -/
def keyValueObjectSize : ℕ := billableSize (32 + 8 + 4 + overheadPerRowPerIndex * 2)

/-- The kinds of secondary indices. -/
inductive SecondaryIndex
  | index64
  | index128
  | index256
  | indexDouble
  | indexLongDouble
  deriving DecidableEq, Repr

/-- The bytes of a secondary key. -/
def SecondaryIndex.keySize : SecondaryIndex → ℕ
  | .index64 => 8
  | .index128 => 16
  | .index256 => 32
  | .indexDouble => 8
  | .indexLongDouble => 16

/-- `billable_size_v` of the five index objects. -/
def SecondaryIndex.objectSize (i : SecondaryIndex) : ℕ :=
  billableSize (24 + i.keySize + overheadPerRowPerIndex * 3)

/-- `billable_size_v<permission_object>`. -/
def permissionObjectSize : ℕ :=
  billableSize (billableSize (3 * 16 + 4) + 64 + 5 * overheadPerRowPerIndex)

/-- `billable_size_v<permission_link_object>`. -/
def permissionLinkObjectSize : ℕ := billableSize (40 + overheadPerRowPerIndex * 3)

/-- `billable_size_v<generated_transaction_object>`. -/
def generatedTransactionObjectSize : ℕ := billableSize (96 + 4 + overheadPerRowPerIndex * 5)

/-- `config::overhead_per_account_ram_bytes`. -/
def overheadPerAccount : ℕ := 2 * 1024

/-- `config::setcode_ram_bytes_multiplier`. -/
def setcodeMultiplier : ℕ := 10

/-! ### Objects -/

/-- What identifies a billed object. -/
inductive ObjectKey
  /-- The overhead of an account. -/
  | account (name : Name)
  | table (code scope table : Name)
  /-- A row of the primary table (`none`) or of a secondary index. -/
  | row (index : Option SecondaryIndex) (code scope table : Name) (primaryKey : UInt64)
  | permission (account permission : Name)
  | link (account code type : Name)
  | code (account : Name)
  | abi (account : Name)
  | deferred (sender : Name) (senderId : ℕ)
  deriving DecidableEq, Repr

structure BilledObject where
  key : ObjectKey
  /-- The account that `add_ram_usage` is given when the object is removed: the payer that a row, a
  table or a deferred transaction records, and the owner of any other object. -/
  payer : Name
  size : ℕ
  /-- The number of rows, for a table. -/
  count : ℕ
  /-- The accounts that have been charged, with the bytes of each charge. -/
  charges : List (Name × ℤ)
  deriving DecidableEq, Repr

namespace BilledObject

/-- The bytes that an account has been charged for the object. -/
def chargedTo (o : BilledObject) (a : Name) : ℤ :=
  ((o.charges.filter fun charge => decide (charge.1 = a)).map (·.2)).sum

/-- The bytes for which it is still to be decided who pays. -/
def uncharged (o : BilledObject) : ℤ := o.size - (o.charges.map (·.2)).sum

/-- What has not been charged yet is charged to the payer. -/
def charge (o : BilledObject) (payer : Name) : BilledObject :=
  if o.uncharged = 0 then o else { o with charges := o.charges ++ [(payer, o.uncharged)] }

lemma key_charge (o : BilledObject) (payer : Name) : (o.charge payer).key = o.key := by
  unfold charge
  split_ifs <;> rfl

end BilledObject

abbrev Objects := Table ObjectKey BilledObject fun o => o.key

/-- The objects in the middle of a transaction, with what the handlers have asked of the transaction
context so far. -/
structure RamExecution where
  objects : Objects
  ops : List TransactionContext.ExecOp
  /-- `add_to_ram_correction`: bytes of replaced deferred transactions that nobody is credited. -/
  ramCorrections : List (Name × ℕ)

namespace RamExecution

/-! ### What handlers are made of -/

section

variable (e : RamExecution)

def request (op : TransactionContext.ExecOp) : RamExecution :=
  { e with ops := e.ops ++ [op] }

def addRamUsage (account : Name) (ramDelta : ℤ) : RamExecution :=
  e.request (.addRamUsage account ramDelta)

/-- `db.create`. -/
def create (key : ObjectKey) (payer : Name) (size : ℕ) : Result RamExecution := do
  sysAssert ((e.objects.find? key).isNone = true) .logicError
    "could not insert object, most likely a uniqueness constraint was violated"
  pure { e with objects := e.objects.insert ⟨key, payer, size, 0, []⟩ }

/-- `db.modify`, for a new size or another payer. -/
def replace (o : BilledObject) (payer : Name) (size : ℕ) : RamExecution :=
  { e with objects := e.objects.upsert { o with payer := payer, size := size } }

/-- `db.remove`. -/
def remove (o : BilledObject) : RamExecution := { e with objects := e.objects.erase o.key }

/-- `db.modify`, for the number of rows of a table. -/
def setCount (o : BilledObject) (count : ℕ) : RamExecution :=
  { e with objects := e.objects.upsert { o with count := count } }

def get (key : ObjectKey) (type : ExceptionType) (what : String) : Result BilledObject :=
  require (e.objects.find? key) type what

/-! ### Rows and tables -/

def findOrCreateTable (code scope table payer : Name) : Result (RamExecution × BilledObject) :=
  match e.objects.find? (.table code scope table) with
  | some t => pure (e, t)
  | none => do
    let e ← (e.addRamUsage payer tableIdObjectSize).create (.table code scope table) payer
      tableIdObjectSize
    pure (e, ⟨.table code scope table, payer, tableIdObjectSize, 0, []⟩)

def removeTable (t : BilledObject) : RamExecution :=
  (e.addRamUsage t.payer (-t.size)).remove t

/-- `db_store_i64` and `generic_index::store`, with the size of the row. -/
def storeRow (index : Option SecondaryIndex) (code scope table payer : Name)
    (primaryKey : UInt64) (size : ℕ) : Result RamExecution := do
  let (e, t) ← e.findOrCreateTable code scope table payer
  sysAssert (payer ≠ Name.empty) .invalidTablePayer
    "must specify a valid account to pay for new record"
  let e ← (e.setCount t (t.count + 1)).create (.row index code scope table primaryKey) payer size
  pure (e.addRamUsage payer size)

/-- `db_update_i64` and `generic_index::update`: an empty payer is the old one, and the size of a
row of an index never changes. -/
def updateRow (o : BilledObject) (payer : Name) (size : ℕ) : RamExecution :=
  let payer := if payer = Name.empty then o.payer else payer
  if o.payer ≠ payer then
    (((e.addRamUsage o.payer (-o.size)).addRamUsage payer size).replace o payer size)
  else if o.size ≠ size then
    (e.addRamUsage o.payer ((size : ℤ) - o.size)).replace o payer size
  else e

/-- `db_remove_i64` and `generic_index::remove`. -/
def removeRow (o t : BilledObject) : RamExecution :=
  let e := ((e.addRamUsage o.payer (-o.size)).remove o).setCount t (t.count - 1)
  if t.count - 1 = 0 then e.removeTable { t with count := t.count - 1 } else e

/-! ### Other objects -/

/-- The object gets another size, charged to its owner. -/
def resize (o : BilledObject) (size : ℕ) : RamExecution :=
  if o.size ≠ size then (e.addRamUsage o.payer ((size : ℤ) - o.size)).replace o o.payer size else e

/-- `apply_sysio_updateauth`, with `get_billable_size` of the authority. -/
def updateauth (account permission : Name) (authSize : ℕ) : Result RamExecution :=
  match e.objects.find? (.permission account permission) with
  | some o => pure (e.resize o (permissionObjectSize + authSize))
  | none => do
    let e ← e.create (.permission account permission) account (permissionObjectSize + authSize)
    pure (e.addRamUsage account (permissionObjectSize + authSize : ℕ))

/-- `apply_sysio_linkauth`. -/
def linkauth (account code type : Name) : Result RamExecution :=
  match e.objects.find? (.link account code type) with
  | some _ => pure e
  | none => do
    let e ← e.create (.link account code type) account permissionLinkObjectSize
    pure (e.addRamUsage account permissionLinkObjectSize)

/-- What `setcode` and `setabi` do to the bytes of an account; nothing is stored for no bytes. -/
def setBytes (key : ObjectKey) (account : Name) (size : ℕ) : Result RamExecution :=
  match e.objects.find? key with
  | some o =>
    if size = 0 then pure ((e.addRamUsage o.payer (-o.size)).remove o) else pure (e.resize o size)
  | none =>
    if size = 0 then pure e
    else do
      let e ← e.create key account size
      pure (e.addRamUsage account size)

/-- `apply_sysio_setcode`. -/
def setcode (account : Name) (codeSize : ℕ) : Result RamExecution := do
  sysAssert (0 < codeSize ∨ (e.objects.find? (.code account)).isSome = true) .setExactCode
    "contract is already cleared"
  e.setBytes (.code account) account (codeSize * setcodeMultiplier)

/-- `apply_sysio_setabi`. -/
def setabi (account : Name) (abiSize : ℕ) : Result RamExecution :=
  e.setBytes (.abi account) account abiSize

end

/-- The permissions `owner` and `active`. -/
def ownerName : Name := Name.ofChars ['o', 'w', 'n', 'e', 'r']

@[inherit_doc ownerName]
def activeName : Name := Name.ofChars ['a', 'c', 't', 'i', 'v', 'e']

section

variable (e : RamExecution)

/-- `apply_sysio_newaccount`: the account and its two permissions, all named to `sysio`. -/
def newaccount (name : Name) (ownerSize activeSize : ℕ) : Result RamExecution := do
  let e ← e.create (.account name) sysioName overheadPerAccount
  let e ← e.create (.permission name ownerName) name (permissionObjectSize + ownerSize)
  let e ← e.create (.permission name activeName) name (permissionObjectSize + activeSize)
  pure (e.request (.newaccount name
    (overheadPerAccount + 2 * permissionObjectSize + ownerSize + activeSize : ℕ)))

/-- What `schedule_deferred_transaction` does to a deferred transaction that is replaced: before the
feature `REPLACE_DEFERRED`, nobody is credited for it. -/
def replaceDeferred (o : BilledObject)
    (replaceExisting replaceDeferredActivated : Bool) : Result RamExecution := do
  sysAssert (replaceExisting = true) .deferredTxDuplicate
    "deferred transaction with the same sender_id and payer already exists"
  pure (if replaceDeferredActivated then (e.addRamUsage o.payer (-o.size)).remove o
    else { e.remove o with ramCorrections := e.ramCorrections ++ [(o.payer, o.size)] })

/-- `schedule_deferred_transaction`, with the size of the packed transaction. -/
def scheduleDeferredTransaction (sender : Name) (senderId : ℕ) (payer : Name)
    (trxSize : ℕ) (replaceExisting replaceDeferredActivated : Bool) : Result RamExecution := do
  let e ← ((e.objects.find? (.deferred sender senderId)).elim (pure e)
    fun o => e.replaceDeferred o replaceExisting replaceDeferredActivated)
  let e ← e.create (.deferred sender senderId) payer (generatedTransactionObjectSize + trxSize)
  pure (e.addRamUsage payer (generatedTransactionObjectSize + trxSize : ℕ))

def cancelDeferredTransaction (sender : Name) (senderId : ℕ) : RamExecution :=
  match e.objects.find? (.deferred sender senderId) with
  | some o => (e.addRamUsage o.payer (-o.size)).remove o
  | none => e

/-- `schedule_transaction`: a delayed transaction has no sender. -/
def scheduleTransaction (senderId : ℕ) (firstAuth : Name) (trxSize : ℕ) : Result RamExecution := do
  let e ← e.create (.deferred Name.empty senderId) firstAuth
    (generatedTransactionObjectSize + trxSize)
  pure (e.addRamUsage firstAuth (generatedTransactionObjectSize + trxSize : ℕ))

end

/-! ### One call -/

/-- The calls of a transaction that touch billed objects or resource limits. -/
inductive Call
  | dbStoreI64 (code scope table payer : Name) (id : UInt64) (bufferSize : ℕ)
  | dbUpdateI64 (code scope table payer : Name) (id : UInt64) (bufferSize : ℕ)
  | dbRemoveI64 (code scope table : Name) (id : UInt64)
  | indexStore (index : SecondaryIndex) (code scope table payer : Name) (id : UInt64)
  | indexUpdate (index : SecondaryIndex) (code scope table payer : Name) (id : UInt64)
  | indexRemove (index : SecondaryIndex) (code scope table : Name) (id : UInt64)
  | updateauth (account permission : Name) (authSize : ℕ)
  | deleteauth (account permission : Name)
  | linkauth (account code type : Name)
  | unlinkauth (account code type : Name)
  | setcode (account : Name) (codeSize : ℕ)
  | setabi (account : Name) (abiSize : ℕ)
  | newaccount (name : Name) (ownerSize activeSize : ℕ)
  | scheduleDeferredTransaction (sender : Name) (senderId : ℕ) (payer : Name) (trxSize : ℕ)
      (replaceExisting replaceDeferredActivated : Bool)
  | cancelDeferredTransaction (sender : Name) (senderId : ℕ)
  | scheduleTransaction (senderId : ℕ) (firstAuth : Name) (trxSize : ℕ)
  | addNetUsage (u : ℕ)
  | setResourceLimits (account : Name) (ramBytes netWeight cpuWeight : ℤ)
  | reducepolicy (owner : Name) (netWeight cpuWeight ramWeight : Roa.Asset) (bytesPerUnit : ℕ)

/-- Finds a row of a contract and its table. -/
def getRow (e : RamExecution) (index : Option SecondaryIndex) (code scope table : Name)
    (id : UInt64) : Result (BilledObject × BilledObject) := do
  let o ← e.get (.row index code scope table id) .logicError "dereference of deleted object"
  let t ← e.get (.table code scope table) .logicError
    "an invariant was broken, table should be in cache"
  pure (o, t)

def call (e : RamExecution) : Call → Result RamExecution
  | .dbStoreI64 code scope table payer id bufferSize =>
    e.storeRow none code scope table payer id (bufferSize + keyValueObjectSize)
  | .dbUpdateI64 code scope table payer id bufferSize => do
    let (o, _) ← e.getRow none code scope table id
    pure (e.updateRow o payer (bufferSize + keyValueObjectSize))
  | .dbRemoveI64 code scope table id => do
    let (o, t) ← e.getRow none code scope table id
    pure (e.removeRow o t)
  | .indexStore index code scope table payer id =>
    e.storeRow (some index) code scope table payer id index.objectSize
  | .indexUpdate index code scope table payer id => do
    let (o, _) ← e.getRow (some index) code scope table id
    pure (e.updateRow o payer o.size)
  | .indexRemove index code scope table id => do
    let (o, t) ← e.getRow (some index) code scope table id
    pure (e.removeRow o t)
  | .updateauth account permission authSize => e.updateauth account permission authSize
  | .deleteauth account permission => do
    let o ← e.get (.permission account permission) .permissionQueryException
      "Failed to retrieve permission"
    pure ((e.remove o).addRamUsage account (-o.size))
  | .linkauth account code type => e.linkauth account code type
  | .unlinkauth account code type => do
    let o ← e.get (.link account code type) .actionValidateException
      "Attempting to unlink authority, but no link found"
    pure ((e.addRamUsage account (-o.size)).remove o)
  | .setcode account codeSize => e.setcode account codeSize
  | .setabi account abiSize => e.setabi account abiSize
  | .newaccount name ownerSize activeSize => e.newaccount name ownerSize activeSize
  | .scheduleDeferredTransaction sender senderId payer trxSize replaceExisting activated =>
    e.scheduleDeferredTransaction sender senderId payer trxSize replaceExisting activated
  | .cancelDeferredTransaction sender senderId => pure (e.cancelDeferredTransaction sender senderId)
  | .scheduleTransaction senderId firstAuth trxSize =>
    e.scheduleTransaction senderId firstAuth trxSize
  | .addNetUsage u => pure (e.request (.addNetUsage u))
  | .setResourceLimits account ramBytes netWeight cpuWeight =>
    pure (e.request (.setResourceLimits account ramBytes netWeight cpuWeight))
  | .reducepolicy owner netWeight cpuWeight ramWeight bytesPerUnit =>
    pure (e.request (.reducepolicy owner netWeight cpuWeight ramWeight bytesPerUnit))

def calls (objects : Objects) (cs : List Call) : Result RamExecution :=
  cs.foldlM call ⟨objects, [], []⟩

end RamExecution

/-! ### Histories -/

/-- The resources of all accounts, and the objects that they have been charged for. -/
structure RamWorld where
  rl : ResourceLimitsManager
  objects : Objects

/-- A transaction, by the calls it makes. -/
structure RamTransaction where
  node : NodeSettings
  timeSlot : ℕ
  trx : Transaction
  onlyBillFirstAuthorizer : Bool
  initialNetUsage : ℕ
  calls : List RamExecution.Call
  billedCpuTimeUs : ℕ

/-- What a transaction is for the transaction context. -/
def RamTransaction.input (t : RamTransaction) (e : RamExecution) :
    TransactionContext.TransactionInput :=
  ⟨t.trx, t.onlyBillFirstAuthorizer, t.initialNetUsage, e.ops, t.billedCpuTimeUs⟩

namespace TransactionContext

def payerOf (node : NodeSettings) (timeSlot : ℕ) (rl : ResourceLimitsManager)
    (t : TransactionInput) : Result Name := do
  let s ← init node timeSlot rl t.trx false t.onlyBillFirstAuthorizer t.initialNetUsage
  let s ← exec s t.ops
  let ctx := { s.2 with billedCpuTimeUs := t.billedCpuTimeUs }
  let limit ← greylistLimit node s.1 ctx
  choosePayer s.1 ctx limit

end TransactionContext

namespace RamWorld

/-- What is still to be charged is charged to the payer. -/
def settle (objects : Objects) (payer : Name) : Objects :=
  objects.mapRows (·.charge payer) (·.key_charge payer)

/-- The calls of a transaction and its payer. -/
def outcome (w : RamWorld) (t : RamTransaction) : Result (RamExecution × Name) := do
  let e ← RamExecution.calls w.objects t.calls
  let payer ← TransactionContext.payerOf t.node t.timeSlot w.rl (t.input e)
  pure (e, payer)

def transaction (w : RamWorld) (t : RamTransaction) : Result RamWorld := do
  let (e, payer) ← w.outcome t
  let r ← TransactionContext.pushTransaction t.node t.timeSlot w.rl (t.input e)
  pure ⟨r.1, settle e.objects payer⟩

def removeScheduledTransaction (w : RamWorld) (sender : Name) (senderId : ℕ) :
    Result RamWorld := do
  let o ← require (w.objects.find? (.deferred sender senderId)) .logicError "unknown key"
  let rl ← w.rl.addPendingRamUsage o.payer (-o.size)
  pure ⟨rl, w.objects.erase o.key⟩

inductive Event
  | transaction (t : RamTransaction)
  | removeScheduledTransaction (sender : Name) (senderId : ℕ)
  | finalizeBlock (cpu net : ElasticLimitParameters) (blockNum : ℕ)

def apply (w : RamWorld) : Event → Result RamWorld
  | .transaction t => w.transaction t
  | .removeScheduledTransaction sender senderId => w.removeScheduledTransaction sender senderId
  | .finalizeBlock cpu net blockNum => do
    let rl ← w.rl.finalizeBlock cpu net blockNum
    pure { w with rl := rl }

/-- An event that goes through; what fails is undone. -/
def Step (w : RamWorld) (e : Event) (w' : RamWorld) : Prop := w.apply e = .ok w'

end RamWorld

end Sysio
