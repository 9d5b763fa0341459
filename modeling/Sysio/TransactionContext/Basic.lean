import Sysio.ResourceLimits.Basic
import Sysio.Roa.Actions
import Sysio.Transaction

/-!
# Billing a transaction

`init` records the accounts that may be billed and brings their usage to the current slot.  While
the transaction runs, RAM is only added up and the accounts whose limits need a check are collected.
`finalize` then looks for one account that pays for everything: the account of the first action if
it can afford it, and otherwise the first other billed account.

What the two functions do besides (deadlines, the checks on the subjective CPU bill, the time stamps
of permissions) does not touch resources and is left out; all of it can only make a transaction
fail.
-/

namespace Sysio

open Roa (Asset toI64)

/-- What a node decides for itself: whether the pending block is speculative, which accounts are
greylisted and how far the others may profit from elastic limits. -/
structure NodeSettings where
  /-- `controller::is_speculative_block`. -/
  isSpeculativeBlock : Bool
  /-- `conf.resource_greylist`. -/
  resourceGreylist : List Name
  /-- `conf.greylist_limit`. -/
  greylistLimit : ℕ

/-- The greylist limit that a node applies to an account: there is none unless it speculates. -/
def NodeSettings.greylistLimitFor (node : NodeSettings) (a : Name) : ℕ :=
  if node.isSpeculativeBlock then if a ∈ node.resourceGreylist then 1 else node.greylistLimit
  else maximumElasticResourceMultiplier

/-- `transaction_context`, with the fields that decide about billing. -/
structure TransactionContext where
  trx : Transaction
  isReadOnly : Bool
  billToAccounts : FlatSet Name
  validateRamUsage : FlatSet Name
  netUsage : ℕ
  billedCpuTimeUs : ℕ
  totalRamUsage : ℤ

namespace TransactionContext

/-- The account of the first action. -/
def contractAccount (ctx : TransactionContext) : Name :=
  (ctx.trx.actions.head?.map (·.account)).getD Name.empty

/-! ### What accounts can pay -/

/-- One step of the loop of `max_bandwidth_billed_accounts_can_pay`; the accumulator holds the NET
limit, the CPU limit and whether each is greylisted. -/
def accountBandwidth (node : NodeSettings) (rl : ResourceLimitsManager)
    (acc : ℤ × ℤ × Bool × Bool) (a : Name) : Result (ℤ × ℤ × Bool × Bool) := do
  let (net, netWasGreylisted) ← rl.getAccountNetLimitEx a (node.greylistLimitFor a)
  let (cpu, cpuWasGreylisted) ← rl.getAccountCpuLimitEx a (node.greylistLimitFor a)
  pure (if 0 ≤ net.available then min acc.1 net.available else acc.1,
    if 0 ≤ cpu.available then min acc.2.1 cpu.available else acc.2.1,
    acc.2.2.1 || (decide (0 ≤ net.available) && netWasGreylisted),
    acc.2.2.2 || (decide (0 ≤ cpu.available) && cpuWasGreylisted))

def maxBandwidthBilledAccountsCanPay (node : NodeSettings) (rl : ResourceLimitsManager)
    (billToAccounts : FlatSet Name) : Result (ℤ × ℤ × Bool × Bool) := do
  let largeNumberNoOverflow : ℤ := (2 ^ 63 - 1) / 2
  let r ← billToAccounts.toList.foldlM (accountBandwidth node rl)
    (largeNumberNoOverflow, largeNumberNoOverflow, false, false)
  sysAssert (node.isSpeculativeBlock = true ∨ r.2.2 = (false, false)) .transactionException
    "greylisted when not producing block"
  pure r

/-- Whether an account can pay for the given usage, under a greylist limit.  The three kinds of
"unlimited" are a negative share of CPU or NET, and a RAM limit of -1. -/
def canPay (rl : ResourceLimitsManager) (account : Name) (greylistLimit cpuUsage netUsage : ℕ)
    (ramUsage : ℤ) : Result Bool := do
  let (cpu, _) ← rl.getAccountCpuLimitEx account greylistLimit
  let (net, _) ← rl.getAccountNetLimitEx account greylistLimit
  let limits ← rl.getAccountLimits account
  let used ← rl.getAccountRamUsage account
  pure (decide ((cpu.available < 0 ∨ cpuUsage ≤ cpu.available) ∧
    (net.available < 0 ∨ toI64 netUsage ≤ net.available) ∧
    (limits.ramBytes = -1 ∨ ramUsage ≤ limits.ramBytes - used)))

/-! ### `init` -/

/-- The accounts of a list, added to a set. -/
def insertAll (s : FlatSet Name) (names : List Name) : FlatSet Name := names.foldl FlatSet.insert s

/-- The accounts to be billed: the first authorizer or all of them, and the account of the first
action. -/
def billedAccounts (trx : Transaction) (onlyBillFirstAuthorizer : Bool) : FlatSet Name :=
  let authorizers :=
    if onlyBillFirstAuthorizer then [trx.firstAuthorizer]
    else trx.actions.flatMap fun a => a.authorization.map (·.actor)
  let contractAccount := (trx.actions.head?.map (·.account)).getD Name.empty
  insertAll FlatSet.empty
    (authorizers ++ if contractAccount = Name.empty then [] else [contractAccount])

/-- `init`, for a transaction in the given slot. -/
def init (node : NodeSettings) (timeSlot : ℕ) (rl : ResourceLimitsManager) (trx : Transaction)
    (isReadOnly onlyBillFirstAuthorizer : Bool) (initialNetUsage : ℕ) :
    Result (ResourceLimitsManager × TransactionContext) :=
  if isReadOnly then
    pure (rl, ⟨trx, true, .empty, .empty, initialNetUsage, 0, 0⟩)
  else do
    let billToAccounts := billedAccounts trx onlyBillFirstAuthorizer
    let rl ← rl.updateAccountUsage billToAccounts timeSlot
    let _ ← maxBandwidthBilledAccountsCanPay node rl billToAccounts
    pure (rl, ⟨trx, false, billToAccounts, .empty, initialNetUsage, 0, 0⟩)

/-! ### `exec` -/

def addRamUsage (ctx : TransactionContext) (account : Name) (ramDelta : ℤ) : TransactionContext :=
  { ctx with
    totalRamUsage := ctx.totalRamUsage + ramDelta
    validateRamUsage :=
      if 0 < ramDelta then ctx.validateRamUsage.insert account else ctx.validateRamUsage }

/-- What the actions of a transaction do to resources. -/
inductive ExecOp
  /-- RAM that any object takes or frees. -/
  | addRamUsage (account : Name) (ramDelta : ℤ)
  /-- `add_net_usage`. -/
  | addNetUsage (u : ℕ)
  /-- The intrinsic `set_resource_limits`. -/
  | setResourceLimits (account : Name) (ramBytes netWeight cpuWeight : ℤ)
  /-- `apply_sysio_newaccount`, with the RAM that the new objects take. -/
  | newaccount (name : Name) (ramDelta : ℤ)
  /-- `apply_roa_reducepolicy`, with the price of the policy. -/
  | reducepolicy (owner : Name) (netWeight cpuWeight ramWeight : Asset) (bytesPerUnit : ℕ)

section

variable (rl : ResourceLimitsManager)

def setResourceLimits (ctx : TransactionContext) (account : Name)
    (ramBytes netWeight cpuWeight : ℤ) : Result (ResourceLimitsManager × TransactionContext) := do
  sysAssert (ctx.isReadOnly = false) .wasmExecutionError
    "set_resource_limits not allowed in a readonly transaction"
  sysAssert (-1 ≤ ramBytes) .wasmExecutionError
    "invalid value for ram resource limit expected [-1,INT64_MAX]"
  sysAssert (-1 ≤ netWeight) .wasmExecutionError
    "invalid value for net resource weight expected [-1,INT64_MAX]"
  sysAssert (-1 ≤ cpuWeight) .wasmExecutionError
    "invalid value for cpu resource weight expected [-1,INT64_MAX]"
  let r ← rl.setAccountLimits account ⟨ramBytes, netWeight, cpuWeight⟩
  pure (r.1, if r.2 then { ctx with validateRamUsage := ctx.validateRamUsage.insert account }
    else ctx)

/-- The limits that a new account starts with: none for an account of the system, and nothing for
any other. -/
def initialLimits (name : Name) : Result ResourceLimitsManager :=
  if Roa.isSysioAccount name then pure rl
  else do
    let r ← rl.setAccountLimits name ⟨0, 0, 0⟩
    pure r.1

/-- `apply_sysio_newaccount`. -/
def newaccount (ctx : TransactionContext) (name : Name)
    (ramDelta : ℤ) : Result (ResourceLimitsManager × TransactionContext) := do
  sysAssert (ctx.isReadOnly = false) .actionValidateException
    "newaccount not allowed in read-only transaction"
  sysAssert (name ≠ Name.empty) .actionValidateException "account name cannot be empty"
  let rl ← rl.initializeAccount name
  let rl ← initialLimits rl name
  pure (rl, ctx.addRamUsage sysioName ramDelta)

/-- The limits that `apply_roa_reducepolicy` sets; whether they are more restrictive is not looked
at. -/
def reducepolicy (owner : Name)
    (netWeight cpuWeight ramWeight : Asset) (bytesPerUnit : ℕ) : Result ResourceLimitsManager := do
  let limits ← rl.getAccountLimits owner
  let used ← rl.getAccountRamUsage owner
  let (divisibleRamToReclaim, _) ← Roa.reclaimRam ramWeight bytesPerUnit limits.ramBytes used
  let ramBytes ← Roa.i64 (limits.ramBytes - divisibleRamToReclaim)
  let netLimit ← Roa.i64 (limits.netWeight - netWeight.amount)
  let cpuLimit ← Roa.i64 (limits.cpuWeight - cpuWeight.amount)
  let r ← rl.setAccountLimits owner ⟨ramBytes, netLimit, cpuLimit⟩
  pure r.1

end

def execOp (s : ResourceLimitsManager × TransactionContext) :
    ExecOp → Result (ResourceLimitsManager × TransactionContext)
  | .addRamUsage account ramDelta => pure (s.1, s.2.addRamUsage account ramDelta)
  | .addNetUsage u => pure (s.1, { s.2 with netUsage := wrap64 (s.2.netUsage + u) })
  | .setResourceLimits account ramBytes netWeight cpuWeight =>
    setResourceLimits s.1 s.2 account ramBytes netWeight cpuWeight
  | .newaccount name ramDelta => newaccount s.1 s.2 name ramDelta
  | .reducepolicy owner netWeight cpuWeight ramWeight bytesPerUnit => do
    let rl ← reducepolicy s.1 owner netWeight cpuWeight ramWeight bytesPerUnit
    pure (rl, s.2)

def exec (s : ResourceLimitsManager × TransactionContext) (ops : List ExecOp) :
    Result (ResourceLimitsManager × TransactionContext) :=
  ops.foldlM execOp s

/-! ### `finalize` -/

/-- The account that pays if the contract cannot: the first other billed account, or the contract
again if there is none. -/
def userAccount (ctx : TransactionContext) : Name :=
  let user := (ctx.billToAccounts.firstOther ctx.contractAccount).getD Name.empty
  if user = Name.empty then ctx.contractAccount else user

/-- The NET usage in whole words. -/
def roundedNetUsage (ctx : TransactionContext) : ℕ := wrap64 (ctx.netUsage + 7) / 8 * 8

/-- The greylist limit under which `finalize` looks at the accounts: one if any billed account is
greylisted. -/
def greylistLimit (node : NodeSettings) (rl : ResourceLimitsManager) (ctx : TransactionContext) :
    Result ℕ := do
  let r ← maxBandwidthBilledAccountsCanPay node rl ctx.billToAccounts
  pure (if r.2.2.1 || r.2.2.2 then 1 else maximumElasticResourceMultiplier)

/-- The account pays for everything. -/
def pay (timeSlot : ℕ) (rl : ResourceLimitsManager) (ctx : TransactionContext) (account : Name) :
    Result ResourceLimitsManager := do
  let rl ← rl.addPendingRamUsage account ctx.totalRamUsage
  rl.verifyAccountRamUsage account
  rl.addTransactionUsage (FlatSet.empty.insert account) ctx.billedCpuTimeUs ctx.roundedNetUsage
    timeSlot

/-- The part of `finalize` that picks the payer. -/
def choosePayer (rl : ResourceLimitsManager) (ctx : TransactionContext) (greylistLimit : ℕ) :
    Result Name := do
  let contractCanPay ← canPay rl ctx.contractAccount greylistLimit ctx.billedCpuTimeUs
    ctx.roundedNetUsage ctx.totalRamUsage
  if contractCanPay then pure ctx.contractAccount
  else do
    sysAssert (ctx.userAccount ≠ ctx.contractAccount) .resourceExhaustedException
      "Contract cannot pay and no distinct user found to fallback"
    let userCanPay ← canPay rl ctx.userAccount greylistLimit ctx.billedCpuTimeUs
      ctx.roundedNetUsage ctx.totalRamUsage
    sysAssert (userCanPay = true) .resourceExhaustedException
      "Neither contract nor user can pay for this transaction"
    pure ctx.userAccount

/-- `finalize`, with the CPU time to bill already in the context. -/
def finalize (node : NodeSettings) (timeSlot : ℕ) (rl : ResourceLimitsManager)
    (ctx : TransactionContext) : Result ResourceLimitsManager :=
  if ctx.isReadOnly then pure rl
  else do
    ctx.validateRamUsage.toList.forM rl.verifyAccountRamUsage
    let greylistLimit ← greylistLimit node rl ctx
    let payer ← choosePayer rl ctx greylistLimit
    pay timeSlot rl ctx payer

/-! ### A whole transaction -/

/-- A transaction that changes the state, with what its actions do to resources and the CPU time
that it is billed. -/
structure TransactionInput where
  trx : Transaction
  onlyBillFirstAuthorizer : Bool
  initialNetUsage : ℕ
  ops : List ExecOp
  billedCpuTimeUs : ℕ

/-- The calls that `push_transaction` makes for a transaction; also the context at the end. -/
def pushTransaction (node : NodeSettings) (timeSlot : ℕ) (rl : ResourceLimitsManager)
    (t : TransactionInput) : Result (ResourceLimitsManager × TransactionContext) := do
  let s ← init node timeSlot rl t.trx false t.onlyBillFirstAuthorizer t.initialNetUsage
  let s ← exec s t.ops
  -- `update_billed_cpu_time`
  let ctx := { s.2 with billedCpuTimeUs := t.billedCpuTimeUs }
  let rl ← finalize node timeSlot s.1 ctx
  pure (rl, ctx)

end TransactionContext

end Sysio
