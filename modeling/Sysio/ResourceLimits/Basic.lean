import Mathlib.Data.List.Sort
import Sysio.Data.FlatSet
import Sysio.ResourceLimits.Accumulator
import Sysio.Roa.Basic

/-!
# The resource limits manager

For every account the manager keeps its limits and its usage of RAM, CPU and NET.  New limits are
*pending* until the block ends, but count at once: `getAccountLimits` looks at the pending ones
first.  CPU and NET limits are shares of a virtual capacity that grows while blocks are not full;
for a greylisted account the capacity is capped.
-/

namespace Sysio

open Roa (AccountLimits toI64)

def maximumElasticResourceMultiplier : ℕ := 1000

structure ElasticLimitParameters where
  target : ℕ
  max : ℕ
  periods : ℕ
  maxMultiplier : ℕ
  contractRate : Ratio
  expandRate : Ratio
  deriving DecidableEq, Repr

def ElasticLimitParameters.validate (p : ElasticLimitParameters) : Result Unit := do
  sysAssert (0 < p.periods) .resourceLimitException
    "elastic limit parameter 'periods' cannot be zero"
  sysAssert (0 < p.contractRate.denominator) .resourceLimitException
    "elastic limit parameter 'contract_rate' is not a well-defined ratio"
  sysAssert (0 < p.expandRate.denominator) .resourceLimitException
    "elastic limit parameter 'expand_rate' is not a well-defined ratio"

/-- `resource_limits_config_object`. -/
structure ResourceLimitsConfig where
  cpuLimitParameters : ElasticLimitParameters
  netLimitParameters : ElasticLimitParameters
  accountCpuUsageAverageWindow : ℕ
  accountNetUsageAverageWindow : ℕ
  deriving DecidableEq, Repr

/-- `resource_limits_state_object`. -/
structure ResourceLimitsState where
  averageBlockNetUsage : UsageAccumulator
  averageBlockCpuUsage : UsageAccumulator
  pendingNetUsage : ℕ
  pendingCpuUsage : ℕ
  totalNetWeight : ℕ
  totalCpuWeight : ℕ
  totalRamBytes : ℕ
  virtualNetLimit : ℕ
  virtualCpuLimit : ℕ
  deriving DecidableEq, Repr

structure ResourceLimitsObject where
  owner : Name
  limits : AccountLimits
  deriving DecidableEq, Repr

structure ResourceUsageObject where
  owner : Name
  netUsage : UsageAccumulator
  cpuUsage : UsageAccumulator
  ramUsage : ℕ
  deriving DecidableEq, Repr

/-- `resource_limits_manager`: its four tables, the one of the limits split by the field
`pending`. -/
structure ResourceLimitsManager where
  limits : Table Name ResourceLimitsObject fun o => o.owner
  pendingLimits : Table Name ResourceLimitsObject fun o => o.owner
  usage : Table Name ResourceUsageObject fun o => o.owner
  config : ResourceLimitsConfig
  state : ResourceLimitsState

namespace ResourceLimitsManager

/-! ### Limits -/

section

variable (rl : ResourceLimitsManager) (account : Name)

/-- `_db.get<resource_usage_object,by_owner>`. -/
def getUsage : Result ResourceUsageObject :=
  require (rl.usage.find? account) .logicError "unknown key"

/-- The limits that count now, if the account has any. -/
def currentLimits : Option AccountLimits :=
  ((rl.pendingLimits.find? account).or (rl.limits.find? account)).map (·.limits)

def getAccountLimits : Result AccountLimits :=
  require (rl.currentLimits account) .logicError "unknown key"

def initializeAccount : Result ResourceLimitsManager := do
  sysAssert ((rl.limits.find? account).isNone = true) .logicError
    "could not insert object, most likely a uniqueness constraint was violated"
  sysAssert ((rl.usage.find? account).isNone = true) .logicError
    "could not insert object, most likely a uniqueness constraint was violated"
  pure { rl with
    limits := rl.limits.upsert ⟨account, ⟨-1, -1, -1⟩⟩
    usage := rl.usage.upsert ⟨account, .zero, .zero, 0⟩ }

/-- `set_account_limits`: the result says whether the RAM limit has become more restrictive than the
previously set one. -/
def setAccountLimits (l : AccountLimits) : Result (ResourceLimitsManager × Bool) := do
  let limits ← rl.getAccountLimits account
  let decreasedLimit :=
    decide (0 ≤ l.ramBytes ∧ (limits.ramBytes < 0 ∨ l.ramBytes < limits.ramBytes))
  pure ({ rl with pendingLimits := rl.pendingLimits.upsert ⟨account, l⟩ }, decreasedLimit)

/-! ### RAM -/

def addPendingRamUsage (ramDelta : ℤ) : Result ResourceLimitsManager :=
  if ramDelta = 0 then pure rl
  else do
    let usage ← rl.getUsage account
    sysAssert (ramDelta ≤ 0 ∨ ramDelta ≤ 2 ^ 64 - 1 - (usage.ramUsage : ℤ)) .transactionException
      "Ram usage delta would overflow UINT64_MAX"
    sysAssert (0 ≤ ramDelta ∨ -ramDelta ≤ usage.ramUsage) .transactionException
      "Ram usage delta would underflow UINT64_MAX"
    pure { rl with
      usage := rl.usage.upsert { usage with ramUsage := (usage.ramUsage + ramDelta).toNat } }

def verifyAccountRamUsage : Result Unit := do
  let limits ← rl.getAccountLimits account
  let usage ← rl.getUsage account
  sysAssert (0 ≤ limits.ramBytes → (usage.ramUsage : ℤ) ≤ limits.ramBytes) .ramUsageExceeded
    "account has insufficient ram"

def getAccountRamUsage : Result ℤ := do
  let usage ← rl.getUsage account
  pure (toI64 usage.ramUsage)

end

/-! ### CPU and NET -/

/-- One step of `update_account_usage`. -/
def decayUsage (timeSlot : ℕ) (rl : ResourceLimitsManager) (account : Name) :
    Result ResourceLimitsManager := do
  let usage ← rl.getUsage account
  let netUsage ← usage.netUsage.add 0 timeSlot rl.config.accountNetUsageAverageWindow
  let cpuUsage ← usage.cpuUsage.add 0 timeSlot rl.config.accountCpuUsageAverageWindow
  pure { rl with
    usage := rl.usage.upsert { usage with netUsage := netUsage, cpuUsage := cpuUsage } }

def updateAccountUsage (rl : ResourceLimitsManager) (accounts : FlatSet Name) (timeSlot : ℕ) :
    Result ResourceLimitsManager :=
  accounts.toList.foldlM (decayUsage timeSlot) rl

/-- What the limit of an account for CPU or NET is computed from. -/
structure Bandwidth where
  usage : UsageAccumulator
  weight : ℤ
  totalWeight : ℕ
  virtualLimit : ℕ
  max : ℕ
  windowSize : ℕ

def cpuBandwidth (rl : ResourceLimitsManager) (account : Name) : Result Bandwidth := do
  let usage ← rl.getUsage account
  let limits ← rl.getAccountLimits account
  pure ⟨usage.cpuUsage, limits.cpuWeight, rl.state.totalCpuWeight, rl.state.virtualCpuLimit,
    rl.config.cpuLimitParameters.max, rl.config.accountCpuUsageAverageWindow⟩

def netBandwidth (rl : ResourceLimitsManager) (account : Name) : Result Bandwidth := do
  let usage ← rl.getUsage account
  let limits ← rl.getAccountLimits account
  pure ⟨usage.netUsage, limits.netWeight, rl.state.totalNetWeight, rl.state.virtualNetLimit,
    rl.config.netLimitParameters.max, rl.config.accountNetUsageAverageWindow⟩

/-- `account_resource_limit`, without the two times. -/
structure AccountResourceLimit where
  used : ℤ
  available : ℤ
  max : ℤ
  deriving DecidableEq, Repr

/-- The virtual capacity under a greylist limit, and whether the limit cuts it down. -/
def Bandwidth.cappedLimit (b : Bandwidth) (greylistLimit : ℕ) : ℕ × Bool :=
  if greylistLimit < maximumElasticResourceMultiplier then
    let greylistedVirtualLimit := wrap64 (b.max * greylistLimit)
    if greylistedVirtualLimit < b.virtualLimit then (greylistedVirtualLimit, true)
    else (b.virtualLimit, false)
  else (b.virtualLimit, false)

/-- `get_account_cpu_limit_ex` and `get_account_net_limit_ex`: the share of the account, and whether
it is greylisted; -1 is no limit. -/
def Bandwidth.limitEx (b : Bandwidth) (greylistLimit : ℕ) :
    Result (AccountResourceLimit × Bool) :=
  if b.weight < 0 ∨ b.totalWeight = 0 then pure (⟨-1, -1, -1⟩, false)
  else do
    let capped := b.cappedLimit greylistLimit
    let capacityInWindow := wrap128 (b.windowSize * capped.1)
    let maxUserUseInWindow := wrap128 (capacityInWindow * b.weight.toNat) / b.totalWeight
    let usedInWindow := integerDivideCeil (b.usage.valueEx * b.windowSize) rateLimitingPrecision
    let available ← downgradeCast (2 ^ 63 - 1) (maxUserUseInWindow - usedInWindow)
    let used ← downgradeCast (2 ^ 63 - 1) usedInWindow
    let max ← downgradeCast (2 ^ 63 - 1) maxUserUseInWindow
    pure (⟨used, available, max⟩, capped.2)

def getAccountCpuLimitEx (rl : ResourceLimitsManager) (account : Name) (greylistLimit : ℕ) :
    Result (AccountResourceLimit × Bool) := do
  let b ← rl.cpuBandwidth account
  b.limitEx greylistLimit

def getAccountNetLimitEx (rl : ResourceLimitsManager) (account : Name) (greylistLimit : ℕ) :
    Result (AccountResourceLimit × Bool) := do
  let b ← rl.netBandwidth account
  b.limitEx greylistLimit

/-- The objective check of `add_transaction_usage`, with the usage already added. -/
def Bandwidth.checkWindow (b : Bandwidth) (type : ExceptionType) (what : String) : Result Unit :=
  if 0 ≤ b.weight ∧ 0 < b.totalWeight then
    let usedInWindow := b.usage.valueEx * b.windowSize / rateLimitingPrecision
    let maxUserUseInWindow :=
      wrap128 (b.virtualLimit * b.windowSize * b.weight.toNat) / b.totalWeight
    sysAssert (usedInWindow ≤ maxUserUseInWindow) type what
  else pure ()

/-- One step of the loop of `add_transaction_usage`. -/
def chargeUsage (cpuUsage netUsage timeSlot : ℕ) (rl : ResourceLimitsManager) (account : Name) :
    Result ResourceLimitsManager := do
  let usage ← rl.getUsage account
  let net ← usage.netUsage.add netUsage timeSlot rl.config.accountNetUsageAverageWindow
  let cpu ← usage.cpuUsage.add cpuUsage timeSlot rl.config.accountCpuUsageAverageWindow
  let rl := { rl with usage := rl.usage.upsert { usage with netUsage := net, cpuUsage := cpu } }
  let cpuBandwidth ← rl.cpuBandwidth account
  cpuBandwidth.checkWindow .txCpuUsageExceeded
    "authorizing account has insufficient objective cpu resources for this transaction"
  let netBandwidth ← rl.netBandwidth account
  netBandwidth.checkWindow .txNetUsageExceeded
    "authorizing account has insufficient net resources for this transaction"
  pure rl

/-- The end of `add_transaction_usage`: the usage of the block. -/
def addBlockUsage (rl : ResourceLimitsManager) (cpuUsage netUsage : ℕ) :
    Result ResourceLimitsManager := do
  let state := { rl.state with
    pendingCpuUsage := wrap64 (rl.state.pendingCpuUsage + cpuUsage)
    pendingNetUsage := wrap64 (rl.state.pendingNetUsage + netUsage) }
  sysAssert (state.pendingCpuUsage ≤ rl.config.cpuLimitParameters.max) .blockResourceExhausted
    "Block has insufficient cpu resources"
  sysAssert (state.pendingNetUsage ≤ rl.config.netLimitParameters.max) .blockResourceExhausted
    "Block has insufficient net resources"
  pure { rl with state := state }

def addTransactionUsage (rl : ResourceLimitsManager) (accounts : FlatSet Name)
    (cpuUsage netUsage timeSlot : ℕ) : Result ResourceLimitsManager := do
  let rl ← accounts.toList.foldlM (chargeUsage cpuUsage netUsage timeSlot) rl
  rl.addBlockUsage cpuUsage netUsage

/-! ### The end of a block -/

/-- `update_state_and_value`, for the total: the old value is taken off and the pending one added.
-/
def updateTotal (total : ℕ) (value pendingValue : ℤ) (what : String) : Result ℕ := do
  sysAssert (value ≤ total) .rateLimitingStateInconsistent
    ("underflow when reverting old value to " ++ what)
  let total := total - value.toNat
  sysAssert (pendingValue ≤ 2 ^ 64 - 1 - (total : ℤ)) .rateLimitingStateInconsistent
    ("overflow when applying new value to " ++ what)
  pure (total + pendingValue.toNat)

/-- One step of `process_account_limit_updates`. -/
def applyPendingLimits (rl : ResourceLimitsManager) (pending : ResourceLimitsObject) :
    Result ResourceLimitsManager := do
  let actual ← require (rl.limits.find? pending.owner) .logicError "unknown key"
  let totalRamBytes ← updateTotal rl.state.totalRamBytes actual.limits.ramBytes
    pending.limits.ramBytes "ram_bytes"
  let totalCpuWeight ← updateTotal rl.state.totalCpuWeight actual.limits.cpuWeight
    pending.limits.cpuWeight "cpu_weight"
  let totalNetWeight ← updateTotal rl.state.totalNetWeight actual.limits.netWeight
    pending.limits.netWeight "net_weight"
  pure { rl with
    limits := rl.limits.upsert pending
    pendingLimits := rl.pendingLimits.erase pending.owner
    state := { rl.state with
      totalRamBytes := totalRamBytes
      totalCpuWeight := totalCpuWeight
      totalNetWeight := totalNetWeight } }

def processAccountLimitUpdates (rl : ResourceLimitsManager) : Result ResourceLimitsManager :=
  (rl.pendingLimits.rows.insertionSort fun o o' => o.owner ≤ o'.owner).foldlM applyPendingLimits rl

def updateElasticLimit (currentLimit averageUsage : ℕ) (params : ElasticLimitParameters) :
    Result ℕ := do
  let result ← if params.target < averageUsage then params.contractRate.apply currentLimit
    else params.expandRate.apply currentLimit
  pure (min (max result params.max) (wrap64 (params.max * params.maxMultiplier)))

section

variable (rl : ResourceLimitsManager)

def processBlockUsage (blockNum : ℕ) : Result ResourceLimitsManager := do
  let cpu ← rl.state.averageBlockCpuUsage.add rl.state.pendingCpuUsage blockNum
    rl.config.cpuLimitParameters.periods
  let virtualCpuLimit ← updateElasticLimit rl.state.virtualCpuLimit cpu.average
    rl.config.cpuLimitParameters
  let net ← rl.state.averageBlockNetUsage.add rl.state.pendingNetUsage blockNum
    rl.config.netLimitParameters.periods
  let virtualNetLimit ← updateElasticLimit rl.state.virtualNetLimit net.average
    rl.config.netLimitParameters
  pure { rl with state := { rl.state with
    averageBlockCpuUsage := cpu
    virtualCpuLimit := virtualCpuLimit
    pendingCpuUsage := 0
    averageBlockNetUsage := net
    virtualNetLimit := virtualNetLimit
    pendingNetUsage := 0 } }

def setBlockParameters (cpuLimitParameters netLimitParameters : ElasticLimitParameters) :
    Result ResourceLimitsManager := do
  cpuLimitParameters.validate
  netLimitParameters.validate
  pure { rl with config := { rl.config with
    cpuLimitParameters := cpuLimitParameters
    netLimitParameters := netLimitParameters } }

def getBlockCpuLimit : ℕ :=
  wrap64 (rl.config.cpuLimitParameters.max + 2 ^ 64 - rl.state.pendingCpuUsage)

def getBlockNetLimit : ℕ :=
  wrap64 (rl.config.netLimitParameters.max + 2 ^ 64 - rl.state.pendingNetUsage)

/-- The calls that `controller_impl::finalize_block` makes. -/
def finalizeBlock (cpuLimitParameters netLimitParameters : ElasticLimitParameters) (blockNum : ℕ) :
    Result ResourceLimitsManager := do
  let rl ← rl.processAccountLimitUpdates
  let rl ← rl.setBlockParameters cpuLimitParameters netLimitParameters
  rl.processBlockUsage blockNum

end

end ResourceLimitsManager

end Sysio
