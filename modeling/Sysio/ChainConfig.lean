import Sysio.ResourceLimits.Basic

/-!
# The configuration of the chain

The parameters that the producers can set, with the checks they have to pass, and what becomes of
them when a block ends: the parameters of the elastic limits.
-/

namespace Sysio

def percent100 : ℕ := 10000

def minNetUsageDeltaBetweenBaseAndMaxForTrx : ℕ := 10 * 1024

def sysPercent (value percentage : ℕ) : ℕ := wrap64 (value * percentage) / percent100

/-- `chain_config_v0`, with the parameters that its checks and the resource limits read. -/
structure ChainConfig where
  maxBlockNetUsage : UInt64
  targetBlockNetUsagePct : UInt32
  maxTransactionNetUsage : UInt32
  basePerTransactionNetUsage : UInt32
  netUsageLeeway : UInt32
  contextFreeDiscountNetUsageNum : UInt32
  contextFreeDiscountNetUsageDen : UInt32
  maxBlockCpuUsage : UInt32
  targetBlockCpuUsagePct : UInt32
  maxTransactionCpuUsage : UInt32
  minTransactionCpuUsage : UInt32
  maxAuthorityDepth : UInt16
  deriving DecidableEq, Repr

namespace ChainConfig

def validate (c : ChainConfig) : Result Unit := do
  sysAssert (c.targetBlockNetUsagePct.toNat ≤ percent100) .actionValidateException
    "target block net usage percentage cannot exceed 100%"
  sysAssert (percent100 / 100 / 10 ≤ c.targetBlockNetUsagePct.toNat) .actionValidateException
    "target block net usage percentage must be at least 0.1%"
  sysAssert (c.targetBlockCpuUsagePct.toNat ≤ percent100) .actionValidateException
    "target block cpu usage percentage cannot exceed 100%"
  sysAssert (percent100 / 100 / 10 ≤ c.targetBlockCpuUsagePct.toNat) .actionValidateException
    "target block cpu usage percentage must be at least 0.1%"
  sysAssert (c.maxTransactionNetUsage.toNat < c.maxBlockNetUsage.toNat) .actionValidateException
    "max transaction net usage must be less than max block net usage"
  sysAssert (c.maxTransactionCpuUsage < c.maxBlockCpuUsage) .actionValidateException
    "max transaction cpu usage must be less than max block cpu usage"
  sysAssert (c.basePerTransactionNetUsage < c.maxTransactionNetUsage) .actionValidateException
    "base net usage per transaction must be less than the max transaction net usage"
  sysAssert (minNetUsageDeltaBetweenBaseAndMaxForTrx ≤
      (c.maxTransactionNetUsage - c.basePerTransactionNetUsage).toNat) .actionValidateException
    ("max transaction net usage must be at least 10240 bytes larger than base net usage per " ++
      "transaction")
  sysAssert (0 < c.contextFreeDiscountNetUsageDen) .actionValidateException
    "net usage discount ratio for context free data cannot have a 0 denominator"
  sysAssert (c.contextFreeDiscountNetUsageNum ≤ c.contextFreeDiscountNetUsageDen)
    .actionValidateException "net usage discount ratio for context free data cannot exceed 1"
  sysAssert (c.minTransactionCpuUsage ≤ c.maxTransactionCpuUsage) .actionValidateException
    "min transaction cpu usage cannot exceed max transaction cpu usage"
  sysAssert (c.maxTransactionCpuUsage < c.maxBlockCpuUsage - c.minTransactionCpuUsage)
    .actionValidateException
    ("max transaction cpu usage must be at less than the difference between the max block cpu " ++
      "usage and the min transaction cpu usage")
  sysAssert (1 ≤ c.maxAuthorityDepth) .actionValidateException
    "max authority depth should be at least 1"

/-- The number of blocks over which the usage of blocks is averaged:
`block_cpu_usage_average_window_ms / block_interval_ms`, and the same for NET. -/
def blockUsageAverageWindow : ℕ := 60 * 1000 / 500

/-- The parameters of an elastic limit, for the given maximum and target percentage. -/
def elasticLimitParameters (max targetPct : ℕ) : ElasticLimitParameters :=
  ⟨sysPercent max targetPct, max, blockUsageAverageWindow, maximumElasticResourceMultiplier,
    ⟨99, 100⟩, ⟨1000, 999⟩⟩

/-- The CPU parameters that `finalize_block` passes on. -/
def cpuLimitParameters (c : ChainConfig) : ElasticLimitParameters :=
  elasticLimitParameters c.maxBlockCpuUsage.toNat c.targetBlockCpuUsagePct.toNat

/-- The NET parameters that `finalize_block` passes on. -/
def netLimitParameters (c : ChainConfig) : ElasticLimitParameters :=
  elasticLimitParameters c.maxBlockNetUsage.toNat c.targetBlockNetUsagePct.toNat

def defaults : ChainConfig where
  maxBlockNetUsage := 1024 * 1024
  targetBlockNetUsagePct := 1000
  maxTransactionNetUsage := 1024 * 1024 / 2
  basePerTransactionNetUsage := 12
  netUsageLeeway := 500
  contextFreeDiscountNetUsageNum := 20
  contextFreeDiscountNetUsageDen := 100
  maxBlockCpuUsage := 200000
  targetBlockCpuUsagePct := 1000
  maxTransactionCpuUsage := 3 * 200000 / 4
  minTransactionCpuUsage := 100
  maxAuthorityDepth := 6

example : defaults.validate = .ok () := by decide

end ChainConfig

/-- The manager as `initialize_database` leaves it: the defaults, and a slow start. -/
def ResourceLimitsManager.initializeDatabase : ResourceLimitsManager where
  limits := Table.empty
  pendingLimits := Table.empty
  usage := Table.empty
  config :=
    { cpuLimitParameters := ChainConfig.defaults.cpuLimitParameters
      netLimitParameters := ChainConfig.defaults.netLimitParameters
      accountCpuUsageAverageWindow := 24 * 60 * 60 * 1000 / 500
      accountNetUsageAverageWindow := 24 * 60 * 60 * 1000 / 500 }
  state :=
    { averageBlockNetUsage := .zero
      averageBlockCpuUsage := .zero
      pendingNetUsage := 0
      pendingCpuUsage := 0
      totalNetWeight := 0
      totalCpuWeight := 0
      totalRamBytes := 0
      virtualNetLimit := ChainConfig.defaults.netLimitParameters.max
      virtualCpuLimit := ChainConfig.defaults.cpuLimitParameters.max }

end Sysio
