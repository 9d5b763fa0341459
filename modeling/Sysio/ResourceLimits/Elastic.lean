import Sysio.ChainConfig
import Sysio.Data.Run

/-!
# Elastic limits over many blocks

At the end of a block the usage of the block goes into a moving average, and the virtual limits of
CPU and NET grow or shrink by a rate, within a factor of the maximum that the configuration sets.
All of this is done in 64 bits, with checks that throw.

CPU maxima have 32 bits and cannot reach the checks.  NET maxima have 64 bits, and the checks on a
configuration do not bound them from above.  For usages up to `safeUsage` the average fits
(`add_ok`), and for maxima up to `safeMax` the virtual limit does (`updateElasticLimit_ok`), so that
a block can always be finalized (`finalizes_of_run`); `huge_net_limit_halts` is an accepted
configuration for which the second block cannot.

The first bound comes from the decay of the average, which multiplies it by up to 119 before it
divides by 120.  The average itself stays below the largest usage, up to the roundings of the decay:
with `x` for the largest usage in parts per million plus 119, both `119 * x / 120` and what a block
adds, `x / 120`, are rounded down.
-/

namespace Sysio

open Result ChainConfig Nat UsageAccumulator

/-- The largest usage of a block for which the average fits 64 bits while it decays. -/
def safeUsage : ℕ := 155014656081

/-- The largest maximum of a block for which the virtual limit fits 64 bits while it grows. -/
def safeMax : ℕ := 18446744073709

/-! ### The moving average -/

namespace UsageAccumulator

/-- The average of usages up to `safeUsage`. -/
structure Safe (a : UsageAccumulator) : Prop where
  valueEx : a.valueEx ≤ safeUsage * rateLimitingPrecision + 119
  consumed : a.consumed ≤ 2 * safeUsage + 2

lemma safe_zero : Safe .zero := ⟨zero_le _, zero_le _⟩

variable {a : UsageAccumulator} {units ordinal : ℕ}

/-- A ratio of at most 119 to 120 can be applied to a safe average. -/
lemma apply_decay_ok {value numerator : ℕ}
    (hvalue : value ≤ safeUsage * rateLimitingPrecision + 119) (hnum : numerator ≤ 119) :
    ∃ v, Ratio.apply ⟨numerator, 120⟩ value = .ok v ∧
      v ≤ 119 * (safeUsage * rateLimitingPrecision + 119) / 120 := by
  have hmul : value * numerator ≤ 119 * (safeUsage * rateLimitingPrecision + 119) := by
    rw [mul_comm 119]
    exact Nat.mul_le_mul hvalue hnum
  refine ⟨value * numerator / 120, ?_, Nat.div_le_div_right hmul⟩
  unfold Ratio.apply
  simp only [bind_eq_ok, sysAssert_eq_ok, pure_eq_ok, and_true, exists_const]
  rcases Nat.eq_zero_or_pos numerator with hz | hpos
  · exact .inl hz
  · refine .inr ((le_div_iff_mul_le hpos).mpr (hmul.trans ?_))
    decide

lemma decay_ok (h : a.Safe) (ho : a.lastOrdinal < ordinal) :
    ∃ v, a.decay ordinal blockUsageAverageWindow =
        .ok ⟨ordinal, v, integerDivideCeil v rateLimitingPrecision⟩ ∧
      v ≤ 119 * (safeUsage * rateLimitingPrecision + 119) / 120 := by
  have hvalue : ∃ v, a.decayedValue ordinal blockUsageAverageWindow = .ok v ∧
      v ≤ 119 * (safeUsage * rateLimitingPrecision + 119) / 120 := by
    unfold decayedValue
    split_ifs with hlt
    · apply apply_decay_ok h.valueEx
      show 120 - (ordinal - a.lastOrdinal) ≤ 119
      omega
    · exact ⟨0, rfl, zero_le _⟩
  obtain ⟨v, hv, hle⟩ := hvalue
  refine ⟨v, ?_, hle⟩
  unfold decay
  rw [if_pos (by omega : a.lastOrdinal ≠ ordinal)]
  simp only [hv, ok_bind, bind_eq_ok, sysAssert_eq_ok, pure_eq_ok, and_true, exists_const]
  exact ho

/-- **A usage up to `safeUsage` can be added to a safe average**, and leaves it safe. -/
theorem add_ok (h : a.Safe) (hunits : units ≤ safeUsage) (ho : a.lastOrdinal < ordinal) :
    ∃ a', a.add units ordinal blockUsageAverageWindow = .ok a' ∧ a'.Safe ∧
      a'.lastOrdinal = ordinal := by
  obtain ⟨v, hv, hvle⟩ := decay_ok h ho
  obtain ⟨hvalue, hconsumed⟩ := h
  have hmax : safeUsage = 155014656081 := rfl
  have hmaxEx : safeUsage * rateLimitingPrecision = 155014656081000000 := rfl
  have hcontrib : contribution units blockUsageAverageWindow ≤
      (safeUsage * rateLimitingPrecision + 119) / 120 := by
    have hround : ∀ n, n / 120 + (if n % 120 > 0 then 1 else 0) ≤ (n + 119) / 120 := by
      intro n
      split_ifs <;> omega
    apply (hround (units * 1000000)).trans
    exact Nat.div_le_div_right (Nat.add_le_add_right (Nat.mul_le_mul_right _ hunits) _)
  rw [hmaxEx] at hvalue hvle hcontrib
  refine ⟨(⟨ordinal, v, integerDivideCeil v rateLimitingPrecision⟩ : UsageAccumulator).charge units
    blockUsageAverageWindow, ?_, ⟨?_, ?_⟩, rfl⟩
  · unfold add
    simp only [bind_eq_ok, sysAssert_eq_ok, downgradeCast_eq_ok, pure_eq_ok]
    refine ⟨(), ?_, (), by omega, _, ⟨by omega, rfl⟩, (), by omega, _, hv, rfl⟩
    show units ≤ (2 ^ 64 - 1) / 1000000
    omega
  · rw [hmaxEx]
    show v + contribution units blockUsageAverageWindow ≤ _
    omega
  · show v / 1000000 + (if v % 1000000 > 0 then 1 else 0) + units ≤ _
    split_ifs <;> omega

end UsageAccumulator

/-! ### The virtual limit -/

namespace ResourceLimitsManager

/-- The limit changes by one of two rates. -/
lemma updateElasticLimit_eq (currentLimit averageUsage : ℕ) (params : ElasticLimitParameters) :
    updateElasticLimit currentLimit averageUsage params = (do
      let result ← (if params.target < averageUsage then params.contractRate
        else params.expandRate).apply currentLimit
      pure (min (max result params.max) (wrap64 (params.max * params.maxMultiplier)))) := by
  unfold updateElasticLimit
  split_ifs
  · rfl
  · rfl

/-- A virtual limit within the range of its parameters can be updated, and is then within the range
of the parameters in force. -/
lemma updateElasticLimit_ok {currentLimit maximum targetPct : ℕ} (averageUsage : ℕ)
    (hcurrent : currentLimit ≤ safeMax * maximumElasticResourceMultiplier)
    (hmax : maximum ≤ safeMax) : ∃ limit, updateElasticLimit currentLimit averageUsage
        (elasticLimitParameters maximum targetPct) = .ok limit ∧
      maximum ≤ limit ∧ limit ≤ maximum * maximumElasticResourceMultiplier := by
  rw [show safeMax * maximumElasticResourceMultiplier = 18446744073709000 from rfl] at hcurrent
  rw [show safeMax = 18446744073709 from rfl] at hmax
  have happly : ∀ r : Ratio, r.numerator = 99 ∨ r.numerator = 1000 →
      r.apply currentLimit = .ok (currentLimit * r.numerator / r.denominator) := by
    intro r hr
    unfold Ratio.apply
    simp only [bind_eq_ok, sysAssert_eq_ok, pure_eq_ok, and_true, exists_const]
    right
    rcases hr with hr | hr
    · rw [hr]
      omega
    · rw [hr]
      omega
  have hwrap : wrap64 (maximum * maximumElasticResourceMultiplier) =
      maximum * maximumElasticResourceMultiplier := by
    unfold wrap64 maximumElasticResourceMultiplier
    omega
  rw [updateElasticLimit_eq, happly]
  · refine ⟨_, rfl, ?_, ?_⟩
    · show maximum ≤ min (max _ maximum) (wrap64 (maximum * maximumElasticResourceMultiplier))
      rw [hwrap]
      unfold maximumElasticResourceMultiplier
      omega
    · show min (max _ maximum) (wrap64 (maximum * maximumElasticResourceMultiplier)) ≤ _
      rw [hwrap]
      exact min_le_right _ _
  · split_ifs
    · exact .inl rfl
    · exact .inr rfl

/-! ### Blocks -/

/-- What one resource keeps between blocks, with the maximum in force. -/
structure SafeResource (average : UsageAccumulator) (blockNum virtualLimit pendingUsage : ℕ)
    (params : ElasticLimitParameters) : Prop where
  safe : average.Safe
  ordinal : average.lastOrdinal ≤ blockNum
  max_le : params.max ≤ safeMax
  pending_le : pendingUsage ≤ params.max
  pending_safe : pendingUsage ≤ safeUsage
  max_le_virtual : params.max ≤ virtualLimit
  virtual_le : virtualLimit ≤ params.max * maximumElasticResourceMultiplier

structure SafeLimits (rl : ResourceLimitsManager) (blockNum : ℕ) : Prop where
  cpu : SafeResource rl.state.averageBlockCpuUsage blockNum rl.state.virtualCpuLimit
    rl.state.pendingCpuUsage rl.config.cpuLimitParameters
  net : SafeResource rl.state.averageBlockNetUsage blockNum rl.state.virtualNetLimit
    rl.state.pendingNetUsage rl.config.netLimitParameters
  cpu_max : rl.config.cpuLimitParameters.max < 2 ^ 32

/-- The end of a block, for one resource, with the parameters of a new configuration. -/
lemma SafeResource.next {average : UsageAccumulator} {blockNum virtualLimit pendingUsage : ℕ}
    {params : ElasticLimitParameters}
    (h : SafeResource average blockNum virtualLimit pendingUsage params) {maximum targetPct : ℕ}
    (hmax : maximum ≤ safeMax) : ∃ average' virtualLimit', average.add pendingUsage (blockNum + 1)
        (elasticLimitParameters maximum targetPct).periods = .ok average' ∧
      updateElasticLimit virtualLimit average'.average
        (elasticLimitParameters maximum targetPct) = .ok virtualLimit' ∧
      SafeResource average' (blockNum + 1) virtualLimit' 0
        (elasticLimitParameters maximum targetPct) := by
  obtain ⟨average', hadd, hsafe, hordinal⟩ := add_ok h.safe
    h.pending_safe (lt_succ_of_le h.ordinal)
  have hvirtual : virtualLimit ≤ safeMax * maximumElasticResourceMultiplier :=
    h.virtual_le.trans (mul_le_mul_right _ h.max_le)
  obtain ⟨virtualLimit', hupdate, hlow, hhigh⟩ :=
    @updateElasticLimit_ok _ _ targetPct average'.average hvirtual hmax
  exact ⟨average', virtualLimit', hadd, hupdate,
    ⟨hsafe, hordinal.le, hmax, zero_le _, zero_le _, hlow, hhigh⟩⟩

/-- The calls for the end of a block, after the limits of accounts have been committed. -/
def endBlock (rl : ResourceLimitsManager) (c : ChainConfig) (blockNum : ℕ) :
    Result ResourceLimitsManager := do
  let rl ← rl.setBlockParameters c.cpuLimitParameters c.netLimitParameters
  rl.processBlockUsage blockNum

/-- **The end of a block does not throw.** -/
theorem SafeLimits.endBlock {rl : ResourceLimitsManager} {blockNum : ℕ}
    (h : rl.SafeLimits blockNum) {c : ChainConfig} (hnet : c.maxBlockNetUsage.toNat ≤ safeMax) :
    ∃ rl', rl.endBlock c (blockNum + 1) = .ok rl' ∧ rl'.SafeLimits (blockNum + 1) := by
  have hcpu : c.maxBlockCpuUsage.toNat ≤ safeMax := by
    have := c.maxBlockCpuUsage.toNat_lt
    unfold safeMax
    omega
  obtain ⟨cpu, virtualCpu, hcpuAdd, hcpuLimit, hcpuSafe⟩ :=
    @SafeResource.next _ _ _ _ _ h.cpu _ c.targetBlockCpuUsagePct.toNat hcpu
  obtain ⟨net, virtualNet, hnetAdd, hnetLimit, hnetSafe⟩ :=
    @SafeResource.next _ _ _ _ _ h.net _ c.targetBlockNetUsagePct.toNat hnet
  have hset : rl.setBlockParameters c.cpuLimitParameters c.netLimitParameters =
      .ok { rl with config := { rl.config with
        cpuLimitParameters := c.cpuLimitParameters
        netLimitParameters := c.netLimitParameters } } := rfl
  refine ⟨{ rl with
    config := { rl.config with
      cpuLimitParameters := c.cpuLimitParameters
      netLimitParameters := c.netLimitParameters }
    state := { rl.state with
      averageBlockCpuUsage := cpu
      virtualCpuLimit := virtualCpu
      pendingCpuUsage := 0
      averageBlockNetUsage := net
      virtualNetLimit := virtualNet
      pendingNetUsage := 0 } }, ?_, hcpuSafe, hnetSafe, c.maxBlockCpuUsage.toNat_lt⟩
  unfold ResourceLimitsManager.endBlock
  rw [hset, ok_bind]
  unfold processBlockUsage
  simp only [bind_eq_ok, pure_eq_ok]
  exact ⟨cpu, hcpuAdd, virtualCpu, hcpuLimit, net, hnetAdd, virtualNet, hnetLimit, rfl⟩

lemma SafeLimits.addBlockUsage {rl rl' : ResourceLimitsManager} {blockNum cpuUsage netUsage : ℕ}
    (h : rl.SafeLimits blockNum) (hnetSafe : rl.state.pendingNetUsage + netUsage ≤ safeUsage)
    (hadd : rl.addBlockUsage cpuUsage netUsage = .ok rl') : rl'.SafeLimits blockNum := by
  simp only [ResourceLimitsManager.addBlockUsage, bind_eq_ok, sysAssert_eq_ok, pure_eq_ok] at hadd
  obtain ⟨-, hcpu, -, hnet, rfl⟩ := hadd
  have hcpuSafe : wrap64 (rl.state.pendingCpuUsage + cpuUsage) ≤ safeUsage := by
    have hmax := h.cpu_max
    unfold safeUsage
    omega
  have hnetSafe' : wrap64 (rl.state.pendingNetUsage + netUsage) ≤ safeUsage :=
    (mod_le _ _).trans hnetSafe
  exact ⟨⟨h.cpu.safe, h.cpu.ordinal, h.cpu.max_le, hcpu, hcpuSafe, h.cpu.max_le_virtual,
    h.cpu.virtual_le⟩, ⟨h.net.safe, h.net.ordinal, h.net.max_le, hnet, hnetSafe',
    h.net.max_le_virtual, h.net.virtual_le⟩, h.cpu_max⟩

/-! ### Chains -/

inductive BlockEvent
  /-- A transaction is billed. -/
  | addBlockUsage (cpuUsage netUsage : ℕ)
  /-- A block ends, with the configuration that is in force then. -/
  | endBlock (c : ChainConfig)

/-- One event, in the manager and the number of the last block. -/
def BlockStep (s : ResourceLimitsManager × ℕ) : BlockEvent → ResourceLimitsManager × ℕ → Prop
  | .addBlockUsage cpuUsage netUsage, s' =>
    s.1.addBlockUsage cpuUsage netUsage = .ok s'.1 ∧ s'.2 = s.2
  | .endBlock c, s' =>
    c.validate = .ok () ∧ s.1.endBlock c (s.2 + 1) = .ok s'.1 ∧ s'.2 = s.2 + 1

/-- The NET usage of a block is at most `safeUsage`, and the NET maximum of a configuration at most
`safeMax`. -/
def BlockEvent.SafeNet (s : ResourceLimitsManager × ℕ) : BlockEvent → Prop
  | .addBlockUsage _ netUsage => s.1.state.pendingNetUsage + netUsage ≤ safeUsage
  | .endBlock c => c.maxBlockNetUsage.toNat ≤ safeMax

lemma safeLimits_initializeDatabase : initializeDatabase.SafeLimits 1 := by
  refine ⟨⟨safe_zero, by decide, by decide, by decide, by decide, by decide,
    by decide⟩, ⟨safe_zero, by decide, by decide, by decide, by decide, by decide,
    by decide⟩, by decide⟩

/-- **Every block can be finalized.**  In every chain with safe NET maxima and usages, whatever the
usage of its blocks within the maxima in force: the virtual limits are between the
maximum and its multiple, which fits 64 bits; what is left of the block is not negative; and the
next block can end with every accepted configuration whose NET maximum is safe. -/
theorem finalizes_of_run {tr : List (Transition (ResourceLimitsManager × ℕ) BlockEvent)}
    {s : ResourceLimitsManager × ℕ} (hr : Run BlockStep (initializeDatabase, 1) tr s)
    (hsafe : ∀ t ∈ tr, t.event.SafeNet t.pre) :
    (∀ p v, (p = s.1.config.cpuLimitParameters ∧ v = s.1.state.virtualCpuLimit ∨
        p = s.1.config.netLimitParameters ∧ v = s.1.state.virtualNetLimit) →
      p.max ≤ v ∧ v ≤ p.max * maximumElasticResourceMultiplier ∧
        p.max * maximumElasticResourceMultiplier < 2 ^ 64) ∧
      s.1.state.pendingCpuUsage + s.1.getBlockCpuLimit = s.1.config.cpuLimitParameters.max ∧
      s.1.state.pendingNetUsage + s.1.getBlockNetLimit = s.1.config.netLimitParameters.max ∧
      ∀ c : ChainConfig, c.validate = .ok () → c.maxBlockNetUsage.toNat ≤ safeMax →
        ∃ rl₁ rl₂, s.1.setBlockParameters c.cpuLimitParameters c.netLimitParameters = .ok rl₁ ∧
          rl₁.processBlockUsage (s.2 + 1) = .ok rl₂ := by
  have h : s.1.SafeLimits s.2 := (Run.forall_transition
    (P := fun s => s.1.SafeLimits s.2) (C := fun s e _ => BlockEvent.SafeNet s e)
    safeLimits_initializeDatabase
    (fun s e s' hs hC hstep => by
      cases e with
      | addBlockUsage =>
        obtain ⟨hadd, hnum⟩ := hstep
        rw [hnum]
        exact hs.addBlockUsage hC hadd
      | endBlock c =>
        obtain ⟨-, hend, hnum⟩ := hstep
        obtain ⟨rl', hrl', hsafe'⟩ := hs.endBlock hC
        obtain rfl : rl' = s'.1 := Except.ok.inj (hrl'.symm.trans hend)
        rw [hnum]
        exact hsafe') hr hsafe).1
  have hmul : ∀ maximum, maximum ≤ safeMax →
      maximum * maximumElasticResourceMultiplier < 2 ^ 64 := by
    intro maximum hle
    unfold safeMax at hle
    unfold maximumElasticResourceMultiplier
    omega
  refine ⟨?_, ?_, ?_, fun c _ hnet => ?_⟩
  · rintro p v (⟨rfl, rfl⟩ | ⟨rfl, rfl⟩)
    · exact ⟨h.cpu.max_le_virtual, h.cpu.virtual_le, hmul _ h.cpu.max_le⟩
    · exact ⟨h.net.max_le_virtual, h.net.virtual_le, hmul _ h.net.max_le⟩
  · have hle := h.cpu.pending_le
    have hmax := h.cpu.max_le
    unfold getBlockCpuLimit wrap64
    unfold safeMax at hmax
    omega
  · have hle := h.net.pending_le
    have hmax := h.net.max_le
    unfold getBlockNetLimit wrap64
    unfold safeMax at hmax
    omega
  · obtain ⟨rl', hend, -⟩ := h.endBlock hnet
    unfold endBlock at hend
    obtain ⟨rl₁, h1, h2⟩ := bind_eq_ok.mp hend
    exact ⟨rl₁, rl', h1, h2⟩

def nextBlock (s : ResourceLimitsManager × ℕ) :
    BlockEvent → Option (ResourceLimitsManager × ℕ)
  | .addBlockUsage cpuUsage netUsage =>
    (s.1.addBlockUsage cpuUsage netUsage).toOption.map fun rl => (rl, s.2)
  | .endBlock c =>
    if c.validate = .ok () then
      (s.1.endBlock c (s.2 + 1)).toOption.map fun rl => (rl, s.2 + 1)
    else
      none

lemma blockStep_of_nextBlock {s s' : ResourceLimitsManager × ℕ} {e : BlockEvent}
    (h : nextBlock s e = some s') : BlockStep s e s' := by
  cases e with
  | addBlockUsage =>
    obtain ⟨rl, hadd, rfl⟩ := Option.map_eq_some_iff.mp h
    exact ⟨eq_ok_of_toOption hadd, rfl⟩
  | endBlock c =>
    rw [nextBlock] at h
    split at h
    · next hvalid =>
      obtain ⟨rl, hend, rfl⟩ := Option.map_eq_some_iff.mp h
      exact ⟨hvalid, eq_ok_of_toOption hend, rfl⟩
    · cases h

instance (s : ResourceLimitsManager × ℕ) (e : BlockEvent) : Decidable (e.SafeNet s) :=
  match e with
  | .addBlockUsage _ netUsage =>
    inferInstanceAs (Decidable (s.1.state.pendingNetUsage + netUsage ≤ safeUsage))
  | .endBlock c => inferInstanceAs (Decidable (c.maxBlockNetUsage.toNat ≤ safeMax))

theorem finalizes_of_run_demo : ∃ tr s, Run BlockStep (initializeDatabase, 1) tr s ∧ s.2 = 3 ∧
      s.1.config.netLimitParameters.max = 2000000 ∧ s.1.state.virtualNetLimit ≤ 2000000000 ∧
      s.1.state.pendingNetUsage + s.1.getBlockNetLimit = 2000000 ∧
      ∃ rl₁ rl₂, s.1.setBlockParameters defaults.cpuLimitParameters
          defaults.netLimitParameters = .ok rl₁ ∧ rl₁.processBlockUsage 4 = .ok rl₂ := by
  obtain ⟨tr, s, hr, hP⟩ := exists_run_of_carryOut nextBlock (initializeDatabase, 1)
    [.addBlockUsage 200000 1000000, .endBlock defaults, .addBlockUsage 1 100,
      .endBlock { defaults with maxBlockNetUsage := 2000000 }, .addBlockUsage 5 8]
    (fun _ _ _ => blockStep_of_nextBlock)
    (P := fun tr s => (∀ t ∈ tr, t.event.SafeNet t.pre) ∧ s.2 = 3 ∧
      s.1.config.netLimitParameters.max = 2000000) (by decide)
  obtain ⟨hsafe, hnum, hmax⟩ := hP
  obtain ⟨hvirtual, -, hnet, hend⟩ := finalizes_of_run hr hsafe
  refine ⟨tr, s, hr, hnum, hmax, ?_, hnet.trans hmax, ?_⟩
  · have hle := (hvirtual _ _ (.inr ⟨rfl, rfl⟩)).2.1
    rwa [hmax] at hle
  · have hlast := hend ChainConfig.defaults (by decide) (by decide)
    rwa [hnum] at hlast

/-- With a NET maximum of 18.5 petabytes, whose thousandfold does not fit 64 bits, one empty block
ends and the next one does not. -/
theorem huge_net_limit_halts :
    let c := { defaults with maxBlockNetUsage := 18500000000000000 }
    c.validate = .ok () ∧ ∃ rl, initializeDatabase.endBlock c 2 = .ok rl ∧
      rl.state.pendingCpuUsage = 0 ∧ rl.state.pendingNetUsage = 0 ∧
      rl.state.virtualNetLimit = 18500000000000000 ∧
      rl.endBlock c 3 = .error ⟨.rateLimitingStateInconsistent,
        "Usage exceeds maximum value representable after extending for precision"⟩ := by
  refine ⟨by decide, { initializeDatabase with
    config := { initializeDatabase.config with
      netLimitParameters := elasticLimitParameters 18500000000000000 1000 }
    state := { initializeDatabase.state with
      averageBlockCpuUsage := ⟨2, 0, 0⟩
      averageBlockNetUsage := ⟨2, 0, 0⟩
      virtualCpuLimit := 200200
      virtualNetLimit := 18500000000000000 } }, ?_, ?_⟩
  · rfl
  · exact ⟨rfl, rfl, rfl, rfl⟩

end ResourceLimitsManager

end Sysio
