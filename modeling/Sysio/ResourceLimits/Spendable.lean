import Sysio.ChainConfig
import Sysio.Errors
import Sysio.ResourceLimits.Effects

/-!
# Available resources can be spent

Three roundings meet when an account pays for a transaction.  The query of its limit rounds the
usage of the window up, the accumulator rounds what a transaction contributes up, and the check of
the limit rounds the usage of the window down.  As long as the window has at most as many slots as
the precision has units, the three never add up to a whole unit against the account.
-/

namespace Sysio

open Result UsageAccumulator

variable {den k num ordinal units windowSize : ℕ}

open Roa (AccountLimits)

/-- Rounding up is adjoint to multiplication. -/
lemma integerDivideCeil_le_iff (hden : 0 < den) :
    integerDivideCeil num den ≤ k ↔ num ≤ k * den := by
  unfold integerDivideCeil
  have hdiv : den * (num / den) + num % den = num := Nat.div_add_mod num den
  split_ifs with hmod
  · -- the division leaves a remainder, so the quotient is below `k` as soon as `num` is
    rw [Nat.succ_le_iff, Nat.div_lt_iff_lt_mul hden]
    refine ⟨Nat.le_of_lt, fun hle => lt_of_le_of_ne hle ?_⟩
    rintro rfl
    rw [Nat.mul_mod_left] at hmod
    exact absurd hmod (lt_irrefl 0)
  · have hzero : num % den = 0 := Nat.eq_zero_of_not_pos hmod
    rw [hzero, Nat.add_zero] at hdiv
    rw [Nat.add_zero]
    calc num / den ≤ k ↔ den * (num / den) ≤ den * k := (Nat.mul_le_mul_left_iff hden).symm
      _ ↔ num ≤ k * den := by rw [hdiv, Nat.mul_comm den k]

lemma le_integerDivideCeil_mul (num : ℕ) (hden : 0 < den) :
    num ≤ integerDivideCeil num den * den := (integerDivideCeil_le_iff hden).mp le_rfl

lemma integerDivideCeil_le_succ_div (num den : ℕ) :
    integerDivideCeil num den ≤ num / den + 1 := by
  unfold integerDivideCeil
  split_ifs
  · exact le_rfl
  · exact Nat.le_succ _

lemma rateLimitingPrecision_pos : 0 < rateLimitingPrecision := by decide

namespace UsageAccumulator

/-- What units contribute is more than their share of the window by less than one unit of the
average. -/
lemma contribution_mul_lt (h : 0 < windowSize) :
    contribution units windowSize * windowSize < units * rateLimitingPrecision + windowSize := by
  have hceil := integerDivideCeil_le_succ_div (units * rateLimitingPrecision) windowSize
  by_cases hmod : units * rateLimitingPrecision % windowSize > 0
  · have hdiv := Nat.div_add_mod' (units * rateLimitingPrecision) windowSize
    calc contribution units windowSize * windowSize
        ≤ (units * rateLimitingPrecision / windowSize + 1) * windowSize :=
          Nat.mul_le_mul_right _ hceil
      _ = units * rateLimitingPrecision / windowSize * windowSize + windowSize := by
          rw [Nat.add_mul, Nat.one_mul]
      _ < units * rateLimitingPrecision + windowSize := by omega
  · have heq : contribution units windowSize = units * rateLimitingPrecision / windowSize := by
      unfold contribution integerDivideCeil
      rw [if_neg hmod, Nat.add_zero]
    rw [heq]
    have hle := Nat.div_mul_le_self (units * rateLimitingPrecision) windowSize
    omega

/-- The usage of a window, rounded up, as the limits are reported with. -/
def usedInWindow (a : UsageAccumulator) (windowSize : ℕ) : ℕ :=
  integerDivideCeil (a.valueEx * windowSize) rateLimitingPrecision

/-- The usage of a window, rounded down, as the limits are checked with. -/
def checkedInWindow (a : UsageAccumulator) (windowSize : ℕ) : ℕ :=
  a.valueEx * windowSize / rateLimitingPrecision

variable (a : UsageAccumulator)

lemma usedInWindow_le_succ (windowSize : ℕ) :
    a.usedInWindow windowSize ≤ a.checkedInWindow windowSize + 1 :=
  integerDivideCeil_le_succ_div _ _

/-- **The roundings do not add up.**  What is checked after units have been charged is at most what
was reported before, plus the units. -/
theorem checkedInWindow_charge_le (hw : windowSize ≤ rateLimitingPrecision) :
    (a.charge units windowSize).checkedInWindow windowSize ≤ a.usedInWindow windowSize + units := by
  rcases Nat.eq_zero_or_pos windowSize with rfl | hpos
  · unfold checkedInWindow
    rw [Nat.mul_zero, Nat.zero_div]
    exact Nat.zero_le _
  · have hused : a.valueEx * windowSize ≤ a.usedInWindow windowSize * rateLimitingPrecision :=
      le_integerDivideCeil_mul _ rateLimitingPrecision_pos
    have hcontrib : contribution units windowSize * windowSize <
        units * rateLimitingPrecision + windowSize := contribution_mul_lt hpos
    have hsum : (a.charge units windowSize).valueEx * windowSize =
        a.valueEx * windowSize + contribution units windowSize * windowSize := Nat.add_mul _ _ _
    refine Nat.le_of_lt_succ ((Nat.div_lt_iff_lt_mul rateLimitingPrecision_pos).mpr ?_)
    -- less than one precision is lost, since the window is at most that long
    calc (a.charge units windowSize).valueEx * windowSize
        < a.usedInWindow windowSize * rateLimitingPrecision + units * rateLimitingPrecision +
            rateLimitingPrecision := by omega
      _ = (a.usedInWindow windowSize + units).succ * rateLimitingPrecision := by
          rw [Nat.succ_eq_add_one, Nat.add_mul, Nat.add_mul, Nat.one_mul]

lemma usedInWindow_add_le_charge (h : 0 < windowSize) :
    a.usedInWindow windowSize + units ≤ (a.charge units windowSize).usedInWindow windowSize := by
  have hcontrib : units * rateLimitingPrecision ≤ contribution units windowSize * windowSize :=
    le_integerDivideCeil_mul _ h
  have hafter := le_integerDivideCeil_mul ((a.charge units windowSize).valueEx * windowSize)
    rateLimitingPrecision_pos
  have hsum : (a.charge units windowSize).valueEx * windowSize =
      a.valueEx * windowSize + contribution units windowSize * windowSize := Nat.add_mul _ _ _
  have htotal : units * rateLimitingPrecision ≤
      (a.charge units windowSize).usedInWindow windowSize * rateLimitingPrecision := by
    unfold usedInWindow
    omega
  have hunits := Nat.le_of_mul_le_mul_right htotal rateLimitingPrecision_pos
  suffices a.usedInWindow windowSize ≤
      (a.charge units windowSize).usedInWindow windowSize - units by
    omega
  refine (integerDivideCeil_le_iff rateLimitingPrecision_pos).mpr ?_
  rw [Nat.sub_mul]
  unfold usedInWindow at htotal ⊢
  omega

lemma charge_of_add {a b : UsageAccumulator} (ho : a.lastOrdinal = ordinal)
    (h : a.add units ordinal windowSize = .ok b) : b = a.charge units windowSize :=
  charge_of_decay_of_add (decay_of_lastOrdinal_eq ho) h

/-- Adding usage throws errors of the accumulator only. -/
lemma avoids_add (units ordinal windowSize : ℕ) :
    Result.Avoids [.txCpuUsageExceeded, .txNetUsageExceeded] (a.add units ordinal windowSize) := by
  unfold add
  refine avoids_sysAssert_bind fun _ => avoids_sysAssert_bind fun _ => ?_
  have hcast : Result.Avoids [.txCpuUsageExceeded, .txNetUsageExceeded]
      (downgradeCast (2 ^ 64 - 1) (contribution units windowSize)) := by
    unfold downgradeCast
    exact avoids_sysAssert_bind fun _ => avoids_ok _
  refine hcast.bind fun _ _ => ?_
  refine avoids_sysAssert_bind fun _ => Result.Avoids.bind ?_ fun _ _ => Result.avoids_ok _
  unfold decay
  split_ifs
  · refine avoids_sysAssert_bind fun _ => Result.Avoids.bind ?_ fun _ _ => avoids_ok _
    unfold decayedValue
    split_ifs
    · exact avoids_sysAssert_bind fun _ => avoids_ok _
    · exact avoids_ok _
  · exact avoids_ok _

end UsageAccumulator

namespace ResourceLimitsManager

/-! ### The share of an account -/

namespace Bandwidth

/-- What the account may use in the window. -/
def share (b : Bandwidth) : ℕ :=
  wrap128 (b.virtualLimit * b.windowSize * b.weight.toNat) / b.totalWeight

/-- The bandwidth after units have been charged. -/
def charge (b : Bandwidth) (units : ℕ) : Bandwidth :=
  { b with usage := b.usage.charge units b.windowSize }

/-- What the check of `add_transaction_usage` asks. -/
def Within (b : Bandwidth) : Prop := b.usage.checkedInWindow b.windowSize ≤ b.share

variable {b : Bandwidth} {r : AccountResourceLimit × Bool}

-- by unfolding: to compare the two sides as they stand, the kernel would evaluate the contribution
lemma weight_charge : (b.charge units).weight = b.weight := by
  unfold charge
  rfl

lemma totalWeight_charge : (b.charge units).totalWeight = b.totalWeight := by
  unfold charge
  rfl

lemma windowSize_charge : (b.charge units).windowSize = b.windowSize := by
  unfold charge
  rfl

lemma usage_charge : (b.charge units).usage = b.usage.charge units b.windowSize := by
  unfold charge
  rfl

lemma share_charge : (b.charge units).share = b.share := by
  unfold share charge
  rfl

/-- What is reported to an account with a limit that is not greylisted. -/
lemma limitEx_eq (hlimited : ¬(b.weight < 0 ∨ b.totalWeight = 0)) :
    b.limitEx maximumElasticResourceMultiplier = .ok r ↔
      b.usage.usedInWindow b.windowSize ≤ 2 ^ 63 - 1 ∧ b.share ≤ 2 ^ 63 - 1 ∧
        r = (⟨b.usage.usedInWindow b.windowSize,
          (b.share - b.usage.usedInWindow b.windowSize : ℕ), b.share⟩, false) := by
  have hcapped : b.cappedLimit maximumElasticResourceMultiplier = (b.virtualLimit, false) :=
    if_neg (lt_irrefl _)
  -- the capacity is truncated once more here, which the second truncation hides
  have hshare : wrap128 (wrap128 (b.windowSize * b.virtualLimit) * b.weight.toNat) /
      b.totalWeight = b.share := by
    unfold share wrap128
    rw [Nat.mod_mul_mod, Nat.mul_comm b.windowSize]
  unfold limitEx
  rw [if_neg hlimited, hcapped]
  simp only [hshare, bind_eq_ok, downgradeCast_eq_ok, pure_eq_ok]
  constructor
  · rintro ⟨_, ⟨-, rfl⟩, _, ⟨hused, rfl⟩, _, ⟨hmax, rfl⟩, rfl⟩
    exact ⟨hused, hmax, rfl⟩
  · rintro ⟨hused, hmax, rfl⟩
    exact ⟨_, ⟨(Nat.sub_le _ _).trans hmax, rfl⟩, _, ⟨hused, rfl⟩, _, ⟨hmax, rfl⟩, rfl⟩

/-- An account to which resources are reported as available has a limit. -/
lemma limited_of_available (h : b.limitEx maximumElasticResourceMultiplier = .ok r)
    (havailable : 0 ≤ r.1.available) : ¬(b.weight < 0 ∨ b.totalWeight = 0) := by
  intro hlimited
  unfold limitEx at h
  rw [if_pos hlimited, pure_eq_ok] at h
  rw [← h] at havailable
  exact absurd havailable (by decide)

/-- Spending what is available passes the check, and as much less is available afterwards. -/
lemma charge_spec (hw : b.windowSize ≤ rateLimitingPrecision)
    (h : b.limitEx maximumElasticResourceMultiplier = .ok r)
    (hunits : (units : ℤ) ≤ r.1.available) (hmax : r.1.used ≤ r.1.max) : (b.charge units).Within ∧
      (∀ r', (b.charge units).limitEx maximumElasticResourceMultiplier = .ok r' →
        r'.1.available ≤ r.1.available - units) ∧ (r.1.max < 2 ^ 63 - 1 →
        ∃ r', (b.charge units).limitEx maximumElasticResourceMultiplier = .ok r') := by
  have hlimited := limited_of_available h (by omega)
  obtain ⟨-, hshare, rfl⟩ := (limitEx_eq hlimited).mp h
  replace hunits : units ≤ b.share - b.usage.usedInWindow b.windowSize := Int.ofNat_le.mp hunits
  replace hmax : b.usage.usedInWindow b.windowSize ≤ b.share := Int.ofNat_le.mp hmax
  have hcheck : (b.charge units).Within := by
    unfold Within
    rw [usage_charge, windowSize_charge, share_charge]
    exact (b.usage.checkedInWindow_charge_le hw).trans (by omega)
  have hlimited' : ¬((b.charge units).weight < 0 ∨ (b.charge units).totalWeight = 0) := by
    rwa [weight_charge, totalWeight_charge]
  refine ⟨hcheck, fun r' hr' => ?_, fun hlt => ?_⟩
  · obtain ⟨-, -, rfl⟩ := (limitEx_eq hlimited').mp hr'
    rw [share_charge, usage_charge, windowSize_charge]
    -- an empty window has an empty share, of which nothing can be spent
    have hgrows : b.usage.usedInWindow b.windowSize + units ≤
        (b.usage.charge units b.windowSize).usedInWindow b.windowSize := by
      rcases Nat.eq_zero_or_pos b.windowSize with hzero | hpos
      · have hnone : b.share = 0 := by
          unfold share wrap128
          rw [hzero, Nat.mul_zero, Nat.zero_mul, Nat.zero_mod, Nat.zero_div]
        obtain rfl : units = 0 := by omega
        rw [charge_zero]
        exact le_rfl
      · exact b.usage.usedInWindow_add_le_charge hpos
    generalize (b.usage.charge units b.windowSize).usedInWindow b.windowSize = used at hgrows
    dsimp only
    omega
  · have hlt' : b.share < 2 ^ 63 - 1 := Int.ofNat_lt.mp hlt
    have hused := (b.charge units).usage.usedInWindow_le_succ (b.charge units).windowSize
    unfold Within at hcheck
    rw [share_charge] at hcheck
    refine ⟨_, (limitEx_eq hlimited').mpr ⟨by omega, ?_, rfl⟩⟩
    rwa [share_charge]

end Bandwidth

/-! ### Spending -/

variable {rl rl₁ rl₂ : ResourceLimitsManager} {account : Name} {u n timeSlot : ℕ}

section

variable (rl) (v : ResourceUsageObject) (l : AccountLimits)

/-- The CPU of an account with the given usage and limits. -/
def cpuOf : Bandwidth :=
  ⟨v.cpuUsage, l.cpuWeight, rl.state.totalCpuWeight, rl.state.virtualCpuLimit,
    rl.config.cpuLimitParameters.max, rl.config.accountCpuUsageAverageWindow⟩

def netOf : Bandwidth :=
  ⟨v.netUsage, l.netWeight, rl.state.totalNetWeight, rl.state.virtualNetLimit,
    rl.config.netLimitParameters.max, rl.config.accountNetUsageAverageWindow⟩

end

lemma Bandwidth.avoids_checkWindow {b : Bandwidth} {type : ExceptionType} {what : String}
    {types : List ExceptionType} (h : b.Within) :
    Result.Avoids types (b.checkWindow type what) := by
  unfold Bandwidth.checkWindow
  split_ifs
  · exact avoids_sysAssert fun hover => absurd h hover
  · exact Result.avoids_ok _

section Known

variable {v : ResourceUsageObject} {l : AccountLimits} (hv : rl.usage.find? account = some v)
  (hl : rl.currentLimits account = some l)

include hv hl

lemma bandwidth_eq : rl.cpuBandwidth account = .ok (rl.cpuOf v l) ∧
    rl.netBandwidth account = .ok (rl.netOf v l) := by
  unfold cpuBandwidth netBandwidth
  rw [getUsage_eq_ok.mpr hv, getAccountLimits_eq_ok.mpr hl]
  exact ⟨rfl, rfl⟩

lemma bandwidth_charged (u n : ℕ) {rl' : ResourceLimitsManager}
    (h : rl' = { rl with usage := rl.usage.upsert { v with
      netUsage := v.netUsage.charge n rl.config.accountNetUsageAverageWindow
      cpuUsage := v.cpuUsage.charge u rl.config.accountCpuUsageAverageWindow } }) :
    rl'.cpuBandwidth account = .ok ((rl.cpuOf v l).charge u) ∧
      rl'.netBandwidth account = .ok ((rl.netOf v l).charge n) := by
  have hl' : rl'.currentLimits account = some l := h ▸ hl
  have hv' : rl'.usage.find? account = some { v with
      netUsage := v.netUsage.charge n rl.config.accountNetUsageAverageWindow
      cpuUsage := v.cpuUsage.charge u rl.config.accountCpuUsageAverageWindow } := by
    rw [h, find?_upsert_usage, if_pos (owner_of_find? hv).symm]
  have hcharged := bandwidth_eq hv' hl'
  subst h
  exact hcharged

variable (hcpu : v.cpuUsage.lastOrdinal = timeSlot) (hnet : v.netUsage.lastOrdinal = timeSlot)

include hcpu hnet

/-- What the loop of `add_transaction_usage` leaves of an account that has been brought to the
slot. -/
lemma chargeUsage_eq_ok (h : chargeUsage u n timeSlot rl account = .ok rl₁) :
    rl₁.cpuBandwidth account = .ok ((rl.cpuOf v l).charge u) ∧
      rl₁.netBandwidth account = .ok ((rl.netOf v l).charge n) := by
  simp only [chargeUsage, bind_eq_ok, getUsage_eq_ok, pure_eq_ok] at h
  obtain ⟨w, hw, net', hnet', cpu', hcpu', -, -, -, -, -, -, -, -, rfl⟩ := h
  obtain rfl : v = w := Option.some.inj (hv.symm.trans hw)
  refine bandwidth_charged hv hl u n ?_
  rw [charge_of_add hcpu hcpu', charge_of_add hnet hnet']

/-- An account whose bandwidths stay within their shares passes both checks. -/
lemma avoids_chargeUsage (hcpuShare : ((rl.cpuOf v l).charge u).Within)
    (hnetShare : ((rl.netOf v l).charge n).Within) :
    Result.Avoids [.txCpuUsageExceeded, .txNetUsageExceeded]
      (chargeUsage u n timeSlot rl account) := by
  unfold chargeUsage
  rw [getUsage_eq_ok.mpr hv, ok_bind]
  refine (avoids_add _ _ _ _).bind fun net' hnet' => ?_
  refine (avoids_add _ _ _ _).bind fun cpu' hcpu' => ?_
  obtain rfl := charge_of_add hcpu hcpu'
  obtain rfl := charge_of_add hnet hnet'
  obtain ⟨hcpuCharged, hnetCharged⟩ := bandwidth_charged hv hl u n rfl
  dsimp only
  rw [hcpuCharged, ok_bind]
  refine (Bandwidth.avoids_checkWindow hcpuShare).bind fun _ _ => ?_
  rw [hnetCharged, ok_bind]
  exact (Bandwidth.avoids_checkWindow hnetShare).bind fun _ _ => Result.avoids_ok _

end Known

lemma bandwidth_of_addBlockUsage (account : Name) (h : rl₁.addBlockUsage u n = .ok rl₂) :
    rl₂.cpuBandwidth account = rl₁.cpuBandwidth account ∧
      rl₂.netBandwidth account = rl₁.netBandwidth account := by
  simp only [addBlockUsage, bind_eq_ok, sysAssert_eq_ok, pure_eq_ok] at h
  obtain ⟨-, -, -, -, rfl⟩ := h
  exact ⟨rfl, rfl⟩

/-- **Available resources can be spent.**  Take an account that has been brought to the slot and has
not used more than its share of either resource.  A transaction in that slot which uses at most the
CPU and NET that are reported as available is not refused for want of them.  Afterwards as much less
is available; and the new values are reported, unless the share is the largest `int64_t`. -/
theorem available_spendable {accounts : FlatSet Name} {cpu net : AccountResourceLimit × Bool}
    (hcpuWindow : rl.config.accountCpuUsageAverageWindow ≤ rateLimitingPrecision)
    (hnetWindow : rl.config.accountNetUsageAverageWindow ≤ rateLimitingPrecision)
    (hupdate : rl.updateAccountUsage accounts timeSlot = .ok rl₁) (hmem : account ∈ accounts)
    (hcpu : rl₁.getAccountCpuLimitEx account maximumElasticResourceMultiplier = .ok cpu)
    (hnet : rl₁.getAccountNetLimitEx account maximumElasticResourceMultiplier = .ok net)
    (hu : (u : ℤ) ≤ cpu.1.available) (hn : (n : ℤ) ≤ net.1.available)
    (hcpuMax : cpu.1.used ≤ cpu.1.max) (hnetMax : net.1.used ≤ net.1.max) :
    Result.Avoids [.txCpuUsageExceeded, .txNetUsageExceeded]
        (rl₁.addTransactionUsage (FlatSet.empty.insert account) u n timeSlot) ∧
      ∀ rl₂, rl₁.addTransactionUsage (FlatSet.empty.insert account) u n timeSlot = .ok rl₂ →
        (∀ cpu', rl₂.getAccountCpuLimitEx account maximumElasticResourceMultiplier = .ok cpu' →
          cpu'.1.available ≤ cpu.1.available - u) ∧
        (∀ net', rl₂.getAccountNetLimitEx account maximumElasticResourceMultiplier = .ok net' →
          net'.1.available ≤ net.1.available - n) ∧ (cpu.1.max < 2 ^ 63 - 1 → ∃ cpu',
          rl₂.getAccountCpuLimitEx account maximumElasticResourceMultiplier = .ok cpu') ∧
        (net.1.max < 2 ^ 63 - 1 → ∃ net',
          rl₂.getAccountNetLimitEx account maximumElasticResourceMultiplier = .ok net') := by
  obtain ⟨hframe, haccounts, -⟩ :=
    foldlM_decayUsage_eq_ok (accounts.sorted.imp fun hlt => ne_of_lt hlt) hupdate
  obtain ⟨_, v, -, hv, hdecays⟩ := haccounts account hmem
  obtain ⟨l, hl⟩ : ∃ l, rl₁.currentLimits account = some l := by
    simp only [getAccountCpuLimitEx, cpuBandwidth, bind_eq_ok, getAccountLimits_eq_ok] at hcpu
    obtain ⟨_, ⟨_, -, l, hl, -⟩, -⟩ := hcpu
    exact ⟨l, hl⟩
  -- the windows are those of the configuration, which the update leaves alone
  have hconfig : rl₁.config = rl.config := by rw [hframe]
  obtain ⟨hcpuBefore, hnetBefore⟩ := bandwidth_eq hv hl
  have hcpuOrdinal := lastOrdinal_of_decay hdecays.cpu
  have hnetOrdinal := lastOrdinal_of_decay hdecays.net
  unfold getAccountCpuLimitEx at hcpu
  unfold getAccountNetLimitEx at hnet
  rw [hcpuBefore, ok_bind] at hcpu
  rw [hnetBefore, ok_bind] at hnet
  rw [← hconfig] at hcpuWindow hnetWindow
  obtain ⟨hcpuCheck, hcpuLess, hcpuReported⟩ := Bandwidth.charge_spec hcpuWindow hcpu hu hcpuMax
  obtain ⟨hnetCheck, hnetLess, hnetReported⟩ := Bandwidth.charge_spec hnetWindow hnet hn hnetMax
  have hlist : (FlatSet.empty.insert account).toList = [account] := rfl
  unfold addTransactionUsage
  rw [hlist, List.foldlM_cons]
  simp only [List.foldlM_nil, bind_pure]
  refine ⟨?_, fun rl₂ hadd => ?_⟩
  · refine (avoids_chargeUsage hv hl hcpuOrdinal hnetOrdinal hcpuCheck hnetCheck).bind
      fun rl' _ => ?_
    unfold addBlockUsage
    exact avoids_sysAssert_bind fun _ => avoids_sysAssert_bind fun _ => Result.avoids_ok _
  · obtain ⟨rl', hcharge, hblock⟩ := bind_eq_ok.mp hadd
    obtain ⟨hcpuAfter, hnetAfter⟩ := chargeUsage_eq_ok hv hl hcpuOrdinal hnetOrdinal hcharge
    obtain ⟨hcpuSame, hnetSame⟩ := bandwidth_of_addBlockUsage account hblock
    unfold getAccountCpuLimitEx getAccountNetLimitEx
    rw [hcpuSame, hcpuAfter, ok_bind, hnetSame, hnetAfter, ok_bind]
    exact ⟨hcpuLess, hnetLess, hcpuReported, hnetReported⟩

/-! ### Examples -/

/-- A chain with one account, which has all weight there is. -/
def demoSpender : Result ResourceLimitsManager := do
  let rl ← initializeDatabase.initializeAccount ⟨1⟩
  let (rl, _) ← rl.setAccountLimits ⟨1⟩ ⟨-1, 3, 2⟩
  rl.processAccountLimitUpdates

theorem available_spendable_demo : ∃ rl rl₁ rl₂ cpu net, demoSpender = .ok rl ∧
      rl.updateAccountUsage (FlatSet.empty.insert ⟨1⟩) 5 = .ok rl₁ ∧
      rl₁.getAccountCpuLimitEx ⟨1⟩ maximumElasticResourceMultiplier = .ok cpu ∧
      rl₁.getAccountNetLimitEx ⟨1⟩ maximumElasticResourceMultiplier = .ok net ∧
      rl₁.addTransactionUsage (FlatSet.empty.insert ⟨1⟩) 100 7 5 = .ok rl₂ ∧
      ∃ cpu', rl₂.getAccountCpuLimitEx ⟨1⟩ maximumElasticResourceMultiplier = .ok cpu' ∧
        cpu'.1.available ≤ cpu.1.available - (100 : ℕ) := by
  obtain ⟨rl, hrl, hcpuWindow, hnetWindow, rl₁, hupdate, ⟨cpu, hcpu, hu, hcpuMax, hlt⟩,
      ⟨net, hnet, hn, hnetMax⟩, rl₂, hadd, -⟩ : ∃ rl, demoSpender = .ok rl ∧
      rl.config.accountCpuUsageAverageWindow ≤ rateLimitingPrecision ∧
      rl.config.accountNetUsageAverageWindow ≤ rateLimitingPrecision ∧
      ∃ rl₁, rl.updateAccountUsage (FlatSet.empty.insert ⟨1⟩) 5 = .ok rl₁ ∧
        (∃ cpu, rl₁.getAccountCpuLimitEx ⟨1⟩ maximumElasticResourceMultiplier = .ok cpu ∧
          100 ≤ cpu.1.available ∧ cpu.1.used ≤ cpu.1.max ∧ cpu.1.max < 2 ^ 63 - 1) ∧
        (∃ net, rl₁.getAccountNetLimitEx ⟨1⟩ maximumElasticResourceMultiplier = .ok net ∧
          7 ≤ net.1.available ∧ net.1.used ≤ net.1.max) ∧
        ∃ rl₂, rl₁.addTransactionUsage (FlatSet.empty.insert ⟨1⟩) 100 7 5 = .ok rl₂ ∧ True := by
    decide +kernel
  obtain ⟨-, hafter⟩ := available_spendable hcpuWindow hnetWindow hupdate
    (FlatSet.mem_insert.mpr (.inl rfl)) hcpu hnet hu hn hcpuMax hnetMax
  obtain ⟨hless, -, hreported, -⟩ := hafter rl₂ hadd
  obtain ⟨cpu', hcpu'⟩ := hreported hlt
  exact ⟨rl, rl₁, rl₂, cpu, net, hrl, hupdate, hcpu, hnet, hadd, cpu', hcpu', hless cpu' hcpu'⟩

/-- The account loses its CPU weight after a transaction: none is available then, and a transaction
that uses none is refused all the same. -/
theorem exists_nothing_refused :
    ∃ rl₁ cpu net, (do
        let rl ← demoSpender
        let rl ← rl.addTransactionUsage (FlatSet.empty.insert ⟨1⟩) 100 7 5
        let (rl, _) ← rl.setAccountLimits ⟨1⟩ ⟨-1, 3, 0⟩
        rl.updateAccountUsage (FlatSet.empty.insert ⟨1⟩) 5) = .ok rl₁ ∧
      rl₁.config.accountCpuUsageAverageWindow ≤ rateLimitingPrecision ∧
      rl₁.config.accountNetUsageAverageWindow ≤ rateLimitingPrecision ∧
      rl₁.currentLimits ⟨1⟩ = some ⟨-1, 3, 0⟩ ∧
      rl₁.getAccountCpuLimitEx ⟨1⟩ maximumElasticResourceMultiplier = .ok cpu ∧
      rl₁.getAccountNetLimitEx ⟨1⟩ maximumElasticResourceMultiplier = .ok net ∧
      ((0 : ℕ) : ℤ) ≤ cpu.1.available ∧ ((0 : ℕ) : ℤ) ≤ net.1.available ∧
      ∃ e, rl₁.addTransactionUsage (FlatSet.empty.insert ⟨1⟩) 0 0 5 = .error e ∧
        e.type = .txCpuUsageExceeded := by
  simp only [exists_and_left]
  decide +kernel

end ResourceLimitsManager

end Sysio
