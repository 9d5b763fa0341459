import Sysio.ResourceLimits.Basic

/-!
# What the resource limits manager changes

For every operation of the manager one lemma says what it does to the usage and to the limits of
each account, and what it leaves alone.  Later proofs use these lemmas in place of the definitions.
-/

namespace Sysio

open Result List Table UsageAccumulator

variable {l : AccountLimits}

open Roa (AccountLimits)

namespace ResourceUsageObject

/-- The RAM usage changed by a number of bytes. -/
def addRam (u : ResourceUsageObject) (ramDelta : ℤ) : ResourceUsageObject :=
  { u with ramUsage := (u.ramUsage + ramDelta).toNat }

@[simp]
lemma addRam_zero (u : ResourceUsageObject) : u.addRam 0 = u := by
  simp [addRam]

/-- The usage of an account that has just been created. -/
def fresh (account : Name) : ResourceUsageObject := ⟨account, .zero, .zero, 0⟩

/-- Both accumulators are brought to a slot and nothing else changes. -/
structure DecaysTo (config : ResourceLimitsConfig) (timeSlot : ℕ) (u u' : ResourceUsageObject) :
    Prop where
  net : u.netUsage.decay timeSlot config.accountNetUsageAverageWindow = .ok u'.netUsage
  cpu : u.cpuUsage.decay timeSlot config.accountCpuUsageAverageWindow = .ok u'.cpuUsage
  ram : u'.ramUsage = u.ramUsage

end ResourceUsageObject

namespace ResourceLimitsManager

open ResourceUsageObject (addRam fresh DecaysTo)

variable {rl rl' : ResourceLimitsManager} {account b : Name} {u : ResourceUsageObject}
  {timeSlot : ℕ}

@[simp]
lemma getUsage_eq_ok :
    rl.getUsage account = .ok u ↔ rl.usage.find? account = some u := require_eq_ok

@[simp]
lemma getAccountLimits_eq_ok :
    rl.getAccountLimits account = .ok l ↔ rl.currentLimits account = some l := require_eq_ok

lemma owner_of_find? (h : rl.usage.find? account = some u) :
    u.owner = account := (Table.find?_eq_some.mp h).2

lemma find?_upsert_usage (rl : ResourceLimitsManager) (u : ResourceUsageObject) (b : Name) :
    (rl.usage.upsert u).find? b = if b = u.owner then some u else rl.usage.find? b := by
  rw [find?_upsert]
  simp only [eq_comm]

/-! ### Limits -/

lemma currentLimits_upsert (l : AccountLimits) :
    { rl with pendingLimits := rl.pendingLimits.upsert ⟨account, l⟩ }.currentLimits b =
      if b = account then some l else rl.currentLimits b := by
  simp only [currentLimits, find?_upsert]
  by_cases hb : b = account
  · simp [hb]
  · simp [hb, Ne.symm hb]

/-- `set_account_limits` changes the current limits of one account. -/
lemma setAccountLimits_eq_ok {decreased : Bool}
    (h : rl.setAccountLimits account l = .ok (rl', decreased)) :
    ∃ old, rl.currentLimits account = some old ∧
      decreased = decide (0 ≤ l.ramBytes ∧ (old.ramBytes < 0 ∨ l.ramBytes < old.ramBytes)) ∧
      rl'.usage = rl.usage ∧ rl'.config = rl.config ∧ rl'.state = rl.state ∧
      ∀ b, rl'.currentLimits b = if b = account then some l else rl.currentLimits b := by
  simp only [setAccountLimits, bind_eq_ok, getAccountLimits_eq_ok, pure_eq_ok, Prod.mk.injEq] at h
  obtain ⟨old, hold, rfl, rfl⟩ := h
  exact ⟨old, hold, rfl, rfl, rfl, rfl, fun b => currentLimits_upsert l⟩

/-- `initialize_account` adds an account without usage; its limits are none, unless there are
pending ones. -/
lemma initializeAccount_eq_ok (h : rl.initializeAccount account = .ok rl') :
    rl'.config = rl.config ∧ rl'.state = rl.state ∧ rl.usage.find? account = none ∧
      (∀ b, rl'.usage.find? b = if b = account then some (fresh account) else rl.usage.find? b) ∧
      ∀ b, b ≠ account → rl'.currentLimits b = rl.currentLimits b := by
  simp only [initializeAccount, bind_eq_ok, sysAssert_eq_ok, pure_eq_ok,
    Option.isNone_iff_eq_none] at h
  obtain ⟨-, -, -, hnone, rfl⟩ := h
  refine ⟨rfl, rfl, hnone, fun b => ?_, fun b hb => ?_⟩
  · exact rl.find?_upsert_usage (fresh account) b
  · simp only [currentLimits, find?_upsert]
    simp [Ne.symm hb]

/-! ### RAM -/

/-- `add_pending_ram_usage` changes the RAM usage of one account by exactly the delta. -/
lemma addPendingRamUsage_eq_ok {ramDelta : ℤ}
    (h : rl.addPendingRamUsage account ramDelta = .ok rl') :
    rl'.limits = rl.limits ∧ rl'.pendingLimits = rl.pendingLimits ∧ rl'.config = rl.config ∧
      rl'.state = rl.state ∧
      (∀ u, rl.usage.find? account = some u → 0 ≤ u.ramUsage + ramDelta) ∧
      ∀ b, rl'.usage.find? b = if b = account then (rl.usage.find? account).map (addRam · ramDelta)
        else rl.usage.find? b := by
  unfold addPendingRamUsage at h
  split_ifs at h with hzero
  · rw [pure_eq_ok] at h
    subst h hzero
    refine ⟨rfl, rfl, rfl, rfl, fun u _ => by omega, fun b => ?_⟩
    split_ifs with hb
    · simp [hb]
    · rfl
  · simp only [bind_eq_ok, getUsage_eq_ok, sysAssert_eq_ok, pure_eq_ok] at h
    obtain ⟨u, hu, -, -, -, hunder, rfl⟩ := h
    refine ⟨rfl, rfl, rfl, rfl, fun v hv => ?_, fun b => ?_⟩
    · obtain rfl : u = v := Option.some.inj (hu.symm.trans hv)
      omega
    · have hfind := rl.find?_upsert_usage { u with ramUsage := (u.ramUsage + ramDelta).toNat } b
      rwa [hu, ← owner_of_find? hu]

lemma verifyAccountRamUsage_eq_ok : rl.verifyAccountRamUsage account = .ok () ↔
    ∃ l u, rl.currentLimits account = some l ∧ rl.usage.find? account = some u ∧
      (0 ≤ l.ramBytes → (u.ramUsage : ℤ) ≤ l.ramBytes) := by
  simp only [verifyAccountRamUsage, bind_eq_ok, getAccountLimits_eq_ok, getUsage_eq_ok,
    sysAssert_eq_ok]
  constructor
  · rintro ⟨l, hl, u, hu, hle⟩
    exact ⟨l, u, hl, hu, hle⟩
  · rintro ⟨l, u, hl, hu, hle⟩
    exact ⟨l, hl, u, hu, hle⟩

/-! ### CPU and NET -/

lemma decayUsage_eq_ok (h : decayUsage timeSlot rl account = .ok rl') :
    rl' = { rl with usage := rl'.usage } ∧
      (∃ u u', rl.usage.find? account = some u ∧ rl'.usage.find? account = some u' ∧
        DecaysTo rl.config timeSlot u u') ∧
      ∀ b, b ≠ account → rl'.usage.find? b = rl.usage.find? b := by
  simp only [decayUsage, bind_eq_ok, getUsage_eq_ok, pure_eq_ok] at h
  obtain ⟨u, hu, net, hnet, cpu, hcpu, rfl⟩ := h
  obtain ⟨dn, hdn, rfl⟩ := add_eq_ok hnet
  obtain ⟨dc, hdc, rfl⟩ := add_eq_ok hcpu
  rw [charge_zero, charge_zero]
  have hfind := rl.find?_upsert_usage { u with netUsage := dn, cpuUsage := dc }
  simp only [owner_of_find? hu] at hfind
  refine ⟨rfl, ⟨u, { u with netUsage := dn, cpuUsage := dc }, hu, ?_, hdn, hdc, rfl⟩,
    fun b hb => ?_⟩
  · simp only [owner_of_find? hu, hfind, if_true]
  · simp only [owner_of_find? hu, hfind, if_neg hb]

/-- `update_account_usage` brings the given accounts to the slot and leaves the others alone. -/
lemma foldlM_decayUsage_eq_ok {accounts : List Name} (hnodup : accounts.Nodup)
    (h : accounts.foldlM (decayUsage timeSlot) rl = .ok rl') :
    rl' = { rl with usage := rl'.usage } ∧
      (∀ b ∈ accounts, ∃ u u', rl.usage.find? b = some u ∧ rl'.usage.find? b = some u' ∧
        DecaysTo rl.config timeSlot u u') ∧
      ∀ b, b ∉ accounts → rl'.usage.find? b = rl.usage.find? b := by
  -- each account is visited once, so what its visit leaves stays
  induction accounts generalizing rl with
  | nil =>
    cases h
    exact ⟨rfl, by simp, fun b _ => rfl⟩
  | cons a accounts ih =>
    rw [foldlM_cons, bind_eq_ok] at h
    obtain ⟨rl1, h1, h2⟩ := h
    obtain ⟨hnot, hnodup⟩ := nodup_cons.mp hnodup
    obtain ⟨hframe1, ⟨u, u', hu, hu', hdec⟩, hrest1⟩ := decayUsage_eq_ok h1
    obtain ⟨hframe2, hacc2, hrest2⟩ := ih hnodup h2
    have hconfig : rl1.config = rl.config := by rw [hframe1]
    refine ⟨by rw [hframe2, hframe1], fun b hb => ?_, fun b hb => ?_⟩
    · rcases mem_cons.mp hb with rfl | hb
      · exact ⟨u, u', hu, (hrest2 b hnot).trans hu', hdec⟩
      · have hne : b ≠ a := fun hba => hnot (hba ▸ hb)
        rw [← hrest1 b hne, ← hconfig]
        exact hacc2 b hb
    · rw [mem_cons, not_or] at hb
      rw [hrest2 b hb.2, hrest1 b hb.1]

/-- `add_transaction_usage` for one account: both accumulators are charged, and the pending usage of
the block grows, as far as it fits, and stays within the maxima. -/
lemma addTransactionUsage_eq_ok {cpuUsage netUsage : ℕ}
    (h : rl.addTransactionUsage (FlatSet.empty.insert account) cpuUsage netUsage timeSlot =
      .ok rl') :
    rl'.limits = rl.limits ∧ rl'.pendingLimits = rl.pendingLimits ∧ rl'.config = rl.config ∧
      (∃ u u', rl.usage.find? account = some u ∧ rl'.usage.find? account = some u' ∧
        u.netUsage.add netUsage timeSlot rl.config.accountNetUsageAverageWindow = .ok u'.netUsage ∧
        u.cpuUsage.add cpuUsage timeSlot rl.config.accountCpuUsageAverageWindow =
          .ok u'.cpuUsage ∧ u'.ramUsage = u.ramUsage) ∧
      (∀ b, b ≠ account → rl'.usage.find? b = rl.usage.find? b) ∧
      rl'.state.pendingCpuUsage = wrap64 (rl.state.pendingCpuUsage + cpuUsage) ∧
      rl'.state.pendingNetUsage = wrap64 (rl.state.pendingNetUsage + netUsage) ∧
      rl'.state.pendingCpuUsage ≤ rl.config.cpuLimitParameters.max ∧
      rl'.state.pendingNetUsage ≤ rl.config.netLimitParameters.max := by
  have hlist : (FlatSet.empty.insert account).toList = [account] := rfl
  simp only [addTransactionUsage, hlist, foldlM_cons, foldlM_nil, bind_eq_ok, pure_eq_ok] at h
  obtain ⟨_, ⟨rl1, hcharge, rfl⟩, hblock⟩ := h
  simp only [chargeUsage, bind_eq_ok, getUsage_eq_ok, pure_eq_ok] at hcharge
  obtain ⟨u, hu, net, hnet, cpu, hcpu, -, -, -, -, -, -, -, -, rfl⟩ := hcharge
  simp only [addBlockUsage, bind_eq_ok, sysAssert_eq_ok, pure_eq_ok] at hblock
  obtain ⟨-, hcpuMax, -, hnetMax, rfl⟩ := hblock
  have hfind := rl.find?_upsert_usage { u with netUsage := net, cpuUsage := cpu }
  simp only [owner_of_find? hu] at hfind
  refine ⟨rfl, rfl, rfl, ⟨u, { u with netUsage := net, cpuUsage := cpu }, hu, ?_, hnet, hcpu, rfl⟩,
    fun b hb => ?_, rfl, rfl, hcpuMax, hnetMax⟩
  · simp only [owner_of_find? hu, hfind, if_true]
  · simp only [owner_of_find? hu, hfind, if_neg hb]

end ResourceLimitsManager

end Sysio
