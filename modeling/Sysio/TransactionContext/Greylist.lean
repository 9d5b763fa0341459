import Sysio.TransactionContext.Payer

/-!
# Billing and the settings of a node

A node that speculates about a block looks at greylisted accounts under a limit, and `finalize` then
asks under the limit 1 whether the contract can pay; a node that validates the block never does.
This module compares two runs of `finalize` on nodes with different settings.  They charge the same
account unless exactly one of the nodes sees a greylisted account and the contract can pay under one
of the limits only.
-/

namespace Sysio.TransactionContext

open Result UsageAccumulator.Charged UsageAccumulator ResourceLimitsManager

variable {a p1 p2 payer : Name} {l1 l2 limit : ℕ} {node node₁ node₂ : NodeSettings} {timeSlot : ℕ}
  {rl rl₁ rl₂ : ResourceLimitsManager} {ctx : TransactionContext}

/-! ### The greylist limit -/

/-- The node cuts down the CPU or the NET of the account. -/
def IsGreylisted (node : NodeSettings) (rl : ResourceLimitsManager) (a : Name) : Prop :=
  (∃ l, rl.getAccountNetLimitEx a (node.greylistLimitFor a) = .ok (l, true) ∧ 0 ≤ l.available) ∨
    ∃ l, rl.getAccountCpuLimitEx a (node.greylistLimitFor a) = .ok (l, true) ∧ 0 ≤ l.available

/-- The node cuts down some billed account. -/
def SeesGreylisted (node : NodeSettings) (rl : ResourceLimitsManager)
    (billToAccounts : FlatSet Name) : Prop :=
  ∃ a ∈ billToAccounts, IsGreylisted node rl a

variable {acc acc' : ℤ × ℤ × Bool × Bool}

/-- One account of the loop: the two flags are raised exactly if it is greylisted. -/
lemma accountBandwidth_eq_ok
    (h : accountBandwidth node rl acc a = .ok acc') : (acc'.2.2.1 || acc'.2.2.2) = true ↔
      (acc.2.2.1 || acc.2.2.2) = true ∨ IsGreylisted node rl a := by
  simp only [accountBandwidth, bind_eq_ok, pure_eq_ok] at h
  obtain ⟨⟨net, netGreylisted⟩, hnet, ⟨cpu, cpuGreylisted⟩, hcpu, rfl⟩ := h
  simp only [IsGreylisted, hnet, hcpu, Except.ok.injEq, Prod.mk.injEq, Bool.or_eq_true,
    Bool.and_eq_true, decide_eq_true_eq]
  constructor
  · rintro ((h | ⟨h, hg⟩) | h | ⟨h, hg⟩)
    · exact .inl (.inl h)
    · exact .inr (.inl ⟨net, ⟨rfl, hg⟩, h⟩)
    · exact .inl (.inr h)
    · exact .inr (.inr ⟨cpu, ⟨rfl, hg⟩, h⟩)
  · rintro ((h | h) | ⟨l, ⟨rfl, hg⟩, h⟩ | ⟨l, ⟨rfl, hg⟩, h⟩)
    · exact .inl (.inl h)
    · exact .inr (.inl h)
    · exact .inl (.inr ⟨h, hg⟩)
    · exact .inr (.inr ⟨h, hg⟩)

lemma foldlM_accountBandwidth_eq_ok {accounts : List Name}
    (h : accounts.foldlM (accountBandwidth node rl) acc = .ok acc') :
    (acc'.2.2.1 || acc'.2.2.2) = true ↔
      (acc.2.2.1 || acc.2.2.2) = true ∨ ∃ a ∈ accounts, IsGreylisted node rl a := by
  induction accounts generalizing acc with
  | nil =>
    rw [List.foldlM_nil, pure_eq_ok] at h
    simp [h]
  | cons a accounts ih =>
    rw [List.foldlM_cons, bind_eq_ok] at h
    obtain ⟨acc1, h1, h2⟩ := h
    rw [ih h2, accountBandwidth_eq_ok h1, or_assoc]
    simp only [List.mem_cons, exists_eq_or_imp]

lemma greylistLimit_eq_ok (h : greylistLimit node rl ctx = .ok limit) :
    SeesGreylisted node rl ctx.billToAccounts ∧ limit = 1 ∨
      ¬ SeesGreylisted node rl ctx.billToAccounts ∧ limit = maximumElasticResourceMultiplier := by
  simp only [greylistLimit, maxBandwidthBilledAccountsCanPay, bind_eq_ok, pure_eq_ok] at h
  obtain ⟨r, ⟨r', hfold, -, -, rfl⟩, rfl⟩ := h
  have hiff := foldlM_accountBandwidth_eq_ok hfold
  simp only [Bool.or_self, Bool.false_eq_true, false_or] at hiff
  by_cases hsees : SeesGreylisted node rl ctx.billToAccounts
  · exact .inl ⟨hsees, if_pos (hiff.mpr hsees)⟩
  · exact .inr ⟨hsees, if_neg fun h => hsees (hiff.mp h)⟩

/-! ### Two runs -/

/-- The accumulators of the account have been brought to the slot already. -/
def UpToDate (timeSlot : ℕ) (rl : ResourceLimitsManager) (a : Name) : Prop :=
  ∀ u, rl.usage.find? a = some u →
    u.cpuUsage.lastOrdinal = timeSlot ∧ u.netUsage.lastOrdinal = timeSlot

/-- There is nothing to charge. -/
def UsesNothing (ctx : TransactionContext) : Prop :=
  ctx.billedCpuTimeUs = 0 ∧ ctx.roundedNetUsage = 0 ∧ ctx.totalRamUsage = 0

/-- Paying leaves a trace at the payer, unless there is nothing to pay and nothing to decay. -/
lemma Paid.usage_eq_iff (h : Paid timeSlot rl ctx payer rl₁) :
    rl₁.usage.find? payer = rl.usage.find? payer ↔
      UsesNothing ctx ∧ UpToDate timeSlot rl payer := by
  obtain ⟨u, u', hu, hu', hnet, hcpu, hram⟩ := h.charged
  have hcpuIff := eq_self_iff (add_eq_ok hcpu)
  have hnetIff := eq_self_iff (add_eq_ok hnet)
  rw [hu, hu', Option.some.injEq]
  constructor
  · rintro rfl
    refine ⟨⟨(hcpuIff.mp rfl).1, (hnetIff.mp rfl).1, by omega⟩, fun v hv => ?_⟩
    obtain rfl : u' = v := Option.some.inj (hu.symm.trans hv)
    exact ⟨(hcpuIff.mp rfl).2, (hnetIff.mp rfl).2⟩
  · rintro ⟨⟨hcpu0, hnet0, hram0⟩, hdate⟩
    have howner : u'.owner = u.owner := by
      rw [owner_of_find? hu', owner_of_find? hu]
    have hcpuEq := hcpuIff.mpr ⟨hcpu0, (hdate u hu).1⟩
    have hnetEq := hnetIff.mpr ⟨hnet0, (hdate u hu).2⟩
    have hramEq : u'.ramUsage = u.ramUsage := by omega
    cases u'
    subst howner hcpuEq hnetEq hramEq
    rfl

/-- `contract_can_pay`, under a greylist limit. -/
def contractCanPay (rl : ResourceLimitsManager) (ctx : TransactionContext) (greylistLimit : ℕ) :
    Result Bool :=
  canPay rl ctx.contractAccount greylistLimit ctx.billedCpuTimeUs ctx.roundedNetUsage
    ctx.totalRamUsage

/-- Under two limits, the payer is the same exactly if the contract can pay under both or under
none; otherwise one payer is the contract and the other one the user. -/
lemma payer_cases (h1 : choosePayer rl ctx l1 = .ok p1) (h2 : choosePayer rl ctx l2 = .ok p2) :
    contractCanPay rl ctx l1 = contractCanPay rl ctx l2 ∧ p1 = p2 ∨
      contractCanPay rl ctx l1 ≠ contractCanPay rl ctx l2 ∧ p1 ≠ p2 ∧
        (p1 = ctx.contractAccount ∧ p2 = ctx.userAccount ∨
          p1 = ctx.userAccount ∧ p2 = ctx.contractAccount) := by
  unfold contractCanPay
  obtain ⟨can1, hcan1, hp1⟩ := choosePayer_eq_ok h1
  obtain ⟨can2, hcan2, hp2⟩ := choosePayer_eq_ok h2
  rw [hcan1, hcan2]
  rcases hp1 with ⟨rfl, rfl⟩ | ⟨rfl, rfl, hne⟩ <;> rcases hp2 with ⟨rfl, rfl⟩ | ⟨rfl, rfl, hne'⟩
  · exact .inl ⟨rfl, rfl⟩
  · exact .inr ⟨nofun, hne'.symm, .inl ⟨rfl, rfl⟩⟩
  · exact .inr ⟨nofun, hne, .inr ⟨rfl, rfl⟩⟩
  · exact .inl ⟨rfl, rfl⟩

/-- Different payers leave the same usage only if there is nothing to pay. -/
lemma usage_eq_iff_of_ne (hne : p1 ≠ p2) (h1 : Paid timeSlot rl ctx p1 rl₁)
    (h2 : Paid timeSlot rl ctx p2 rl₂) : (∀ a, rl₁.usage.find? a = rl₂.usage.find? a) ↔
      UsesNothing ctx ∧ UpToDate timeSlot rl p1 ∧ UpToDate timeSlot rl p2 := by
  constructor
  · intro heq
    have hfirst := h1.usage_eq_iff.mp ((heq p1).trans (h2.others p1 hne))
    have hsecond := h2.usage_eq_iff.mp ((heq p2).symm.trans (h1.others p2 hne.symm))
    exact ⟨hfirst.1, hfirst.2, hsecond.2⟩
  · rintro ⟨hnothing, hdate1, hdate2⟩ a
    have hsame {p : Name} {rl' : ResourceLimitsManager} (h : Paid timeSlot rl ctx p rl')
        (hdate : UpToDate timeSlot rl p) : rl'.usage.find? a = rl.usage.find? a := by
      by_cases ha : a = p
      · exact ha ▸ h.usage_eq_iff.mpr ⟨hnothing, hdate⟩
      · exact h.others a ha
    rw [hsame h1 hdate1, hsame h2 hdate2]

/-- **Billing and the settings of a node.**  Two runs of `finalize` that both succeed leave the same
usage for every account exactly if both nodes see a greylisted account or none does, or the greylist
limit makes no difference to whether the contract can pay, or there is nothing to charge. -/
theorem usage_eq_iff_of_finalize (hro : ctx.isReadOnly = false)
    (h₁ : finalize node₁ timeSlot rl ctx = .ok rl₁)
    (h₂ : finalize node₂ timeSlot rl ctx = .ok rl₂) : (∀ a, rl₁.usage.find? a = rl₂.usage.find? a) ↔
      (SeesGreylisted node₁ rl ctx.billToAccounts ↔ SeesGreylisted node₂ rl ctx.billToAccounts) ∨
      contractCanPay rl ctx 1 = contractCanPay rl ctx maximumElasticResourceMultiplier ∨
      UsesNothing ctx ∧ UpToDate timeSlot rl ctx.contractAccount ∧
        UpToDate timeSlot rl ctx.userAccount := by
  obtain ⟨-, l1, p1, hl1, hp1, hpay1⟩ := finalize_eq_ok hro h₁
  obtain ⟨-, l2, p2, hl2, hp2, hpay2⟩ := finalize_eq_ok hro h₂
  rcases payer_cases hp1 hp2 with ⟨hcan, rfl⟩ | ⟨hcan, hne, hwho⟩
  -- one payer: the two runs end in the same state
  · obtain rfl : rl₁ = rl₂ := Except.ok.inj (hpay1.symm.trans hpay2)
    refine ⟨fun _ => ?_, fun _ _ => rfl⟩
    rcases greylistLimit_eq_ok hl1 with ⟨hs1, rfl⟩ | ⟨hs1, rfl⟩ <;>
      rcases greylistLimit_eq_ok hl2 with ⟨hs2, rfl⟩ | ⟨hs2, rfl⟩
    · exact .inl (iff_of_true hs1 hs2)
    · exact .inr (.inl hcan)
    · exact .inr (.inl hcan.symm)
    · exact .inl (iff_of_false hs1 hs2)
  -- two payers: the limits differ, and so does what the contract can pay
  · rw [usage_eq_iff_of_ne hne (pay_eq_ok hpay1) (pay_eq_ok hpay2)]
    have hsides : (UsesNothing ctx ∧ UpToDate timeSlot rl p1 ∧ UpToDate timeSlot rl p2) ↔
        UsesNothing ctx ∧ UpToDate timeSlot rl ctx.contractAccount ∧
          UpToDate timeSlot rl ctx.userAccount := by
      rcases hwho with ⟨rfl, rfl⟩ | ⟨rfl, rfl⟩
      · exact Iff.rfl
      · rw [and_comm (a := UpToDate _ _ ctx.userAccount)]
    have hdiffer : ¬ (SeesGreylisted node₁ rl ctx.billToAccounts ↔
        SeesGreylisted node₂ rl ctx.billToAccounts) ∧
        contractCanPay rl ctx 1 ≠ contractCanPay rl ctx maximumElasticResourceMultiplier := by
      rcases greylistLimit_eq_ok hl1 with ⟨hs1, rfl⟩ | ⟨hs1, rfl⟩ <;>
        rcases greylistLimit_eq_ok hl2 with ⟨hs2, rfl⟩ | ⟨hs2, rfl⟩
      · exact absurd rfl hcan
      · exact ⟨fun h => hs2 (h.mp hs1), hcan⟩
      · exact ⟨fun h => hs1 (h.mpr hs2), hcan.symm⟩
      · exact absurd rfl hcan
    rw [hsides, or_iff_right hdiffer.1, or_iff_right hdiffer.2]

/-! ### A greylisted contract -/

/-- A producer that greylists the contract. -/
def demoProducer : NodeSettings := ⟨true, [demoContract], maximumElasticResourceMultiplier⟩

/-- The context of the transaction when it comes to `finalize`. -/
def demoContext : TransactionContext :=
  ⟨demoInput.trx, false, billedAccounts demoInput.trx false, .empty, 8, 50, 0⟩

theorem usage_eq_iff_of_finalize_demo :
    ∃ rl₁ rl₂, finalize demoProducer 1 (demoResources 0) demoContext = .ok rl₁ ∧
      finalize demoValidator 1 (demoResources 0) demoContext = .ok rl₂ ∧
      ¬ (SeesGreylisted demoProducer (demoResources 0) demoContext.billToAccounts ↔
        SeesGreylisted demoValidator (demoResources 0) demoContext.billToAccounts) := by
  obtain ⟨rl₁, rl₂, h1, h2, hdiffer⟩ : ∃ rl₁ rl₂,
      finalize demoProducer 1 (demoResources 0) demoContext = .ok rl₁ ∧
      finalize demoValidator 1 (demoResources 0) demoContext = .ok rl₂ ∧
      rl₁.usage.find? demoContract ≠ rl₂.usage.find? demoContract := ⟨_, _, rfl, rfl, by decide⟩
  refine ⟨rl₁, rl₂, h1, h2, fun hsees => hdiffer ?_⟩
  exact (usage_eq_iff_of_finalize rfl h1 h2).mpr (.inl hsees) demoContract

/-- The contract affords the transaction only with the elastic part of its CPU.  The producer asks
without it and charges the user; the validator charges the contract. -/
theorem payer_depends_on_greylist :
    ∃ rl₁ rl₂, finalize demoProducer 1 (demoResources 0) demoContext = .ok rl₁ ∧
      finalize demoValidator 1 (demoResources 0) demoContext = .ok rl₂ ∧
      rl₁.usage.find? demoContract = (demoResources 0).usage.find? demoContract ∧
      rl₂.usage.find? demoContract ≠ (demoResources 0).usage.find? demoContract := by
  refine ⟨_, _, rfl, rfl, rfl, by decide⟩

end Sysio.TransactionContext
