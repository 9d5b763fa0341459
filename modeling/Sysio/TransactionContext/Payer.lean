import Sysio.ResourceLimits.Effects
import Sysio.TransactionContext.Basic

/-!
# The payer of a transaction

`finalize` charges one account for the CPU time, the NET usage and the RAM of a transaction.  The
first part says what each stage of a transaction does to the usage of every account; the second
puts the stages together: exactly one account is charged.
-/

namespace Sysio

open Result List ResourceLimitsManager

open ResourceUsageObject (addRam fresh DecaysTo)

namespace UsageAccumulator

variable {a b : UsageAccumulator} {units ordinal windowSize : ℕ}

/-- The old value decays to the slot and the units are added. -/
def Charged (a : UsageAccumulator) (units ordinal windowSize : ℕ) (b : UsageAccumulator) : Prop :=
  ∃ d, a.decay ordinal windowSize = .ok d ∧ b = d.charge units windowSize

/-- A charge leaves no trace exactly if there is nothing to add and nothing to decay. -/
lemma Charged.eq_self_iff (h : a.Charged units ordinal windowSize b) :
    b = a ↔ units = 0 ∧ a.lastOrdinal = ordinal := by
  obtain ⟨d, hd, rfl⟩ := h
  constructor
  · intro heq
    have hord : a.lastOrdinal = ordinal := by
      rw [← heq, lastOrdinal_charge, lastOrdinal_of_decay hd]
    rw [decay_of_lastOrdinal_eq hord] at hd
    obtain rfl : a = d := Except.ok.inj hd
    exact ⟨charge_eq_self_iff.mp heq, hord⟩
  · rintro ⟨rfl, hord⟩
    rw [decay_of_lastOrdinal_eq hord] at hd
    rw [charge_zero, Except.ok.inj hd]

/-- An accumulator cannot both only decay and be charged something. -/
lemma Charged.units_eq_zero (h : a.Charged units ordinal windowSize b)
    (hb : b = a ∨ a.decay ordinal windowSize = .ok b) : units = 0 := by
  rcases hb with hb | hb
  · exact (h.eq_self_iff.mp hb).1
  · obtain ⟨d, hd, rfl⟩ := h
    rw [hd] at hb
    exact charge_eq_self_iff.mp (Except.ok.inj hb).symm

end UsageAccumulator

namespace TransactionContext

variable {node : NodeSettings} {timeSlot : ℕ} {rl rl' : ResourceLimitsManager}
  {ctx ctx' : TransactionContext} {trx : Transaction}

/-! ### The stages of a transaction -/

variable {initialNetUsage : ℕ} {onlyBillFirstAuthorizer : Bool} {ctx₁ : TransactionContext}
  {rl₁ rl₂ : ResourceLimitsManager}

/-- `init` bills the accounts of the transaction and brings them to the slot. -/
lemma init_eq_ok
    (h : init node timeSlot rl trx false onlyBillFirstAuthorizer initialNetUsage = .ok (rl', ctx)) :
    ctx.trx = trx ∧ ctx.isReadOnly = false ∧
      ctx.billToAccounts = billedAccounts trx onlyBillFirstAuthorizer ∧
      rl' = { rl with usage := rl'.usage } ∧
      (∀ b ∈ ctx.billToAccounts, ∃ u u', rl.usage.find? b = some u ∧
        rl'.usage.find? b = some u' ∧ DecaysTo rl.config timeSlot u u') ∧
      (∀ b, b ∉ ctx.billToAccounts → rl'.usage.find? b = rl.usage.find? b) ∧
      ctx.validateRamUsage = .empty ∧ ctx.totalRamUsage = 0 := by
  simp only [init, Bool.false_eq_true, if_false, bind_eq_ok, pure_eq_ok, Prod.mk.injEq] at h
  obtain ⟨rl₁, hupdate, -, -, rfl, rfl⟩ := h
  have hnodup : (billedAccounts trx onlyBillFirstAuthorizer).toList.Nodup :=
    (billedAccounts trx onlyBillFirstAuthorizer).sorted.imp fun h => h.ne
  obtain ⟨hframe, hacc, hrest⟩ := foldlM_decayUsage_eq_ok hnodup hupdate
  exact ⟨rfl, rfl, rfl, hframe, hacc, hrest, rfl, rfl⟩

/-- What running the actions can do to the resources: accounts may be added, and limits may
change. -/
structure ExecFrame (rl rl' : ResourceLimitsManager) (ctx ctx' : TransactionContext) : Prop where
  config : rl'.config = rl.config
  state : rl'.state = rl.state
  trx : ctx'.trx = ctx.trx
  isReadOnly : ctx'.isReadOnly = ctx.isReadOnly
  billToAccounts : ctx'.billToAccounts = ctx.billToAccounts
  existing : ∀ b u, rl.usage.find? b = some u → rl'.usage.find? b = some u
  created : ∀ b u, rl.usage.find? b = none → rl'.usage.find? b = some u →
    u = fresh b ∧ b ≠ Name.empty

lemma ExecFrame.refl (rl : ResourceLimitsManager) (ctx : TransactionContext) :
    ExecFrame rl rl ctx ctx :=
  ⟨rfl, rfl, rfl, rfl, rfl, fun _ _ h => h, fun _ _ h h' => by rw [h] at h'; cases h'⟩

lemma ExecFrame.trans {rl'' : ResourceLimitsManager} {ctx'' : TransactionContext}
    (h1 : ExecFrame rl rl' ctx ctx') (h2 : ExecFrame rl' rl'' ctx' ctx'') :
    ExecFrame rl rl'' ctx ctx'' := by
  refine ⟨h2.config.trans h1.config, h2.state.trans h1.state, h2.trx.trans h1.trx,
    h2.isReadOnly.trans h1.isReadOnly, h2.billToAccounts.trans h1.billToAccounts,
    fun b u hu => h2.existing b u (h1.existing b u hu), fun b u hnone hu => ?_⟩
  cases hmid : rl'.usage.find? b with
  | none => exact h2.created b u hmid hu
  | some v =>
    have huv := h2.existing b v hmid
    rw [hu] at huv
    exact Option.some.inj huv ▸ h1.created b v hnone hmid

lemma ExecFrame.of_usage_eq (hconfig : rl'.config = rl.config) (hstate : rl'.state = rl.state)
    (husage : rl'.usage = rl.usage) (htrx : ctx'.trx = ctx.trx)
    (hro : ctx'.isReadOnly = ctx.isReadOnly) (hbill : ctx'.billToAccounts = ctx.billToAccounts) :
    ExecFrame rl rl' ctx ctx' := by
  refine ⟨hconfig, hstate, htrx, hro, hbill, fun b u hu => husage ▸ hu, fun b u hnone hu => ?_⟩
  rw [husage, hnone] at hu
  cases hu

lemma ExecFrame.newaccount {name : Name} {ramDelta : ℤ}
    (h : newaccount rl ctx name ramDelta = .ok (rl', ctx')) : ExecFrame rl rl' ctx ctx' := by
  simp only [TransactionContext.newaccount, bind_eq_ok, pure_eq_ok, Prod.mk.injEq] at h
  obtain ⟨-, -, _, hname, rl₁, hinit, rl₂, hlimits, rfl, rfl⟩ := h
  rw [sysAssert_eq_ok] at hname
  obtain ⟨hconfig, hstate, hnone, husage, -⟩ := initializeAccount_eq_ok hinit
  have hfirst : ExecFrame rl rl₁ ctx (ctx.addRamUsage sysioName ramDelta) := by
    refine ⟨hconfig, hstate, rfl, rfl, rfl, fun b u hu => ?_, fun b u hb hu => ?_⟩
    · have hne : b ≠ name := by
        rintro rfl
        rw [hnone] at hu
        cases hu
      rw [husage, if_neg hne, hu]
    · rw [husage] at hu
      split_ifs at hu with hbn
      · exact ⟨by rw [← Option.some.inj hu, hbn], hbn ▸ hname⟩
      · rw [hb] at hu
        cases hu
  refine hfirst.trans ?_
  unfold initialLimits at hlimits
  split_ifs at hlimits
  · rw [pure_eq_ok] at hlimits
    exact hlimits ▸ ExecFrame.refl _ _
  · simp only [bind_eq_ok, pure_eq_ok] at hlimits
    obtain ⟨⟨rl3, decreased⟩, hset, rfl⟩ := hlimits
    obtain ⟨-, -, -, husage, hconfig, hstate, -⟩ := setAccountLimits_eq_ok hset
    exact ExecFrame.of_usage_eq hconfig hstate husage rfl rfl rfl

lemma reducepolicy_eq_ok {owner : Name} {netWeight cpuWeight ramWeight : Roa.Asset}
    {bytesPerUnit : ℕ}
    (h : reducepolicy rl owner netWeight cpuWeight ramWeight bytesPerUnit = .ok rl') :
    ∃ old new u divisible reclaimed, rl.currentLimits owner = some old ∧
      rl.usage.find? owner = some u ∧
      Roa.reclaimRam ramWeight bytesPerUnit old.ramBytes (Roa.toI64 u.ramUsage) =
        .ok (divisible, reclaimed) ∧
      new.ramBytes = old.ramBytes - divisible ∧ rl'.usage = rl.usage ∧
      rl'.config = rl.config ∧ rl'.state = rl.state ∧
      ∀ b, rl'.currentLimits b = if b = owner then some new else rl.currentLimits b := by
  simp only [reducepolicy, getAccountRamUsage, bind_eq_ok, pure_eq_ok, getAccountLimits_eq_ok,
    getUsage_eq_ok, Roa.i64_eq_ok] at h
  obtain ⟨old, hold, used, ⟨u, hu, rfl⟩, ⟨divisible, reclaimed⟩, hreclaim, ramBytes, ⟨-, hram⟩,
    netLimit, ⟨-, -⟩, cpuLimit, ⟨-, -⟩, ⟨rl₁, decreased⟩, hset, rfl⟩ := h
  obtain ⟨-, -, -, husage, hconfig, hstate, hlimits⟩ := setAccountLimits_eq_ok hset
  exact ⟨old, ⟨ramBytes, netLimit, cpuLimit⟩, u, divisible, reclaimed, hold, hu, hreclaim,
    hram.symm, husage, hconfig, hstate, hlimits⟩

lemma ExecFrame.execOp {op : ExecOp} (h : execOp (rl, ctx) op = .ok (rl', ctx')) :
    ExecFrame rl rl' ctx ctx' := by
  cases op with
  | addRamUsage | addNetUsage =>
    cases h
    exact ExecFrame.of_usage_eq rfl rfl rfl rfl rfl rfl
  | setResourceLimits =>
    simp only [TransactionContext.execOp, setResourceLimits, bind_eq_ok, pure_eq_ok,
      Prod.mk.injEq] at h
    obtain ⟨-, -, -, -, -, -, -, -, ⟨rl₁, decreased⟩, hset, rfl, rfl⟩ := h
    obtain ⟨-, -, -, husage, hconfig, hstate, -⟩ := setAccountLimits_eq_ok hset
    refine ExecFrame.of_usage_eq hconfig hstate husage ?_ ?_ ?_ <;> split_ifs <;> rfl
  | newaccount => exact ExecFrame.newaccount h
  | reducepolicy =>
    simp only [TransactionContext.execOp, bind_eq_ok, pure_eq_ok, Prod.mk.injEq] at h
    obtain ⟨rl₁, hreduce, rfl, rfl⟩ := h
    obtain ⟨-, -, -, -, -, -, -, -, -, husage, hconfig, hstate, -⟩ := reducepolicy_eq_ok hreduce
    exact ExecFrame.of_usage_eq hconfig hstate husage rfl rfl rfl

lemma ExecFrame.exec {ops : List ExecOp} (h : exec (rl, ctx) ops = .ok (rl', ctx')) :
    ExecFrame rl rl' ctx ctx' := by
  refine foldlM_induction
    (R := fun (s s' : ResourceLimitsManager × TransactionContext) => ExecFrame s.1 s'.1 s.2 s'.2)
    ?_ ?_ ?_ h
  · exact fun s => ExecFrame.refl s.1 s.2
  · exact fun _ _ _ h1 h2 => ExecFrame.trans h1 h2
  · exact fun _ _ _ h => ExecFrame.execOp h

variable {payer p q : Name} {t : TransactionInput} {u : ResourceUsageObject}

/-- The payer is the contract if it can pay, and otherwise the user, who must be another account. -/
lemma choosePayer_eq_ok {greylistLimit : ℕ} (h : choosePayer rl ctx greylistLimit = .ok payer) :
    ∃ contractCanPay, canPay rl ctx.contractAccount greylistLimit ctx.billedCpuTimeUs
        ctx.roundedNetUsage ctx.totalRamUsage = .ok contractCanPay ∧
      (contractCanPay = true ∧ payer = ctx.contractAccount ∨
        contractCanPay = false ∧ payer = ctx.userAccount ∧
          ctx.userAccount ≠ ctx.contractAccount) := by
  simp only [choosePayer, bind_eq_ok] at h
  obtain ⟨contractCanPay, hcan, h⟩ := h
  refine ⟨contractCanPay, hcan, ?_⟩
  cases contractCanPay with
  | true =>
    rw [if_pos rfl, pure_eq_ok] at h
    exact .inl ⟨rfl, h.symm⟩
  | false =>
    simp only [Bool.false_eq_true, if_false, bind_eq_ok, sysAssert_eq_ok, pure_eq_ok] at h
    obtain ⟨-, hne, -, -, -, -, rfl⟩ := h
    exact .inr ⟨rfl, rfl, hne⟩

/-- What paying does: the account is charged and nobody else, its RAM is within its limit, and the
pending usage of the block takes up the CPU time and the NET usage. -/
structure Paid (timeSlot : ℕ) (rl : ResourceLimitsManager) (ctx : TransactionContext)
    (payer : Name) (rl' : ResourceLimitsManager) : Prop where
  config : rl'.config = rl.config
  limits : rl'.limits = rl.limits
  pendingLimits : rl'.pendingLimits = rl.pendingLimits
  charged : ∃ u u', rl.usage.find? payer = some u ∧ rl'.usage.find? payer = some u' ∧
    u.netUsage.add ctx.roundedNetUsage timeSlot rl.config.accountNetUsageAverageWindow =
      .ok u'.netUsage ∧
    u.cpuUsage.add ctx.billedCpuTimeUs timeSlot rl.config.accountCpuUsageAverageWindow =
      .ok u'.cpuUsage ∧ (u'.ramUsage : ℤ) = u.ramUsage + ctx.totalRamUsage
  others : ∀ b, b ≠ payer → rl'.usage.find? b = rl.usage.find? b
  verified : ∀ l u', rl.currentLimits payer = some l → rl'.usage.find? payer = some u' →
    0 ≤ l.ramBytes → (u'.ramUsage : ℤ) ≤ l.ramBytes
  pendingCpu : rl'.state.pendingCpuUsage = wrap64 (rl.state.pendingCpuUsage + ctx.billedCpuTimeUs)
  pendingNet : rl'.state.pendingNetUsage = wrap64 (rl.state.pendingNetUsage + ctx.roundedNetUsage)
  cpuMax : rl'.state.pendingCpuUsage ≤ rl.config.cpuLimitParameters.max
  netMax : rl'.state.pendingNetUsage ≤ rl.config.netLimitParameters.max

lemma pay_eq_ok (h : pay timeSlot rl ctx payer = .ok rl') : Paid timeSlot rl ctx payer rl' := by
  simp only [pay, bind_eq_ok] at h
  obtain ⟨rl₁, hram, _, hverify, husage⟩ := h
  obtain ⟨hlimits, hpending, hconfig, hstate, hnonneg, hfind⟩ := addPendingRamUsage_eq_ok hram
  obtain ⟨l, v, hl, hv, hle⟩ := verifyAccountRamUsage_eq_ok.mp hverify
  obtain ⟨hlimits', hpending', hconfig', ⟨v', u', hv', hu', hnet, hcpu, hramEq⟩, hothers, hpc, hpn,
    hcm, hnm⟩ := addTransactionUsage_eq_ok husage
  obtain rfl : v = v' := Option.some.inj (hv.symm.trans hv')
  -- before the RAM was added
  rw [hfind, if_pos rfl, Option.map_eq_some_iff] at hv
  obtain ⟨u, hu, rfl⟩ := hv
  have hramU : ((addRam u ctx.totalRamUsage).ramUsage : ℤ) = u.ramUsage + ctx.totalRamUsage :=
    Int.toNat_of_nonneg (hnonneg u hu)
  rw [hconfig] at hnet hcpu hcm hnm
  rw [hstate] at hpc hpn
  refine ⟨hconfig'.trans hconfig, hlimits'.trans hlimits, hpending'.trans hpending,
    ⟨u, u', hu, hu', hnet, hcpu, ?_⟩, fun b hb => ?_, fun l' u'' hl' hu'' => ?_, hpc, hpn, hcm, hnm⟩
  · rwa [hramEq]
  · rw [hothers b hb, hfind, if_neg hb]
  · obtain rfl : u' = u'' := Option.some.inj (hu'.symm.trans hu'')
    have hsame : rl₁.currentLimits payer = rl.currentLimits payer := by
      simp only [currentLimits, hlimits, hpending]
    obtain rfl : l = l' := Option.some.inj (hl.symm.trans (hsame.trans hl'))
    rwa [hramEq]

lemma finalize_eq_ok (hro : ctx.isReadOnly = false)
    (h : finalize node timeSlot rl ctx = .ok rl') :
    (∀ a ∈ ctx.validateRamUsage, rl.verifyAccountRamUsage a = .ok ()) ∧
      ∃ limit payer, greylistLimit node rl ctx = .ok limit ∧
        choosePayer rl ctx limit = .ok payer ∧ pay timeSlot rl ctx payer = .ok rl' := by
  simp only [finalize, hro, Bool.false_eq_true, if_false, bind_eq_ok] at h
  obtain ⟨_, hverify, limit, hlimit, payer, hpayer, hpay⟩ := h
  exact ⟨fun a ha => forM_eq_ok.mp hverify _ ha, limit, payer, hlimit, hpayer, hpay⟩

/-! ### Exactly one payer -/

/-- The account of the first action, or the smallest other billed account. -/
def MayPay (ctx : TransactionContext) (p : Name) : Prop :=
  p = ctx.contractAccount ∨ p ∈ ctx.billToAccounts ∧ p ≠ ctx.contractAccount ∧
      ∀ x ∈ ctx.billToAccounts, x ≠ ctx.contractAccount → p ≤ x

lemma mayPay_userAccount (ctx : TransactionContext) : MayPay ctx ctx.userAccount := by
  simp only [userAccount]
  split_ifs with hempty
  · exact .inl rfl
  · cases hfirst : ctx.billToAccounts.firstOther ctx.contractAccount with
    | none => exact absurd (by rw [hfirst]; rfl) hempty
    | some user => exact .inr (FlatSet.firstOther_eq_some hfirst)

lemma mayPay_of_choosePayer {greylistLimit : ℕ}
    (h : choosePayer rl ctx greylistLimit = .ok payer) : MayPay ctx payer := by
  obtain ⟨-, -, ⟨-, rfl⟩ | ⟨-, rfl, -⟩⟩ := choosePayer_eq_ok h
  · exact .inl rfl
  · exact mayPay_userAccount ctx

/-- `p` is charged everything that the transaction used, and nobody else is charged: the usage of
the other accounts decays at most, and an account that the transaction has created has none. -/
structure ChargesOnly (timeSlot : ℕ) (rl rl' : ResourceLimitsManager) (ctx : TransactionContext)
    (p : Name) : Prop where
  payer : ∃ u u', rl.usage.find? p = some u ∧ rl'.usage.find? p = some u' ∧
    u.cpuUsage.Charged ctx.billedCpuTimeUs timeSlot rl.config.accountCpuUsageAverageWindow
      u'.cpuUsage ∧
    u.netUsage.Charged ctx.roundedNetUsage timeSlot rl.config.accountNetUsageAverageWindow
      u'.netUsage ∧ (u'.ramUsage : ℤ) = u.ramUsage + ctx.totalRamUsage
  others : ∀ q u, q ≠ p → rl.usage.find? q = some u →
    ∃ u', rl'.usage.find? q = some u' ∧ (u' = u ∨ DecaysTo rl.config timeSlot u u')
  created : ∀ q u', q ≠ p → rl.usage.find? q = none → rl'.usage.find? q = some u' → u' = fresh q

/-- Two accounts are charged everything only if there was nothing to charge. -/
lemma ChargesOnly.unique (hp : ChargesOnly timeSlot rl rl' ctx p)
    (hq : ChargesOnly timeSlot rl rl' ctx q) :
    q = p ∨ ctx.billedCpuTimeUs = 0 ∧ ctx.roundedNetUsage = 0 ∧ ctx.totalRamUsage = 0 := by
  by_cases hqp : q = p
  · exact .inl hqp
  · obtain ⟨u, u', hu, hu', hcpu, hnet, hram⟩ := hq.payer
    obtain ⟨v, hv, hdecay⟩ := hp.others q u hqp hu
    obtain rfl : u' = v := Option.some.inj (hu'.symm.trans hv)
    refine .inr ⟨hcpu.units_eq_zero ?_, hnet.units_eq_zero ?_, ?_⟩
    · exact hdecay.imp (congrArg _) fun h => h.cpu
    · exact hdecay.imp (congrArg _) fun h => h.net
    · have hsame : u'.ramUsage = u.ramUsage := by
        rcases hdecay with rfl | h
        · rfl
        · exact h.ram
      rw [hsame] at hram
      omega

lemma mem_insertAll {s : FlatSet Name} {names : List Name} {x : Name} :
    x ∈ insertAll s names ↔ x ∈ s ∨ x ∈ names := by
  induction names generalizing s with
  | nil => simp [insertAll]
  | cons a names ih =>
    have hcons : insertAll s (a :: names) = insertAll (s.insert a) names := rfl
    rw [hcons, ih, FlatSet.mem_insert, mem_cons]
    tauto

lemma contractAccount_mem (htrx : ctx.trx = trx)
    (hbill : ctx.billToAccounts = billedAccounts trx onlyBillFirstAuthorizer)
    (hne : ctx.contractAccount ≠ Name.empty) : ctx.contractAccount ∈ ctx.billToAccounts := by
  unfold contractAccount at hne ⊢
  rw [htrx] at hne ⊢
  rw [hbill, billedAccounts, if_neg hne, mem_insertAll]
  exact .inr (mem_append_right _ (mem_singleton_self _))

lemma pushTransaction_stages
    (h : pushTransaction node timeSlot rl t = .ok (rl', ctx)) : ∃ rl₁ ctx₁ rl₂ ctx2,
      init node timeSlot rl t.trx false t.onlyBillFirstAuthorizer t.initialNetUsage =
        .ok (rl₁, ctx₁) ∧ exec (rl₁, ctx₁) t.ops = .ok (rl₂, ctx2) ∧
      ctx = { ctx2 with billedCpuTimeUs := t.billedCpuTimeUs } ∧ ctx.isReadOnly = false ∧
      finalize node timeSlot rl₂ ctx = .ok rl' := by
  simp only [pushTransaction, bind_eq_ok, pure_eq_ok, Prod.mk.injEq] at h
  obtain ⟨⟨rl₁, ctx₁⟩, hinit, ⟨rl₂, ctx2⟩, hexec, rl3, hfinal, rfl, hctx⟩ := h
  have hro : ctx2.isReadOnly = false :=
    (ExecFrame.exec hexec).isReadOnly.trans (init_eq_ok hinit).2.1
  rw [hctx] at hfinal
  exact ⟨rl₁, ctx₁, rl₂, ctx2, hinit, hexec, hctx.symm, hctx ▸ hro, hfinal⟩

lemma pushTransaction_eq_ok
    (h : pushTransaction node timeSlot rl t = .ok (rl', ctx)) : ∃ rl₁ ctx₁ rl₂ payer limit,
      init node timeSlot rl t.trx false t.onlyBillFirstAuthorizer t.initialNetUsage =
        .ok (rl₁, ctx₁) ∧ ExecFrame rl₁ rl₂ ctx₁ ctx ∧ choosePayer rl₂ ctx limit = .ok payer ∧
      Paid timeSlot rl₂ ctx payer rl' := by
  obtain ⟨rl₁, ctx₁, rl₂, ctx2, hinit, hexec, hctx, hro, hfinal⟩ := pushTransaction_stages h
  have hframe : ExecFrame rl₁ rl₂ ctx₁ ctx :=
    (ExecFrame.exec hexec).trans (.of_usage_eq rfl rfl rfl (hctx ▸ rfl) (hctx ▸ rfl) (hctx ▸ rfl))
  obtain ⟨-, limit, payer, -, hchoose, hpay⟩ := finalize_eq_ok hro hfinal
  exact ⟨rl₁, ctx₁, rl₂, payer, limit, hinit, hframe, hchoose, pay_eq_ok hpay⟩

section

variable (hinit : init node timeSlot rl trx false onlyBillFirstAuthorizer initialNetUsage =
  .ok (rl₁, ctx₁))
include hinit

section

variable (hframe : ExecFrame rl₁ rl₂ ctx₁ ctx)
include hframe

/-- The payer had usage before the transaction, and it comes to `pay` decayed at most. -/
lemma exists_usage_of_mayPay (hp : MayPay ctx p) (hu : rl₂.usage.find? p = some u) :
    ∃ v, rl.usage.find? p = some v ∧ (u = v ∨ DecaysTo rl.config timeSlot v u) := by
  obtain ⟨htrx, -, hbill, -, hdecay, hsame, -⟩ := init_eq_ok hinit
  by_cases hmem : p ∈ ctx₁.billToAccounts
  · obtain ⟨v, v', hv, hv', hd⟩ := hdecay p hmem
    have hkept := hframe.existing p v' hv'
    obtain rfl : u = v' := Option.some.inj (hu.symm.trans hkept)
    exact ⟨v, hv, .inr hd⟩
  -- only the empty name can pay without being billed, and no action creates it
  · have hcontract : ctx.contractAccount = ctx₁.contractAccount := by
      rw [contractAccount, hframe.trx, contractAccount]
    have hempty : p = Name.empty := by
      rcases hp with rfl | ⟨hp, -, -⟩
      · by_contra hne
        rw [hcontract] at hne hmem
        exact hmem (contractAccount_mem htrx hbill hne)
      · exact absurd (hframe.billToAccounts ▸ hp) hmem
    cases hv : rl₁.usage.find? p with
    | none => exact absurd hempty (hframe.created p u hv hu).2
    | some v =>
      obtain rfl : u = v := Option.some.inj (hu.symm.trans (hframe.existing p v hv))
      exact ⟨u, (hsame p hmem).symm.trans hv, .inl rfl⟩

lemma decays_of_ne_payer
    (hpaid : Paid timeSlot rl₂ ctx p rl') (hq : q ≠ p) (hu : rl.usage.find? q = some u) :
    ∃ u', rl'.usage.find? q = some u' ∧ (u' = u ∨ DecaysTo rl.config timeSlot u u') := by
  obtain ⟨-, -, -, -, hdecay, hsame, -⟩ := init_eq_ok hinit
  rw [hpaid.others q hq]
  by_cases hmem : q ∈ ctx₁.billToAccounts
  · obtain ⟨v, v', hv, hv', hd⟩ := hdecay q hmem
    obtain rfl : u = v := Option.some.inj (hu.symm.trans hv)
    exact ⟨v', hframe.existing q v' hv', .inr hd⟩
  · exact ⟨u, hframe.existing q u ((hsame q hmem).trans hu), .inl rfl⟩

lemma created_of_ne_payer {u' : ResourceUsageObject}
    (hpaid : Paid timeSlot rl₂ ctx p rl') (hq : q ≠ p) (hnone : rl.usage.find? q = none)
    (hu' : rl'.usage.find? q = some u') : u' = fresh q := by
  obtain ⟨-, -, -, -, hdecay, hsame, -⟩ := init_eq_ok hinit
  rw [hpaid.others q hq] at hu'
  have hmem : q ∉ ctx₁.billToAccounts := by
    intro hmem
    obtain ⟨v, -, hv, -⟩ := hdecay q hmem
    rw [hnone] at hv
    cases hv
  exact (hframe.created q u' ((hsame q hmem).trans hnone) hu').1

end

end

lemma wrap64_eq_self_iff {n : ℕ} : wrap64 n = n ↔ n < 2 ^ 64 := by
  unfold wrap64
  omega

/-- **Exactly one payer.**  A transaction that goes through charges one account for everything: the
account of its first action or the smallest other billed account.  Nobody else is charged, and the
pending usage of the block stays within the maxima of the block.  It grows by what was billed
exactly if the sum fits into 64 bits: the addition is not guarded. -/
theorem chargesOnly_of_pushTransaction {t : TransactionInput} (hactions : t.trx.actions ≠ [])
    (h : pushTransaction node timeSlot rl t = .ok (rl', ctx)) :
    ctx.contractAccount = (t.trx.actions.head hactions).account ∧
      (∃ p, MayPay ctx p ∧ ChargesOnly timeSlot rl rl' ctx p ∧
        ∀ q, ChargesOnly timeSlot rl rl' ctx q → q = p ∨
          ctx.billedCpuTimeUs = 0 ∧ ctx.roundedNetUsage = 0 ∧ ctx.totalRamUsage = 0) ∧
      rl'.state.pendingCpuUsage ≤ rl.config.cpuLimitParameters.max ∧
      rl'.state.pendingNetUsage ≤ rl.config.netLimitParameters.max ∧
      (rl'.state.pendingCpuUsage = rl.state.pendingCpuUsage + ctx.billedCpuTimeUs ∧
          rl'.state.pendingNetUsage = rl.state.pendingNetUsage + ctx.roundedNetUsage ↔
        rl.state.pendingCpuUsage + ctx.billedCpuTimeUs < 2 ^ 64 ∧
          rl.state.pendingNetUsage + ctx.roundedNetUsage < 2 ^ 64) := by
  obtain ⟨rl₁, ctx₁, rl₂, p, limit, hinit, hframe, hchoose, hpaid⟩ := pushTransaction_eq_ok h
  obtain ⟨htrx, -, -, hrl1, -⟩ := init_eq_ok hinit
  have hconfig : rl₂.config = rl.config := by rw [hframe.config, hrl1]
  have hstate : rl₂.state = rl.state := by rw [hframe.state, hrl1]
  have hmay := mayPay_of_choosePayer hchoose
  have hcharges : ChargesOnly timeSlot rl rl' ctx p := by
    refine ⟨?_, fun q u hq hu => decays_of_ne_payer hinit hframe hpaid hq hu,
      fun q u' hq hnone hu' => created_of_ne_payer hinit hframe hpaid hq hnone hu'⟩
    obtain ⟨u, u', hu, hu', hnet, hcpu, hram⟩ := hpaid.charged
    rw [hconfig] at hnet hcpu
    obtain ⟨v, hv, rfl | hd⟩ := exists_usage_of_mayPay hinit hframe hmay hu
    · exact ⟨u, u', hv, hu', UsageAccumulator.add_eq_ok hcpu, UsageAccumulator.add_eq_ok hnet, hram⟩
    · exact ⟨v, u', hv, hu', ⟨_, hd.cpu, UsageAccumulator.charge_of_decay_of_add hd.cpu hcpu⟩,
        ⟨_, hd.net, UsageAccumulator.charge_of_decay_of_add hd.net hnet⟩, hd.ram ▸ hram⟩
  refine ⟨?_, ⟨p, hmay, hcharges, fun q hq => hcharges.unique hq⟩, ?_, ?_, ?_⟩
  · rw [contractAccount, hframe.trx, htrx, head?_eq_some_head hactions]
    rfl
  · exact hconfig ▸ hpaid.cpuMax
  · exact hconfig ▸ hpaid.netMax
  · rw [hpaid.pendingCpu, hpaid.pendingNet, hstate, wrap64_eq_self_iff, wrap64_eq_self_iff]

/-! ### A node with two accounts -/

/-- An account with a contract. -/
def demoContract : Name := ⟨7⟩

/-- An account that authorizes actions. -/
def demoAuthorizer : Name := ⟨9⟩

/-- The contract has a tenth of the CPU, and the authorizer has no limits at all. -/
def demoResources (pendingNetUsage : ℕ) : ResourceLimitsManager where
  limits := (Table.empty.upsert ⟨demoContract, ⟨-1, -1, 1⟩⟩).upsert ⟨demoAuthorizer, ⟨-1, -1, -1⟩⟩
  pendingLimits := .empty
  usage := (Table.empty.upsert (fresh demoContract)).upsert (fresh demoAuthorizer)
  config :=
    { cpuLimitParameters := ⟨50, 100, 1, 1000, ⟨99, 100⟩, ⟨1000, 999⟩⟩
      netLimitParameters := ⟨50, 2 ^ 64 - 1, 1, 1000, ⟨99, 100⟩, ⟨1000, 999⟩⟩
      accountCpuUsageAverageWindow := 1
      accountNetUsageAverageWindow := 1 }
  state :=
    { averageBlockNetUsage := .zero
      averageBlockCpuUsage := .zero
      pendingNetUsage := pendingNetUsage
      pendingCpuUsage := 0
      totalNetWeight := 10
      totalCpuWeight := 10
      totalRamBytes := 0
      virtualNetLimit := 1000
      virtualCpuLimit := 1000 }

/-- The authorizer calls the contract, for 50 µs of CPU and 8 bytes of NET. -/
def demoInput : TransactionInput :=
  ⟨⟨0, [], [⟨demoContract, ⟨1⟩, [⟨demoAuthorizer, ⟨1⟩⟩], []⟩]⟩, false, 8, [], 50⟩

/-- A node that validates a block. -/
def demoValidator : NodeSettings := ⟨false, [], maximumElasticResourceMultiplier⟩

theorem chargesOnly_of_pushTransaction_demo :
    ∃ rl' ctx, pushTransaction demoValidator 1 (demoResources 0) demoInput = .ok (rl', ctx) ∧
      (∃ p, MayPay ctx p ∧ ChargesOnly 1 (demoResources 0) rl' ctx p) ∧
      rl'.state.pendingNetUsage = 8 := by
  obtain ⟨rl', ctx, hrun, hpending⟩ : ∃ rl' ctx,
      pushTransaction demoValidator 1 (demoResources 0) demoInput = .ok (rl', ctx) ∧
        rl'.state.pendingNetUsage = 8 := ⟨_, _, rfl, rfl⟩
  obtain ⟨-, ⟨p, hmay, hcharges, -⟩, -⟩ := chargesOnly_of_pushTransaction (cons_ne_nil _ _) hrun
  exact ⟨rl', ctx, hrun, ⟨p, hmay, hcharges⟩, hpending⟩

/-- With so much pending that the sum does not fit, the pending NET usage of the block falls
to 0. -/
theorem pendingNetUsage_wraps :
    ∃ rl' ctx, pushTransaction demoValidator 1 (demoResources (2 ^ 64 - 8)) demoInput =
        .ok (rl', ctx) ∧
      ctx.roundedNetUsage = 8 ∧ (demoResources (2 ^ 64 - 8)).state.pendingNetUsage = 2 ^ 64 - 8 ∧
      rl'.state.pendingNetUsage = 0 :=
  ⟨_, _, rfl, rfl, rfl, rfl⟩

end TransactionContext

end Sysio
