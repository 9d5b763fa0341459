import Sysio.Ram.Moves
import Sysio.TransactionContext.RamQuota

/-!
# The RAM ledger

The RAM usage of an account should be what it has been charged for the live objects.  `finalize`
charges what the handlers have asked for to one account, whoever had been charged for the objects
that the transaction has removed.  So the ledger is right if every object has a home account, and
only transactions that this account is bound to pay for touch the object; nothing in the code makes
sure of it.

The end of the file has a history without such homes: a row is charged to the user and credited to
the contract, which fails.
-/

namespace Sysio

open Result List Option Table ResourceLimitsManager TransactionContext Objects ExecOp Except

open TransactionContext (ExecOp)

/-! ### What a transaction charges -/

/-- The RAM usage of an account; an account that does not exist uses none. -/
def ResourceLimitsManager.ramUsage (rl : ResourceLimitsManager) (a : Name) : ℕ :=
  ((rl.usage.find? a).map (·.ramUsage)).getD 0

namespace TransactionContext

variable {node : NodeSettings} {timeSlot : ℕ} {rl rl' : ResourceLimitsManager}
  {ctx ctx' : TransactionContext} {trx : Transaction}

lemma totalRamUsage_execOp {op : ExecOp} (h : execOp (rl, ctx) op = .ok (rl', ctx')) :
    ctx'.totalRamUsage = ctx.totalRamUsage + op.ramDelta := by
  cases op with
  | addRamUsage =>
    simp only [execOp, pure_eq_ok, Prod.mk.injEq] at h
    obtain ⟨-, rfl⟩ := h
    rfl
  | addNetUsage u =>
    simp only [execOp, pure_eq_ok, Prod.mk.injEq] at h
    obtain ⟨-, rfl⟩ := h
    exact (add_zero _).symm
  | setResourceLimits =>
    simp only [execOp, setResourceLimits, bind_eq_ok, pure_eq_ok, Prod.mk.injEq] at h
    obtain ⟨-, -, -, -, -, -, -, -, r, -, -, rfl⟩ := h
    simp only [ExecOp.ramDelta, add_zero]
    split_ifs <;> rfl
  | newaccount =>
    simp only [execOp, newaccount, bind_eq_ok, pure_eq_ok, Prod.mk.injEq] at h
    obtain ⟨-, -, -, -, -, -, -, -, -, rfl⟩ := h
    rfl
  | reducepolicy =>
    simp only [execOp, bind_eq_ok, pure_eq_ok, Prod.mk.injEq] at h
    obtain ⟨-, -, -, rfl⟩ := h
    exact (add_zero _).symm

/-- What has been asked for is added up. -/
lemma totalRamUsage_exec {ops : List ExecOp} (h : exec (rl, ctx) ops = .ok (rl', ctx')) :
    ctx'.totalRamUsage = ctx.totalRamUsage + (ops.map ramDelta).sum := by
  unfold exec at h
  induction ops generalizing rl ctx with
  | nil =>
    rw [foldlM_nil, pure_eq_ok, Prod.mk.injEq] at h
    rw [h.2, map_nil, sum_nil, add_zero]
  | cons op ops ih =>
    rw [foldlM_cons, bind_eq_ok] at h
    obtain ⟨⟨rl1, ctx1⟩, hop, hops⟩ := h
    rw [ih hops, totalRamUsage_execOp hop, map_cons, sum_cons, add_assoc]

/-- `init` brings accumulators to the slot and leaves RAM alone. -/
lemma ramUsage_of_init {onlyBillFirstAuthorizer : Bool} {initialNetUsage : ℕ}
    (h : init node timeSlot rl trx false onlyBillFirstAuthorizer initialNetUsage = .ok (rl', ctx))
    (a : Name) : rl'.ramUsage a = rl.ramUsage a := by
  obtain ⟨-, -, -, -, hdecay, hsame, -⟩ := init_eq_ok h
  unfold ResourceLimitsManager.ramUsage
  by_cases ha : a ∈ ctx.billToAccounts
  · obtain ⟨u, u', hu, hu', hd⟩ := hdecay a ha
    rw [hu, hu', map_some, map_some, hd.ram]
  · rw [hsame a ha]

/-- Running the actions leaves RAM alone: it is only added up. -/
lemma ExecFrame.ramUsage (h : ExecFrame rl rl' ctx ctx') (a : Name) :
    rl'.ramUsage a = rl.ramUsage a := by
  unfold ResourceLimitsManager.ramUsage
  cases hu : rl.usage.find? a with
  | some u => rw [h.existing a u hu]
  | none =>
    cases hu' : rl'.usage.find? a with
    | none => rfl
    | some u' =>
      rw [(h.created a u' hu hu').1]
      rfl

variable {t : TransactionInput}

lemma paid_of_payerOf {p : Name} (h : pushTransaction node timeSlot rl t = .ok (rl', ctx))
    (hp : payerOf node timeSlot rl t = .ok p) :
    ∃ rl1 ctx1 rl2, init node timeSlot rl t.trx false t.onlyBillFirstAuthorizer t.initialNetUsage =
        .ok (rl1, ctx1) ∧
      ExecFrame rl1 rl2 ctx1 ctx ∧ ctx.totalRamUsage = (t.ops.map ramDelta).sum ∧
      Paid timeSlot rl2 ctx p rl' := by
  obtain ⟨rl1, ctx1, rl2, ctx2, hinit, hexec, hctx, hro, hfinal⟩ := pushTransaction_stages h
  obtain ⟨-, limit, payer, hlimit, hchoose, hpay⟩ := finalize_eq_ok hro hfinal
  -- both runs pass the same states
  simp only [payerOf, bind_eq_ok] at hp
  obtain ⟨s1, hinit', s2, hexec', limit', hlimit', hchoose'⟩ := hp
  obtain rfl := ok.inj (hinit.symm.trans hinit')
  obtain rfl := ok.inj (hexec.symm.trans hexec')
  rw [← hctx] at hlimit' hchoose'
  obtain rfl := ok.inj (hlimit.symm.trans hlimit')
  obtain rfl := ok.inj (hchoose.symm.trans hchoose')
  have hframe : ExecFrame rl1 rl2 ctx1 ctx :=
    (ExecFrame.exec hexec).trans (.of_usage_eq rfl rfl rfl (hctx ▸ rfl) (hctx ▸ rfl) (hctx ▸ rfl))
  have htotal : ctx.totalRamUsage = (t.ops.map ramDelta).sum := by
    have hstart : ctx1.totalRamUsage = 0 := (init_eq_ok hinit).2.2.2.2.2.2.2
    have hend := totalRamUsage_exec hexec
    rw [hstart, zero_add] at hend
    rw [hctx, ← hend]
  exact ⟨rl1, ctx1, rl2, hinit, hframe, htotal, pay_eq_ok hpay⟩

lemma ramUsage_of_pushTransaction {p : Name}
    (h : pushTransaction node timeSlot rl t = .ok (rl', ctx))
    (hp : payerOf node timeSlot rl t = .ok p) :
    (rl'.ramUsage p : ℤ) = rl.ramUsage p + (t.ops.map ramDelta).sum ∧
      ∀ a, a ≠ p → rl'.ramUsage a = rl.ramUsage a := by
  obtain ⟨rl1, ctx1, rl2, hinit, hframe, htotal, hpaid⟩ := paid_of_payerOf h hp
  have hbefore : ∀ a, rl2.ramUsage a = rl.ramUsage a := fun a =>
    (hframe.ramUsage a).trans (ramUsage_of_init hinit a)
  constructor
  · obtain ⟨u, u', hu, hu', -, -, hram⟩ := hpaid.charged
    have hold : rl2.ramUsage p = u.ramUsage := by
      rw [ResourceLimitsManager.ramUsage, hu]
      rfl
    have hnew : rl'.ramUsage p = u'.ramUsage := by
      rw [ResourceLimitsManager.ramUsage, hu']
      rfl
    rw [hnew, hram, ← hbefore p, hold, htotal]
  · intro a ha
    rw [← hbefore a, ResourceLimitsManager.ramUsage, hpaid.others a ha,
      ResourceLimitsManager.ramUsage]

end TransactionContext

/-! ### Freeing RAM -/

namespace TransactionContext

variable {node : NodeSettings} {timeSlot : ℕ} {rl rl' : ResourceLimitsManager}
  {ctx ctx' : TransactionContext}

/-- The operation takes no RAM and changes no limits. -/
def ExecOp.Frees : ExecOp → Prop
  | .addRamUsage _ ramDelta => ramDelta ≤ 0
  | .addNetUsage _ => True
  | _ => False

lemma exec_of_frees {ops : List ExecOp} (hops : ∀ op ∈ ops, op.Frees)
    (h : exec (rl, ctx) ops = .ok (rl', ctx')) :
    rl' = rl ∧ ctx'.validateRamUsage = ctx.validateRamUsage ∧ ctx'.isReadOnly = ctx.isReadOnly ∧
      (ops.map ramDelta).sum ≤ 0 := by
  unfold exec at h
  induction ops generalizing rl ctx with
  | nil =>
    cases h
    exact ⟨rfl, rfl, rfl, le_rfl⟩
  | cons op ops ih =>
    rw [foldlM_cons, bind_eq_ok] at h
    obtain ⟨⟨rl1, ctx1⟩, hop, hrest⟩ := h
    obtain ⟨hrl, hset, hro, hsum⟩ := ih (fun op' h => hops op' (mem_cons_of_mem _ h)) hrest
    have hfrees := hops op mem_cons_self
    have hone : rl1 = rl ∧ ctx1.validateRamUsage = ctx.validateRamUsage ∧
        ctx1.isReadOnly = ctx.isReadOnly ∧ op.ramDelta ≤ 0 := by
      cases op with
      | addRamUsage =>
        cases hop
        exact ⟨rfl, if_neg (not_lt.mpr hfrees), rfl, hfrees⟩
      | addNetUsage u =>
        cases hop
        exact ⟨rfl, rfl, rfl, le_rfl⟩
      | setResourceLimits | newaccount | reducepolicy => exact absurd hfrees id
    refine ⟨hrl.trans hone.1, hset.trans hone.2.1, hro.trans hone.2.2.1, ?_⟩
    rw [map_cons, sum_cons]
    exact add_nonpos hone.2.2.2 hsum

variable {l : Roa.AccountLimits} {p : Name} {u : ResourceUsageObject} {limit : ℕ}

/-- An account that is within its limit can always free RAM that it uses. -/
lemma addPendingRamUsage_of_le
    {ramDelta : ℤ} (hu : rl.usage.find? p = some u) (hl : rl.currentLimits p = some l)
    (hq : rl.WithinQuota p) (hdelta : ramDelta ≤ 0) (hge : 0 ≤ u.ramUsage + ramDelta) :
    ∃ rl', rl.addPendingRamUsage p ramDelta = .ok rl' ∧ rl'.verifyAccountRamUsage p = .ok () := by
  have hle := hq l u hl hu
  unfold addPendingRamUsage
  split_ifs with hzero
  · exact ⟨rl, rfl, verifyAccountRamUsage_eq_ok.mpr ⟨l, u, hl, hu, hle⟩⟩
  · have hget : rl.getUsage p = .ok u := getUsage_eq_ok.mpr hu
    have hover : ramDelta ≤ 0 ∨ ramDelta ≤ 2 ^ 64 - 1 - (u.ramUsage : ℤ) := .inl hdelta
    have hunder : 0 ≤ ramDelta ∨ -ramDelta ≤ u.ramUsage := .inr (by omega)
    refine ⟨{ rl with usage := rl.usage.upsert (u.addRam ramDelta) }, ?_, ?_⟩
    · simp only [bind_eq_ok, sysAssert_eq_ok, pure_eq_ok]
      exact ⟨u, hget, (), hover, (), hunder, rfl⟩
    · refine verifyAccountRamUsage_eq_ok.mpr ⟨l, u.addRam ramDelta, hl, ?_, fun hlimit => ?_⟩
      · have howner : u.owner = p := owner_of_find? hu
        rw [rl.find?_upsert_usage]
        exact if_pos howner.symm
      · have := hle hlimit
        simp only [ResourceUsageObject.addRam]
        omega

lemma exists_of_canPay {a : Name} {cpuUsage netUsage : ℕ} {ramUsage : ℤ} {can : Bool}
    (h : canPay rl a limit cpuUsage netUsage ramUsage = .ok can) :
    ∃ l u, rl.currentLimits a = some l ∧ rl.usage.find? a = some u := by
  simp only [canPay, getAccountRamUsage, bind_eq_ok, getAccountLimits_eq_ok, getUsage_eq_ok] at h
  obtain ⟨-, -, -, -, l, hl, -, ⟨u, hu, -⟩, -⟩ := h
  exact ⟨l, u, hl, hu⟩

lemma exists_of_choosePayer (h : choosePayer rl ctx limit = .ok p) :
    ∃ l u, rl.currentLimits p = some l ∧ rl.usage.find? p = some u := by
  simp only [choosePayer, bind_eq_ok] at h
  obtain ⟨contractCanPay, hcontract, h⟩ := h
  split_ifs at h
  · rw [pure_eq_ok] at h
    exact h ▸ exists_of_canPay hcontract
  · simp only [bind_eq_ok, pure_eq_ok] at h
    obtain ⟨-, -, userCanPay, huser, -, -, rfl⟩ := h
    exact exists_of_canPay huser

/-- Freeing RAM passes the RAM part of `canPay`, within the limit. -/
lemma affordsRam_of_frees {a : Name} {ramDelta : ℤ} (hl : rl.currentLimits a = some l)
    (hu : rl.usage.find? a = some u) (hq : rl.WithinQuota a) (hlimit : -1 ≤ l.ramBytes)
    (hdelta : ramDelta ≤ 0) : l.ramBytes = -1 ∨ ramDelta ≤ l.ramBytes - Roa.toI64 u.ramUsage := by
  by_cases hge : 0 ≤ l.ramBytes
  · have hle := hq l u hl hu hge
    unfold Roa.toI64
    split_ifs <;> right <;> omega
  · left
    omega

/-- `finalize` passes all its RAM checks, so that only CPU and NET are left. -/
lemma finalize_of_frees (hro : ctx.isReadOnly = false)
    (hset : ctx.validateRamUsage = .empty) (hlimit : greylistLimit node rl ctx = .ok limit)
    (hpayer : choosePayer rl ctx limit = .ok p) (hq : rl.WithinQuota p)
    (hdelta : ctx.totalRamUsage ≤ 0) (hge : 0 ≤ rl.ramUsage p + ctx.totalRamUsage) :
    ∃ rl' : ResourceLimitsManager, finalize node timeSlot rl ctx =
      rl'.addTransactionUsage (FlatSet.empty.insert p) ctx.billedCpuTimeUs ctx.roundedNetUsage
        timeSlot := by
  obtain ⟨l, u, hl, hu⟩ := exists_of_choosePayer hpayer
  have husage : rl.ramUsage p = u.ramUsage := by
    rw [ResourceLimitsManager.ramUsage, hu]
    rfl
  rw [husage] at hge
  obtain ⟨rl', hadd, hverify⟩ := addPendingRamUsage_of_le hu hl hq hdelta hge
  refine ⟨rl', ?_⟩
  have hchecks : ctx.validateRamUsage.toList.forM rl.verifyAccountRamUsage = .ok () := by
    rw [hset]
    rfl
  simp [finalize, pay, hro, hchecks, hlimit, hpayer, hadd, hverify, ok_bind]

end TransactionContext

/-! ### A payer that is known before -/

/-- The account has no limits for RAM, NET and CPU. -/
def ResourceLimitsManager.Unlimited (rl : ResourceLimitsManager) (a : Name) : Prop :=
  ∃ l ∈ rl.currentLimits a, l.ramBytes = -1 ∧ l.netWeight < 0 ∧ l.cpuWeight < 0

instance (rl : ResourceLimitsManager) (a : Name) : Decidable (rl.Unlimited a) :=
  inferInstanceAs (Decidable (∃ l ∈ rl.currentLimits a, _))

namespace TransactionContext

variable {node : NodeSettings} {timeSlot : ℕ} {rl rl' : ResourceLimitsManager}
  {ctx ctx' : TransactionContext} {a : Name}

lemma available_of_weight {b : Bandwidth} {limit : ℕ} {r : AccountResourceLimit × Bool}
    (hw : b.weight < 0) (h : b.limitEx limit = .ok r) : r.1.available < 0 := by
  rw [Bandwidth.limitEx, if_pos (.inl hw), pure_eq_ok] at h
  rw [← h]
  decide

/-- Without limits, an account can pay for anything. -/
lemma canPay_of_unlimited {limit cpuUsage netUsage : ℕ} {ramUsage : ℤ} {can : Bool}
    (hl : rl.Unlimited a) (h : canPay rl a limit cpuUsage netUsage ramUsage = .ok can) :
    can = true := by
  obtain ⟨l, hl, hram, hnet, hcpu⟩ := hl
  simp only [canPay, getAccountCpuLimitEx, getAccountNetLimitEx, cpuBandwidth, netBandwidth,
    bind_eq_ok, pure_eq_ok, getAccountLimits_eq_ok] at h
  obtain ⟨cpu, ⟨b1, ⟨u1, -, l1, hl1, rfl⟩, hcpuEx⟩, net, ⟨b2, ⟨u2, -, l2, hl2, rfl⟩, hnetEx⟩, l3,
    hl3, used, -, rfl⟩ := h
  obtain rfl : l = l1 := some.inj (hl.symm.trans hl1)
  obtain rfl : l = l2 := some.inj (hl.symm.trans hl2)
  obtain rfl : l = l3 := some.inj (hl.symm.trans hl3)
  have hcpuAvailable := available_of_weight hcpu hcpuEx
  have hnetAvailable := available_of_weight hnet hnetEx
  exact decide_eq_true ⟨.inl hcpuAvailable, .inl hnetAvailable, .inl hram⟩

lemma currentLimits_execOp {op : ExecOp} (hop : a ∉ op.limited)
    (h : execOp (rl, ctx) op = .ok (rl', ctx')) : rl'.currentLimits a = rl.currentLimits a := by
  cases op with
  | addRamUsage | addNetUsage =>
    cases h
    rfl
  | setResourceLimits account =>
    simp only [execOp, setResourceLimits, bind_eq_ok, pure_eq_ok, Prod.mk.injEq] at h
    obtain ⟨-, -, -, -, -, -, -, -, ⟨rl1, decreased⟩, hset, rfl, -⟩ := h
    obtain ⟨old, -, -, -, -, -, hlimits⟩ := setAccountLimits_eq_ok hset
    have hne : a ≠ account := fun heq => hop (heq ▸ rfl)
    rw [hlimits, if_neg hne]
  | newaccount name =>
    simp only [execOp, newaccount, bind_eq_ok, pure_eq_ok, Prod.mk.injEq] at h
    obtain ⟨-, -, -, -, rl1, hinit, rl2, hlimits, rfl, -⟩ := h
    have hne : a ≠ name := fun heq => hop (heq ▸ rfl)
    obtain ⟨-, -, -, -, hothers⟩ := initializeAccount_eq_ok hinit
    unfold initialLimits at hlimits
    split_ifs at hlimits
    · rw [pure_eq_ok] at hlimits
      rw [← hlimits, hothers a hne]
    · simp only [bind_eq_ok, pure_eq_ok] at hlimits
      obtain ⟨⟨rl3, decreased⟩, hset, rfl⟩ := hlimits
      obtain ⟨old, -, -, -, -, -, hlimits⟩ := setAccountLimits_eq_ok hset
      rw [hlimits, if_neg hne, hothers a hne]
  | reducepolicy owner =>
    simp only [execOp, bind_eq_ok, pure_eq_ok, Prod.mk.injEq] at h
    obtain ⟨rl1, hreduce, rfl, -⟩ := h
    obtain ⟨old, new, u, divisible, reclaimed, -, -, -, -, -, -, -, hlimits⟩ :=
      reducepolicy_eq_ok hreduce
    have hne : a ≠ owner := fun heq => hop (heq ▸ rfl)
    rw [hlimits, if_neg hne]

lemma currentLimits_exec {ops : List ExecOp} (hops : ∀ op ∈ ops, a ∉ op.limited)
    (h : exec (rl, ctx) ops = .ok (rl', ctx')) : rl'.currentLimits a = rl.currentLimits a := by
  unfold exec at h
  induction ops generalizing rl ctx with
  | nil =>
    cases h
    rfl
  | cons op ops ih =>
    rw [foldlM_cons, bind_eq_ok] at h
    obtain ⟨⟨rl1, ctx1⟩, hop, hrest⟩ := h
    rw [forall_mem_cons] at hops
    rw [ih hops.2 hrest, currentLimits_execOp hops.1 hop]

/-- The account of the first action. -/
def contractOf (trx : Transaction) : Name := (trx.actions.head?.map (·.account)).getD Name.empty

variable {t : TransactionInput} {p : Name}

/-- **The account of the first action pays**, if nobody else is billed, or if it has no limits and
the transaction sets none for it. -/
lemma payer_eq_contractAccount (h : payerOf node timeSlot rl t = .ok p)
    (hbound : (∀ a ∈ billedAccounts t.trx t.onlyBillFirstAuthorizer, a = contractOf t.trx) ∨
      rl.Unlimited (contractOf t.trx) ∧ ∀ op ∈ t.ops, contractOf t.trx ∉ op.limited) :
    p = contractOf t.trx := by
  simp only [payerOf, bind_eq_ok] at h
  obtain ⟨⟨rl1, ctx1⟩, hinit, ⟨rl2, ctx2⟩, hexec, limit, -, hchoose⟩ := h
  obtain ⟨htrx, -, hbilled, hrl1, -⟩ := init_eq_ok hinit
  have hframe := ExecFrame.exec hexec
  have hcontract : ctx2.contractAccount = contractOf t.trx := by
    rw [contractAccount, hframe.trx, htrx, contractOf]
  have hbilled2 : ctx2.billToAccounts = billedAccounts t.trx t.onlyBillFirstAuthorizer :=
    hframe.billToAccounts.trans hbilled
  obtain ⟨can, hcan, ⟨-, hp⟩ | ⟨hcannot, hp, hne⟩⟩ := choosePayer_eq_ok hchoose
  · exact hp.trans hcontract
  -- the contract cannot pay: there is another billed account, or the contract has limits
  · exfalso
    rcases hbound with honly | ⟨hunlimited, hops⟩
    · rcases mayPay_userAccount { ctx2 with billedCpuTimeUs := t.billedCpuTimeUs } with
        huser | ⟨hmem, -, -⟩
      · exact hne huser
      · exact hne ((honly _ (hbilled2 ▸ hmem)).trans hcontract.symm)
    · have hlimits :
          rl2.currentLimits (contractOf t.trx) = rl.currentLimits (contractOf t.trx) := by
        rw [currentLimits_exec hops hexec, hrl1]
        rfl
      have hunlimited2 : rl2.Unlimited ctx2.contractAccount := by
        rw [hcontract, Unlimited, hlimits]
        exact hunlimited
      rw [canPay_of_unlimited hunlimited2 hcan] at hcannot
      cases hcannot

end TransactionContext

namespace BilledObject

variable {home : ObjectKey → Name} {o : BilledObject} {p : Name}

lemma uncharged_charge (o : BilledObject) (p : Name) : (o.charge p).uncharged = 0 := by
  unfold charge
  split_ifs with h
  · exact h
  · simp only [uncharged, map_append, map_cons, map_nil, List.sum_append, sum_cons, sum_nil]
    ring

lemma Homed.charge (h : o.Homed home) (hp : home o.key = p ∨ o.uncharged = 0) :
    (o.charge p).Homed home := by
  unfold BilledObject.charge
  split_ifs with hzero
  · exact h
  · refine ⟨fun charge hcharge => ?_, h.payer⟩
    rcases mem_append.mp hcharge with hcharge | hcharge
    · exact h.charges charge hcharge
    · rw [mem_singleton.mp hcharge]
      exact (hp.resolve_right hzero).symm

/-- The home has been charged for the whole size. -/
lemma Homed.chargedTo (h : o.Homed home) (hzero : o.uncharged = 0) (a : Name) :
    o.chargedTo a = if home o.key = a then (o.size : ℤ) else 0 := by
  unfold BilledObject.chargedTo
  split_ifs with ha
  · have hall : (o.charges.filter fun charge => decide (charge.1 = a)) = o.charges :=
      filter_eq_self.mpr fun charge hcharge => decide_eq_true ((h.charges charge hcharge).trans ha)
    rw [hall]
    exact (sub_eq_zero.mp hzero).symm
  · have hnone : (o.charges.filter fun charge => decide (charge.1 = a)) = [] :=
      filter_eq_nil_iff.mpr fun charge hcharge heq =>
        ha ((h.charges charge hcharge).symm.trans (of_decide_eq_true heq))
    rw [hnone]
    rfl

end BilledObject

/-- What an account has been charged for the objects. -/
def Objects.chargedSize (objects : Objects) (a : Name) : ℤ := objects.sumBy (·.chargedTo a)

namespace RamWorld

variable {w w' w₀ : RamWorld} {objects : Objects} {p : Name} {home : ObjectKey → Name}

/-! ### The ledger -/

/-- Every account uses what it has been charged for the live objects. -/
structure Balanced (w : RamWorld) : Prop where
  /-- Every object has been charged for in full. -/
  settled : ∀ o ∈ w.objects, o.uncharged = 0
  ledger : ∀ a, w.objects.chargedSize a = w.rl.ramUsage a

/-- Only the home of an object has been charged for it. -/
def Homed (home : ObjectKey → Name) (w : RamWorld) : Prop := ∀ o ∈ w.objects, o.Homed home

lemma chargedSize_eq_sizeAt (hh : ∀ o ∈ objects, o.Homed home)
    (hs : ∀ o ∈ objects, o.uncharged = 0) (a : Name) :
    objects.chargedSize a = objects.sizeAt home a := by
  unfold chargedSize sizeAt sumBy
  congr 1
  exact map_congr_left fun o ho => (hh o ho).chargedTo (hs o ho) a

lemma settled_settle : ∀ o ∈ settle objects p, o.uncharged = 0 := by
  intro o ho
  obtain ⟨o', -, rfl⟩ := mem_mapRows.mp ho
  exact o'.uncharged_charge p

lemma sizeAt_settle (a : Name) : (settle objects p).sizeAt home a = objects.sizeAt home a := by
  unfold sizeAt settle
  rw [sumBy_mapRows]
  congr 1
  funext o
  unfold BilledObject.charge
  split_ifs <;> rfl

lemma sizeAt_nonneg (a : Name) : 0 ≤ objects.sizeAt home a := by
  refine sum_nonneg fun x hx => ?_
  obtain ⟨o, -, rfl⟩ := List.mem_map.mp hx
  split_ifs
  · exact Int.natCast_nonneg _
  · exact le_rfl

variable {t : RamTransaction}

/-- A transaction touches only objects whose home is the account of its first action, and that
account is bound to pay: nobody else is billed, or the account has no limits and the transaction
sets none for it.  Who pays for a transaction that touches no objects does not matter. -/
def KeepsHome (home : ObjectKey → Name) (w : RamWorld) : Event → Prop
  | .transaction t =>
    (∀ call ∈ t.calls, call.keys = []) ∨
      (∀ call ∈ t.calls, call.AtHome home (contractOf t.trx)) ∧
        ((∀ a ∈ billedAccounts t.trx t.onlyBillFirstAuthorizer, a = contractOf t.trx) ∨
          w.rl.Unlimited (contractOf t.trx) ∧ ∀ call ∈ t.calls, contractOf t.trx ∉ call.limited)
  | _ => True

instance (home : ObjectKey → Name) (w : RamWorld) (e : Event) : Decidable (w.KeepsHome home e) := by
  cases e <;> unfold KeepsHome <;> infer_instance

/-- A transaction that keeps to a home asks for what it does to the objects at home at its payer. -/
lemma moves_of_outcome {e : RamExecution} (hk : w.KeepsHome home (.transaction t))
    (h : w.outcome t = .ok (e, p)) :
    RamExecution.Moves home p (fun _ => True) 0 ⟨w.objects, [], []⟩ e := by
  simp only [outcome, bind_eq_ok, pure_eq_ok, Prod.mk.injEq] at h
  obtain ⟨e', hcalls, p', hpayer, rfl, rfl⟩ := h
  rcases hk with hnothing | ⟨hhome, hbound⟩
  · have hhome : ∀ call ∈ t.calls, call.AtHome home p' := fun call hcall =>
      RamExecution.Call.atHome_of_keys (hnothing call hcall)
    exact RamExecution.moves_calls hhome (fun _ _ _ _ => trivial) hcalls
  · have hmoves := RamExecution.moves_calls (L := fun a => ∃ call ∈ t.calls, a ∈ call.limited)
      hhome (fun call hcall a ha => ⟨call, hcall, ha⟩) hcalls
    have hp : p' = contractOf t.trx := by
      refine payer_eq_contractAccount hpayer (hbound.imp_right fun hfree => ?_)
      obtain ⟨hunlimited, hcallsL⟩ := hfree
      refine ⟨hunlimited, fun op hop hlimited => ?_⟩
      rcases hmoves.limited op hop with hop | hop
      · exact not_mem_nil hop
      · obtain ⟨call, hcall, ha⟩ := hop _ hlimited
        exact hcallsL call hcall ha
    rw [hp]
    exact RamExecution.moves_calls hhome (fun _ _ _ _ => trivial) hcalls

/-- What a transaction asks for is what it does to the objects at home at its payer. -/
lemma sizeAt_of_outcome {e : RamExecution} (hk : w.KeepsHome home (.transaction t))
    (h : w.outcome t = .ok (e, p)) :
    e.objects.sizeAt home p = w.objects.sizeAt home p + (e.ops.map ramDelta).sum ∧
      ∀ a, a ≠ p → e.objects.sizeAt home a = w.objects.sizeAt home a := by
  have hmoves := moves_of_outcome hk h
  constructor
  · have hbalance := hmoves.balance
    simp only [RamExecution.owed, map_nil, sum_nil] at hbalance
    omega
  · intro a ha
    refine sumBy_eq_of_mem_iff fun o ho => hmoves.others o fun hp => ho ?_
    exact if_neg fun heq => ha (heq.symm.trans hp)

section

variable (hb : w.Balanced) (hh : w.Homed home)
include hb hh

lemma Balanced.transaction (hk : w.KeepsHome home (.transaction t))
    (h : w.transaction t = .ok w') : w'.Balanced ∧ w'.Homed home := by
  simp only [RamWorld.transaction, bind_eq_ok, pure_eq_ok] at h
  obtain ⟨⟨e, p⟩, houtcome, ⟨rl', ctx⟩, hpush, rfl⟩ := h
  have hmoves := moves_of_outcome hk houtcome
  obtain ⟨hpayer, hothers⟩ := sizeAt_of_outcome hk houtcome
  simp only [outcome, bind_eq_ok, pure_eq_ok, Prod.mk.injEq] at houtcome
  obtain ⟨e', -, p', hpayerOf, rfl, rfl⟩ := houtcome
  obtain ⟨hpaid, hunpaid⟩ := ramUsage_of_pushTransaction hpush hpayerOf
  have hhomed : ∀ o ∈ settle e'.objects p', o.Homed home := by
    intro o ho
    obtain ⟨o', ho', rfl⟩ := mem_mapRows.mp ho
    refine (hmoves.homed hh o' ho').charge ?_
    by_cases hp : home o'.key = p'
    · exact .inl hp
    · exact .inr (hb.settled o' ((hmoves.others o' hp).mp ho'))
  refine ⟨⟨settled_settle, fun a => ?_⟩, hhomed⟩
  have hledger : w.objects.sizeAt home a = w.rl.ramUsage a :=
    (chargedSize_eq_sizeAt hh hb.settled a).symm.trans (hb.ledger a)
  show (settle e'.objects p').chargedSize a = rl'.ramUsage a
  rw [chargedSize_eq_sizeAt hhomed settled_settle, sizeAt_settle]
  by_cases ha : a = p'
  · subst ha
    rw [hpayer, hledger, hpaid]
    rfl
  · rw [hothers a ha, hledger, hunpaid a ha]

lemma Balanced.removeScheduledTransaction {sender : Name} {senderId : ℕ}
    (h : w.removeScheduledTransaction sender senderId = .ok w') :
    w'.Balanced ∧ w'.Homed home := by
  simp only [RamWorld.removeScheduledTransaction, bind_eq_ok, require_eq_ok, pure_eq_ok] at h
  obtain ⟨o, ho, rl', hadd, rfl⟩ := h
  have hkey : o.key = .deferred sender senderId := key_eq_of_find? ho
  have hpayer : o.payer = home o.key := (hh o (mem_of_find? ho)).payer sender senderId hkey
  obtain ⟨-, -, -, -, hnonneg, husage⟩ := addPendingRamUsage_eq_ok hadd
  have hsettled : ∀ o' ∈ w.objects.erase o.key, o'.uncharged = 0 := fun o' ho' =>
    hb.settled o' (mem_erase.mp ho').1
  have hhomed : ∀ o' ∈ w.objects.erase o.key, o'.Homed home := fun o' ho' =>
    hh o' (mem_erase.mp ho').1
  refine ⟨⟨hsettled, fun a => ?_⟩, hhomed⟩
  have hsum := sumBy_erase (hkey ▸ ho : w.objects.find? o.key = some o)
    fun o => if home o.key = a then (o.size : ℤ) else 0
  have hledger : w.objects.sizeAt home a = w.rl.ramUsage a :=
    (chargedSize_eq_sizeAt hh hb.settled a).symm.trans (hb.ledger a)
  show Objects.chargedSize (w.objects.erase o.key) a = rl'.ramUsage a
  rw [chargedSize_eq_sizeAt hhomed hsettled]
  simp only [sizeAt, ResourceLimitsManager.ramUsage] at hledger ⊢
  rw [← hpayer] at hsum
  by_cases ha : a = o.payer
  · subst ha
    rw [if_pos rfl, hledger] at hsum
    rw [husage, if_pos rfl]
    cases hu : w.rl.usage.find? o.payer with
    | some u =>
      have hge := hnonneg u hu
      simp only [hu, map_some, getD_some, ResourceUsageObject.addRam] at hsum ⊢
      omega
    | none =>
      simp only [hu, map_none, getD_none] at hsum ⊢
      have hge : 0 ≤ Objects.sizeAt home (w.objects.erase o.key) o.payer := sizeAt_nonneg _
      unfold sizeAt at hge
      omega
  · rw [if_neg (Ne.symm ha), add_zero] at hsum
    rw [hsum, hledger, husage, if_neg ha]

/-- One event keeps the ledger balanced, if it keeps to the homes. -/
lemma Balanced.step {e : Event} (hk : w.KeepsHome home e) (h : Step w e w') :
    w'.Balanced ∧ w'.Homed home := by
  cases e with
  | transaction t => exact hb.transaction hh hk h
  | removeScheduledTransaction => exact hb.removeScheduledTransaction hh h
  | finalizeBlock =>
    simp only [Step, apply, bind_eq_ok, pure_eq_ok] at h
    obtain ⟨rl', hfinal, rfl⟩ := h
    obtain ⟨husage, -⟩ := finalizeBlock_eq_ok hfinal
    refine ⟨⟨hb.settled, fun a => ?_⟩, hh⟩
    show w.objects.chargedSize a = rl'.ramUsage a
    rw [hb.ledger]
    unfold ResourceLimitsManager.ramUsage
    rw [husage]

end

lemma step_of_apply {e : Event} (h : (w.apply e).toOption = some w') : Step w e w' :=
  eq_ok_of_toOption h

/-! ### What the ledger is good for -/

/-- Whoever is credited for an object is the account that had been charged for it: the payer of the
transaction that changes or removes it, and the recorded payer of a retired deferred transaction. -/
def CreditsCharged (w : RamWorld) : Event → Prop
  | .transaction t => ∀ e p, w.outcome t = .ok (e, p) → ∀ o ∈ w.objects, o ∉ e.objects →
      ∀ charge ∈ o.charges, charge.1 = p
  | .removeScheduledTransaction sender senderId =>
    ∀ o, w.objects.find? (.deferred sender senderId) = some o →
      ∀ charge ∈ o.charges, charge.1 = o.payer
  | .finalizeBlock _ _ _ => True

lemma Homed.creditsCharged {e : Event} (hh : w.Homed home) (hk : w.KeepsHome home e) :
    w.CreditsCharged e := by
  cases e with
  | transaction t =>
    intro e p houtcome o ho hgone charge hcharge
    have hmoves := moves_of_outcome hk houtcome
    rw [(hh o ho).charges charge hcharge]
    by_contra hne
    exact hgone ((hmoves.others o hne).mpr ho)
  | removeScheduledTransaction sender senderId =>
    intro o ho charge hcharge
    have hhome := hh o (mem_of_find? ho)
    rw [hhome.charges charge hcharge, hhome.payer sender senderId (key_eq_of_find? ho)]
  | finalizeBlock => trivial

/-- If the transaction only frees RAM and its payer is within its limit, then none of the RAM checks
fails: `finalize` ends with the charge for CPU and NET, and the part of `canPay` about RAM holds for
every account within a valid limit. -/
def FreesWithoutFailing (w : RamWorld) (t : RamTransaction) : Prop :=
  ∀ e p rl₁ ctx₁ rl₂ ctx₂, w.outcome t = .ok (e, p) → (∀ op ∈ e.ops, op.Frees) →
    init t.node t.timeSlot w.rl t.trx false t.onlyBillFirstAuthorizer
      t.initialNetUsage = .ok (rl₁, ctx₁) →
    TransactionContext.exec (rl₁, ctx₁) e.ops = .ok (rl₂, ctx₂) → rl₂.WithinQuota p →
    (∃ rl₃ : ResourceLimitsManager, TransactionContext.finalize t.node t.timeSlot rl₂
        { ctx₂ with billedCpuTimeUs := t.billedCpuTimeUs } =
      rl₃.addTransactionUsage (FlatSet.empty.insert p) t.billedCpuTimeUs ctx₂.roundedNetUsage
        t.timeSlot) ∧
      ∀ a l u, rl₂.currentLimits a = some l → rl₂.usage.find? a = some u → rl₂.WithinQuota a →
        -1 ≤ l.ramBytes → l.ramBytes = -1 ∨ ctx₂.totalRamUsage ≤ l.ramBytes - Roa.toI64 u.ramUsage

lemma Balanced.freesWithoutFailing (hb : w.Balanced) (hh : w.Homed home)
    (hk : w.KeepsHome home (.transaction t)) : w.FreesWithoutFailing t := by
  intro e p rl1 ctx1 rl2 ctx2 houtcome hfrees hinit hexec hq
  obtain ⟨hobjects, -⟩ := sizeAt_of_outcome hk houtcome
  simp only [outcome, bind_eq_ok, pure_eq_ok, Prod.mk.injEq] at houtcome
  obtain ⟨e', -, p', hpayer, rfl, rfl⟩ := houtcome
  obtain ⟨hro, hset, htotal0⟩ : ctx1.isReadOnly = false ∧ ctx1.validateRamUsage = .empty ∧
      ctx1.totalRamUsage = 0 := by
    obtain ⟨-, hro, -, -, -, -, hset, htotal⟩ := init_eq_ok hinit
    exact ⟨hro, hset, htotal⟩
  obtain ⟨rfl, hset', hro', hsum⟩ := exec_of_frees hfrees hexec
  have htotal : ctx2.totalRamUsage = (e'.ops.map ExecOp.ramDelta).sum := by
    rw [totalRamUsage_exec hexec, htotal0, zero_add]
  refine ⟨?_, fun a l u hl hu hqa hlimit => ?_⟩
  -- the payer has been charged for everything that is freed, so it uses at least as much
  · have hge : (0 : ℤ) ≤ rl2.ramUsage p' + ctx2.totalRamUsage := by
      have hnonneg : 0 ≤ e'.objects.sizeAt home p' := sizeAt_nonneg p'
      rwa [ramUsage_of_init hinit, ← hb.ledger, chargedSize_eq_sizeAt hh hb.settled, htotal,
        ← hobjects]
    simp only [payerOf, bind_eq_ok] at hpayer
    obtain ⟨s1, hinit', s2, hexec', limit, hlimit, hchoose⟩ := hpayer
    obtain rfl := Except.ok.inj (hinit.symm.trans hinit')
    obtain rfl := Except.ok.inj (hexec.symm.trans hexec')
    have hdelta : ctx2.totalRamUsage ≤ 0 := htotal ▸ hsum
    exact finalize_of_frees (hro'.trans hro) (hset'.trans hset) hlimit hchoose hq hdelta hge
  · exact affordsRam_of_frees hl hu hqa hlimit (htotal ▸ hsum)

/-- **The RAM ledger.**  Let every object have a home.  In every history whose transactions keep to
the homes, the usage of every account is what it has been charged for the live objects.  In every
state that is reached, an event that keeps to the homes credits whoever had been charged, and a
transaction that only frees RAM passes all RAM checks. -/
theorem balanced_of_run {tr : List (Transition RamWorld Event)} (hb : w₀.Balanced)
    (hh : w₀.Homed home) (hr : Run Step w₀ tr w)
    (hk : ∀ t ∈ tr, t.pre.KeepsHome home t.event) :
    w.Balanced ∧ (∀ e, w.KeepsHome home e → w.CreditsCharged e) ∧
      ∀ t, w.KeepsHome home (.transaction t) → w.FreesWithoutFailing t := by
  obtain ⟨hbalanced, hhomed⟩ : w.Balanced ∧ w.Homed home :=
    (hr.forall_transition (P := fun w => w.Balanced ∧ w.Homed home)
      (C := fun w e _ => w.KeepsHome home e) ⟨hb, hh⟩
      (fun _ _ _ h hk hstep => h.1.step h.2 hk hstep) hk).1
  exact ⟨hbalanced, fun e he => hhomed.creditsCharged he,
    fun t ht => hbalanced.freesWithoutFailing hhomed ht⟩

/-! ### A row that the user pays for -/

open TransactionContext (demoContract demoAuthorizer demoResources demoInput demoValidator)

/-- Two accounts and no objects. -/
def demoWorld : RamWorld := ⟨demoResources 0, Table.empty⟩

/-- The authorizer has the contract make some calls. -/
def demoTransaction (timeSlot : ℕ) (calls : List RamExecution.Call) : RamTransaction :=
  ⟨demoValidator, timeSlot, demoInput.trx, false, 8, calls, 10⟩

def demoStore : RamExecution.Call := .dbStoreI64 demoContract ⟨1⟩ ⟨2⟩ demoContract 3 10

def demoRemove : RamExecution.Call := .dbRemoveI64 demoContract ⟨1⟩ ⟨2⟩ 3

lemma balanced_demoWorld : demoWorld.Balanced := by
  refine ⟨fun o ho => absurd ho (not_mem_empty o), fun a => ?_⟩
  have hfresh : (demoResources 0).ramUsage a = 0 := by
    cases hu : (demoResources 0).usage.find? a with
    | none =>
      rw [ResourceLimitsManager.ramUsage, hu]
      rfl
    | some u =>
      rw [ResourceLimitsManager.ramUsage, hu]
      rcases mem_of_mem_upsert (mem_of_find? hu) with ⟨hu, -⟩ | rfl
      · rcases mem_of_mem_upsert hu with ⟨hu, -⟩ | rfl
        · exact absurd hu (not_mem_empty u)
        · rfl
      · rfl
  show (0 : ℤ) = (demoResources 0).ramUsage a
  rw [hfresh]
  rfl

/-- Everything is at home at the contract. -/
def demoHome : ObjectKey → Name := fun _ => demoContract

theorem balanced_of_run_demo :
    ∃ tr w, Run Step demoWorld tr w ∧ tr.length = 3 ∧ w.objects.rows.length = 2 ∧
      w.Balanced ∧ w.CreditsCharged (.transaction (demoTransaction 2 [demoRemove])) ∧
      w.FreesWithoutFailing (demoTransaction 2 [demoRemove]) := by
  obtain ⟨tr, w, hr, hP⟩ := exists_run_of_carryOut (fun w e => (apply w e).toOption) demoWorld
    [.transaction (demoTransaction 1 [.setResourceLimits demoContract (-1) (-1) (-1)]),
      .transaction (demoTransaction 1 [demoStore]),
      .transaction (demoTransaction 1 [.setabi demoContract 40, .setabi demoContract 0])]
    (fun _ _ _ => step_of_apply)
    (P := fun tr w => (∀ t ∈ tr, t.pre.KeepsHome demoHome t.event) ∧ tr.length = 3 ∧
      w.objects.rows.length = 2 ∧
      w.KeepsHome demoHome (.transaction (demoTransaction 2 [demoRemove])))
    (by decide)
  obtain ⟨hk, hlength, hrows, hremove⟩ := hP
  have hh : demoWorld.Homed demoHome := fun o ho => absurd ho (not_mem_empty o)
  obtain ⟨hb, hcredits, hfrees⟩ := balanced_of_run balanced_demoWorld hh hr hk
  exact ⟨tr, w, hr, hlength, hrows, hb, hcredits _ hremove, hfrees _ hremove⟩

/-- The contract has too little RAM for its row, so the user is charged for it.  When the row is
removed the contract can pay, and so the credit goes to the contract, which uses nothing. -/
theorem removing_a_row_fails :
    ∃ w, Step demoWorld (.transaction (demoTransaction 1
        [.setResourceLimits demoContract 100 (-1) 1, demoStore])) w ∧
      w.objects.chargedSize demoAuthorizer = 234 ∧ w.rl.ramUsage demoAuthorizer = 234 ∧
      (∀ a, w.rl.WithinQuota a) ∧
      w.apply (.transaction (demoTransaction 2 [demoRemove])) =
        .error ⟨.transactionException, "Ram usage delta would underflow UINT64_MAX"⟩ := by
  obtain ⟨w, hstep, hcharged, husage, hremove⟩ : ∃ w, demoWorld.apply (.transaction
      (demoTransaction 1 [.setResourceLimits demoContract 100 (-1) 1, demoStore])) = .ok w ∧
      w.objects.chargedSize demoAuthorizer = 234 ∧ w.rl.ramUsage demoAuthorizer = 234 ∧
      w.apply (.transaction (demoTransaction 2 [demoRemove])) =
        .error ⟨.transactionException, "Ram usage delta would underflow UINT64_MAX"⟩ :=
    ⟨_, rfl, by decide, by decide, rfl⟩
  refine ⟨w, hstep, hcharged, husage, fun a => ?_, hremove⟩
  simp only [apply, transaction, bind_eq_ok, pure_eq_ok] at hstep
  obtain ⟨_, -, ⟨rl, ctx⟩, hpush, rfl⟩ := hstep
  exact withinQuota_of_pushTransaction withinQuota_demoResources hpush a

end RamWorld

end Sysio
