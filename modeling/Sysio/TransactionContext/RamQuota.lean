import Sysio.Data.Run
import Sysio.Roa.Effects
import Sysio.TransactionContext.Payer

/-!
# The RAM quota

No account uses more RAM than its limit.  Limits change in the middle of a transaction, and RAM is
charged at its end; in between, the quota may be broken, but only for accounts that `finalize` is
going to check.  So the invariant of the operations is the quota for every account outside
`validateRamUsage`, and `finalize` turns it into the quota for all.

At the end of a block the pending limits are committed, which does not change the limits that count.
-/

namespace Sysio

open Result List Table ResourceLimitsManager Roa FlatSet Option

variable {blockNum used : ℕ} {cpuWeight divisible netWeight ramDelta ramUsage : ℤ}
  {account name : Name}

open ResourceUsageObject (addRam fresh DecaysTo)

namespace ResourceLimitsManager

variable {rl rl' : ResourceLimitsManager}

/-! ### The quota -/

/-- The account is within its RAM limit, if it has one. -/
def WithinQuota (rl : ResourceLimitsManager) (a : Name) : Prop :=
  ∀ l u, rl.currentLimits a = some l → rl.usage.find? a = some u → 0 ≤ l.ramBytes →
    (u.ramUsage : ℤ) ≤ l.ramBytes

variable {a : Name}

lemma WithinQuota.congr (hlimits : rl'.currentLimits a = rl.currentLimits a)
    (husage : rl'.usage.find? a = rl.usage.find? a) (h : rl.WithinQuota a) : rl'.WithinQuota a := by
  intro l u hl hu
  rw [hlimits] at hl
  rw [husage] at hu
  exact h l u hl hu

lemma WithinQuota.of_le {u u' : ResourceUsageObject}
    (hlimits : rl'.currentLimits a = rl.currentLimits a) (hu : rl.usage.find? a = some u)
    (hu' : rl'.usage.find? a = some u') (hle : u'.ramUsage ≤ u.ramUsage) (h : rl.WithinQuota a) :
    rl'.WithinQuota a := by
  intro l v hl hv hlimit
  obtain rfl : u' = v := some.inj (hu'.symm.trans hv)
  have hold := h l u (hlimits ▸ hl) hu hlimit
  omega

lemma withinQuota_of_verify (h : rl.verifyAccountRamUsage a = .ok ()) : rl.WithinQuota a := by
  intro l u hl hu
  obtain ⟨l', u', hl', hu', hle⟩ := verifyAccountRamUsage_eq_ok.mp h
  obtain rfl : l = l' := some.inj (hl.symm.trans hl')
  obtain rfl : u = u' := some.inj (hu.symm.trans hu')
  exact hle

/-! ### The end of a block -/

/-- Committing a pending row does not change the limits that count. -/
lemma applyPendingLimits_eq_ok {r : ResourceLimitsObject}
    (h : rl.applyPendingLimits r = .ok rl') (hr : rl.pendingLimits.find? r.owner = some r) :
    rl'.usage = rl.usage ∧ (∀ a, rl'.currentLimits a = rl.currentLimits a) ∧
      ∀ a, a ≠ r.owner → rl'.pendingLimits.find? a = rl.pendingLimits.find? a := by
  simp only [applyPendingLimits, bind_eq_ok, pure_eq_ok] at h
  obtain ⟨-, -, -, -, -, -, -, -, rfl⟩ := h
  refine ⟨rfl, fun a => ?_, fun a ha => ?_⟩
  · simp only [currentLimits, find?_upsert, find?_erase]
    by_cases ha : a = r.owner
    · subst ha
      simp [hr]
    · simp [ha, Ne.symm ha]
  · rw [find?_erase]
    simp [ha]

lemma foldlM_applyPendingLimits_eq_ok {rows : List ResourceLimitsObject}
    (hnodup : (rows.map (·.owner)).Nodup)
    (hrows : ∀ r ∈ rows, rl.pendingLimits.find? r.owner = some r)
    (h : rows.foldlM applyPendingLimits rl = .ok rl') :
    rl'.usage = rl.usage ∧ ∀ a, rl'.currentLimits a = rl.currentLimits a := by
  -- owners are distinct, so the rows that are still to come stay in the table
  induction rows generalizing rl with
  | nil =>
    rw [foldlM_nil, pure_eq_ok] at h
    exact h ▸ ⟨rfl, fun _ => rfl⟩
  | cons r rows ih =>
    rw [foldlM_cons, bind_eq_ok] at h
    obtain ⟨rl1, h1, h2⟩ := h
    rw [map_cons, nodup_cons] at hnodup
    obtain ⟨husage, hlimits, hpending⟩ := applyPendingLimits_eq_ok h1 (hrows r mem_cons_self)
    have hrest : ∀ r' ∈ rows, rl1.pendingLimits.find? r'.owner = some r' := by
      intro r' hr'
      have hne : r'.owner ≠ r.owner := fun heq =>
        hnodup.1 (heq ▸ List.mem_map_of_mem hr')
      rw [hpending r'.owner hne, hrows r' (mem_cons_of_mem _ hr')]
    obtain ⟨husage', hlimits'⟩ := ih hnodup.2 hrest h2
    exact ⟨husage'.trans husage, fun a => (hlimits' a).trans (hlimits a)⟩

/-- `finalize_block` changes neither the usage nor the limits that count. -/
lemma finalizeBlock_eq_ok {cpu net : ElasticLimitParameters}
    (h : rl.finalizeBlock cpu net blockNum = .ok rl') :
    rl'.usage = rl.usage ∧ ∀ a, rl'.currentLimits a = rl.currentLimits a := by
  simp only [finalizeBlock, setBlockParameters, processBlockUsage, bind_eq_ok, pure_eq_ok] at h
  obtain ⟨rl1, hprocess, -, ⟨-, -, -, -, rfl⟩, -, -, -, -, -, -, -, -, rfl⟩ := h
  have hperm := perm_insertionSort (fun o o' : ResourceLimitsObject => o.owner ≤ o'.owner)
    rl.pendingLimits.rows
  have hkeep : rl1.usage = rl.usage ∧ ∀ a, rl1.currentLimits a = rl.currentLimits a := by
    refine foldlM_applyPendingLimits_eq_ok ?_ ?_ hprocess
    · exact (hperm.map _).nodup_iff.mpr rl.pendingLimits.nodup
    · intro r hr
      exact find?_key (hperm.mem_iff.mp hr)
  exact hkeep

end ResourceLimitsManager

namespace TransactionContext

variable {node : NodeSettings} {timeSlot : ℕ} {rl rl' : ResourceLimitsManager}
  {ctx ctx' : TransactionContext} {trx : Transaction}

/-! ### The operations -/

/-- The quota holds for every account that is not going to be checked. -/
def QuotaOutside (rl : ResourceLimitsManager) (ctx : TransactionContext) : Prop :=
  ∀ a, a ∉ ctx.validateRamUsage → rl.WithinQuota a

variable {bytesPerUnit : ℕ} {ramBytes : ℤ} {ramWeight reclaimed : Roa.Asset}

/-- What `reducepolicy` reclaims is unused, whenever it reclaims anything. -/
lemma reclaimRam_le
    (h : reclaimRam ramWeight bytesPerUnit ramBytes ramUsage = .ok (divisible, reclaimed)) :
    divisible = 0 ∨ 0 ≤ divisible ∧ divisible ≤ ramBytes - ramUsage ∧
      ramBytes - ramUsage < 2 ^ 63 := by
  by_cases hpos : 0 < ramWeight.amount
  · obtain ⟨hunits, hnonneg, -⟩ := reclaimRam_spec hpos.le h
    have hge : 0 ≤ divisible := by
      rw [hunits]
      exact mul_nonneg hnonneg (Int.natCast_nonneg _)
    simp only [reclaimRam, if_pos hpos, bind_eq_ok, i64_eq_ok, sysAssert_eq_ok,
      pure_eq_ok, Prod.mk.injEq] at h
    obtain ⟨unused, ⟨hrange, rfl⟩, requested, -, -, hreclaim, -, -, -, -, -, -, hdivisible, -⟩ := h
    have hmod := Int.tmod_nonneg (bytesPerUnit : ℤ) hreclaim
    have hmin := min_le_left (ramBytes - ramUsage) requested
    exact .inr ⟨hge, by omega, hrange.2⟩
  · rw [reclaimRam, if_neg hpos, pure_eq_ok, Prod.mk.injEq] at h
    exact .inl h.1.symm

lemma le_of_reclaimRam
    (h : reclaimRam ramWeight bytesPerUnit ramBytes (toI64 used) = .ok (divisible, reclaimed))
    (hused : 0 ≤ ramBytes → (used : ℤ) ≤ ramBytes) (hlimit : 0 ≤ ramBytes - divisible) :
    (used : ℤ) ≤ ramBytes - divisible := by
  rcases reclaimRam_le h with rfl | ⟨hge, hle, hrange⟩
  · rw [sub_zero] at hlimit ⊢
    exact hused hlimit
  -- a usage that is negative as an `int64_t` would leave more unused than an `int64_t` can hold
  · have hbytes := hused (by omega)
    unfold toI64 at hle hrange
    split_ifs at hle hrange <;> omega

section

variable (hq : QuotaOutside rl ctx)
include hq

/-- One account gets a new limit, and it is either within it or going to be checked. -/
lemma QuotaOutside.of_limit {l : Roa.AccountLimits} (husage : rl'.usage = rl.usage)
    (hlimits : ∀ b, rl'.currentLimits b = if b = account then some l else rl.currentLimits b)
    (hset : ∀ a, a ∈ ctx.validateRamUsage → a ∈ ctx'.validateRamUsage)
    (hl : account ∉ ctx'.validateRamUsage → ∀ u, rl.usage.find? account = some u →
      0 ≤ l.ramBytes → (u.ramUsage : ℤ) ≤ l.ramBytes) : QuotaOutside rl' ctx' := by
  intro a ha
  by_cases haa : a = account
  · subst haa
    intro l' u hl' hu
    rw [hlimits, if_pos rfl] at hl'
    obtain rfl := some.inj hl'
    exact hl ha u (husage ▸ hu)
  · refine (hq a fun h => ha (hset a h)).congr ?_ (by rw [husage])
    rw [hlimits, if_neg haa]

lemma QuotaOutside.setResourceLimits
    (h : setResourceLimits rl ctx account ramBytes netWeight cpuWeight = .ok (rl', ctx')) :
    QuotaOutside rl' ctx' := by
  simp only [TransactionContext.setResourceLimits, bind_eq_ok, pure_eq_ok, Prod.mk.injEq] at h
  obtain ⟨-, -, -, -, -, -, -, -, ⟨rl1, decreased⟩, hset, rfl, rfl⟩ := h
  obtain ⟨old, hold, hdecreased, husage, -, -, hlimits⟩ := setAccountLimits_eq_ok hset
  cases decreased with
  | true =>
    refine hq.of_limit husage hlimits (fun a ha => ?_) fun hout => absurd ?_ hout
    · exact mem_insert.mpr (.inr ha)
    · exact mem_insert.mpr (.inl rfl)
  | false =>
    refine hq.of_limit husage hlimits (fun a ha => ha) fun hout u hu hge => ?_
    have hnot := of_decide_eq_false hdecreased.symm
    have hle := hq account hout old u hold hu
    simp only at hge hnot ⊢
    omega

lemma QuotaOutside.newaccount
    (h : newaccount rl ctx name ramDelta = .ok (rl', ctx')) : QuotaOutside rl' ctx' := by
  simp only [TransactionContext.newaccount, bind_eq_ok, pure_eq_ok, Prod.mk.injEq] at h
  obtain ⟨-, -, -, -, rl1, hinit, rl2, hlimits, rfl, rfl⟩ := h
  obtain ⟨-, -, -, husage, hothers⟩ := initializeAccount_eq_ok hinit
  have hsub : ∀ a, a ∈ ctx.validateRamUsage →
      a ∈ (ctx.addRamUsage sysioName ramDelta).validateRamUsage := by
    intro a ha
    simp only [addRamUsage]
    split_ifs
    · exact mem_insert.mpr (.inr ha)
    · exact ha
  -- the new account uses nothing, so any limit will do
  have hfresh : ∀ u, rl1.usage.find? name = some u → u.ramUsage = 0 := by
    intro u hu
    rw [husage, if_pos rfl] at hu
    rw [← Option.some.inj hu]
    rfl
  have hfirst : QuotaOutside rl1 (ctx.addRamUsage sysioName ramDelta) := by
    intro a ha
    by_cases han : a = name
    · subst han
      intro l u _ hu hge
      rwa [hfresh u hu]
    · refine (hq a fun h => ha (hsub a h)).congr (hothers a han) ?_
      rw [husage, if_neg han]
  unfold initialLimits at hlimits
  split_ifs at hlimits
  · rw [pure_eq_ok] at hlimits
    exact hlimits ▸ hfirst
  · simp only [bind_eq_ok, pure_eq_ok] at hlimits
    obtain ⟨⟨rl3, decreased⟩, hset, rfl⟩ := hlimits
    obtain ⟨-, -, -, husage', -, -, hlimits⟩ := setAccountLimits_eq_ok hset
    refine hfirst.of_limit husage' hlimits (fun _ h => h) fun _ u hu hge => ?_
    rwa [hfresh u hu]

lemma QuotaOutside.execOp {op : ExecOp}
    (h : execOp (rl, ctx) op = .ok (rl', ctx')) : QuotaOutside rl' ctx' := by
  cases op with
  | addRamUsage =>
    cases h
    intro a ha
    refine hq a fun hmem => ha ?_
    simp only [addRamUsage]
    split_ifs
    · exact mem_insert.mpr (.inr hmem)
    · exact hmem
  | addNetUsage u =>
    cases h
    exact hq
  | setResourceLimits => exact hq.setResourceLimits h
  | newaccount => exact hq.newaccount h
  | reducepolicy owner netWeight cpuWeight ramWeight bytesPerUnit =>
    simp only [TransactionContext.execOp, bind_eq_ok, pure_eq_ok, Prod.mk.injEq] at h
    obtain ⟨rl1, hreduce, rfl, rfl⟩ := h
    obtain ⟨old, new, u, divisible, reclaimed, hold, hu, hreclaim, hnew, husage, -, -, hlimits⟩ :=
      reducepolicy_eq_ok hreduce
    refine hq.of_limit husage hlimits (fun _ h => h) fun hout u' hu' hge => ?_
    obtain rfl : u = u' := Option.some.inj (hu.symm.trans hu')
    rw [hnew] at hge ⊢
    exact le_of_reclaimRam hreclaim (hq owner hout old u hold hu) hge

lemma QuotaOutside.exec {ops : List ExecOp}
    (h : exec (rl, ctx) ops = .ok (rl', ctx')) : QuotaOutside rl' ctx' := by
  have hfold := foldlM_induction
    (R := fun (s s' : ResourceLimitsManager × TransactionContext) =>
      QuotaOutside s.1 s.2 → QuotaOutside s'.1 s'.2)
    (fun _ hq => hq) (fun _ _ _ h1 h2 hq => h2 (h1 hq)) (fun _ _ _ h hq => hq.execOp h) h
  exact hfold hq

end

/-- `finalize` checks the rest, and the payer after the charge. -/
lemma withinQuota_of_finalize (hro : ctx.isReadOnly = false) (hq : QuotaOutside rl ctx)
    (h : finalize node timeSlot rl ctx = .ok rl') (a : Name) : rl'.WithinQuota a := by
  obtain ⟨hverify, limit, payer, -, -, hpay⟩ := finalize_eq_ok hro h
  have hpaid := pay_eq_ok hpay
  have hlimits : rl'.currentLimits = rl.currentLimits := by
    unfold currentLimits
    rw [hpaid.limits, hpaid.pendingLimits]
  by_cases ha : a = payer
  · subst ha
    intro l u hl hu
    exact hpaid.verified l u (hlimits ▸ hl) hu
  · have hold : rl.WithinQuota a := by
      by_cases hmem : a ∈ ctx.validateRamUsage
      · exact withinQuota_of_verify (hverify a hmem)
      · exact hq a hmem
    exact hold.congr (congrFun hlimits a) (hpaid.others a ha)

/-! ### Histories -/

inductive Event
  /-- A transaction that changes the state, on a node with the given settings. -/
  | transaction (node : NodeSettings) (timeSlot : ℕ) (input : TransactionInput)
  /-- `remove_scheduled_transaction`, with the payer and the size of the deferred transaction. -/
  | retireDeferred (payer : Name) (size : ℕ)
  /-- The end of a block. -/
  | finalizeBlock (cpu net : ElasticLimitParameters) (blockNum : ℕ)

def apply (rl : ResourceLimitsManager) : Event → Result ResourceLimitsManager
  | .transaction node timeSlot input => do
    let r ← pushTransaction node timeSlot rl input
    pure r.1
  | .retireDeferred payer size => rl.addPendingRamUsage payer (-size)
  | .finalizeBlock cpu net blockNum => rl.finalizeBlock cpu net blockNum

/-- An event that goes through; what fails is undone. -/
def Step (rl : ResourceLimitsManager) (e : Event) (rl' : ResourceLimitsManager) : Prop :=
  apply rl e = .ok rl'

lemma step_of_apply {e : Event} (h : (apply rl e).toOption = some rl') : Step rl e rl' :=
  eq_ok_of_toOption h

lemma withinQuota_of_pushTransaction {t : TransactionInput} (hq : ∀ a, rl.WithinQuota a)
    (h : pushTransaction node timeSlot rl t = .ok (rl', ctx)) (a : Name) : rl'.WithinQuota a := by
  obtain ⟨rl1, ctx1, rl2, ctx2, hinit, hexec, hctx, hro, hfinal⟩ := pushTransaction_stages h
  obtain ⟨-, -, -, hrl1, hdecay, hsame, -⟩ := init_eq_ok hinit
  have hlimits : rl1.currentLimits = rl.currentLimits := by
    rw [hrl1]
    rfl
  have hstart : QuotaOutside rl1 ctx1 := by
    intro b _
    by_cases hb : b ∈ ctx1.billToAccounts
    · obtain ⟨u, u', hu, hu', hd⟩ := hdecay b hb
      exact (hq b).of_le (congrFun hlimits b) hu hu' hd.ram.le
    · exact (hq b).congr (congrFun hlimits b) (hsame b hb)
  have hexecuted : QuotaOutside rl2 ctx2 := hstart.exec hexec
  have hend : QuotaOutside rl2 ctx := by
    rwa [hctx]
  exact withinQuota_of_finalize hro hend hfinal a

lemma withinQuota_of_step {e : Event} (hq : ∀ a, rl.WithinQuota a) (h : Step rl e rl') (a : Name) :
    rl'.WithinQuota a := by
  cases e with
  | transaction =>
    simp only [Step, apply, bind_eq_ok, pure_eq_ok] at h
    obtain ⟨⟨rl1, ctx⟩, hpush, rfl⟩ := h
    exact withinQuota_of_pushTransaction hq hpush a
  | retireDeferred payer size =>
    obtain ⟨hlimits, hpending, -, -, -, husage⟩ := addPendingRamUsage_eq_ok h
    have hcurrent : rl'.currentLimits a = rl.currentLimits a := by
      simp only [currentLimits, hlimits, hpending]
    by_cases ha : a = payer
    · subst ha
      cases hu : rl.usage.find? a with
      | none =>
        intro l u' _ hu'
        rw [husage, if_pos rfl, hu] at hu'
        cases hu'
      | some u =>
        have hu' : rl'.usage.find? a = some (addRam u (-size)) := by
          rw [husage, if_pos rfl, hu]
          rfl
        refine (hq a).of_le hcurrent hu hu' ?_
        simp only [addRam]
        omega
    · refine (hq a).congr hcurrent ?_
      rw [husage, if_neg ha]
  | finalizeBlock =>
    obtain ⟨husage, hlimits⟩ := finalizeBlock_eq_ok h
    exact (hq a).congr (hlimits a) (by rw [husage])

/-- **The RAM quota.**  After every history of transactions, retired deferred transactions and ends
of blocks that starts within the quota, every account is within its RAM limit. -/
theorem withinQuota_of_run {tr : List (Transition ResourceLimitsManager Event)}
    (hq : ∀ a, rl.WithinQuota a) (hr : Run Step rl tr rl') (a : Name) : rl'.WithinQuota a :=
  hr.invariant (P := fun s => ∀ a, s.WithinQuota a) hq
    (fun _ _ _ hs hstep a => withinQuota_of_step hs hstep a) a

/-- The contract gets a RAM limit and uses some of it; the limit is lowered in the next block. -/
def demoHistory : List Event :=
  [.transaction demoValidator 1 { demoInput with
      ops := [.setResourceLimits demoContract 100 (-1) 1, .addRamUsage demoContract 60] },
    .finalizeBlock ⟨50, 100, 1, 1000, ⟨99, 100⟩, ⟨1000, 999⟩⟩
      ⟨50, 100, 1, 1000, ⟨99, 100⟩, ⟨1000, 999⟩⟩ 2,
    .transaction demoValidator 2 { demoInput with
      ops := [.setResourceLimits demoContract 70 (-1) 1] },
    .retireDeferred demoContract 20]

lemma withinQuota_demoResources (a : Name) : (demoResources 0).WithinQuota a := by
  intro l u _ hu hge
  have hfresh : u.ramUsage = 0 := by
    rcases mem_of_mem_upsert (mem_of_find? hu) with ⟨hu, -⟩ | rfl
    · rcases mem_of_mem_upsert hu with ⟨hu, -⟩ | rfl
      · exact absurd hu (Table.not_mem_empty u)
      · rfl
    · rfl
  rwa [hfresh]

theorem withinQuota_of_run_demo : ∃ tr rl', Run Step (demoResources 0) tr rl' ∧ tr.length = 4 ∧
      (rl'.usage.find? demoContract).map (·.ramUsage) = some 40 ∧ rl'.WithinQuota demoContract := by
  obtain ⟨tr, rl', hr, hP⟩ := exists_run_of_carryOut (fun rl e => (apply rl e).toOption)
    (demoResources 0) demoHistory (fun _ _ _ => step_of_apply)
    (P := fun tr rl' => tr.length = 4 ∧
      (rl'.usage.find? demoContract).map (·.ramUsage) = some 40) (by decide)
  obtain ⟨hlength, husage⟩ := hP
  exact ⟨tr, rl', hr, hlength, husage, withinQuota_of_run withinQuota_demoResources hr demoContract⟩

end TransactionContext

end Sysio
