import Mathlib.Tactic.Ring
import Sysio.Roa.Actions

/-!
# What the actions do to the tables

An action that changes a policy touches three tables.  `PolicyChange` says once how the three
changes fit together, for a policy that is new, expanded, reduced or reduced to nothing: the policy
`p` becomes `p'`, the node owner's allocations and the account's limits follow by the difference.
A new policy counts as the change of one with zero weights.
-/

namespace Sysio.Roa

open Result Table World Asset

variable {issuer o : Name} {d divisible n personalRamBytes ram ramUsage total : ℤ}
  {a b c netCpuWeight r reclaimed s sysioAllocation totalSys : Asset} {state : RoaState}
  {newTimeBlock tier timeBlock : ℕ}

/-! ### Sums over the policies -/

/-- The policies `ps` become `ps'` by the exchange of `p` for `p'`, as far as sums of quantities
can see that vanish on a policy with zero weights. -/
structure Exchange (ps ps' : Policies) (p p' : Policy) : Prop where
  sum : ∀ f : Policy → ℤ, (∀ q : Policy, q.AllZero → f q = 0) →
    ps'.sumBy f + f p = ps.sumBy f + f p'
  mem : ∀ q ∈ ps', q ∈ ps ∨ q = p'

variable {ps : Policies} {p p' : Policy}

lemma issuer_owner_of_find? {issuer owner : Name} (h : ps.find? (issuer, owner) = some p) :
    p.issuer = issuer ∧ p.owner = owner := by
  have hkey := (Table.find?_eq_some.mp h).2
  exact Prod.mk.inj hkey

/-- The policy with zero weights in the place of `p`. -/
def Policy.zeroed (p : Policy) : Policy :=
  { p with
    netWeight := { p.netWeight with amount := 0 }
    cpuWeight := { p.cpuWeight with amount := 0 }
    ramWeight := { p.ramWeight with amount := 0 } }

lemma Exchange.insert (h : ps.find? (p.issuer, p.owner) = none) :
    Exchange ps (ps.insert p) p.zeroed p where
  sum f hf := by
    rw [sumBy_insert h, hf p.zeroed ⟨rfl, rfl, rfl⟩, add_zero]
  mem q hq := (Table.mem_insert h).mp hq

lemma Exchange.upsert (h : ps.find? (p'.issuer, p'.owner) = some p) :
    Exchange ps (ps.upsert p') p p' where
  sum f _ := sumBy_upsert h f
  mem _ hq := (mem_of_mem_upsert hq).imp And.left id

lemma Exchange.storePolicy (h : ps.find? (p'.issuer, p'.owner) = some p) :
    Exchange ps (storePolicy ps p') p p' := by
  unfold Roa.storePolicy
  split_ifs with hzero
  · refine ⟨fun f hf => ?_, fun q hq => .inl (mem_erase.mp hq).1⟩
    rw [sumBy_erase h, hf p' hzero, add_zero]
  · exact .upsert h

/-! ### Limits of an account -/

/-- A quantity of the row of `reslimit`, 0 without one. -/
def limitOf (q : ResLimit → ℤ) (t : ResLimits) (o : Name) : ℤ := ((t.find? o).map q).getD 0

def ResLimit.net (row : ResLimit) : ℤ := row.netWeight.amount

def ResLimit.cpu (row : ResLimit) : ℤ := row.cpuWeight.amount

variable {q : ResLimit → ℤ} {row : ResLimit} {t : ResLimits} {owner : Name} {w w' : World}
  {node node' : NodeOwner} {auth : List Name} {netWeight cpuWeight ramWeight : Asset}

lemma limitOf_of_find? (h : t.find? o = some row) : limitOf q t o = q row := by
  rw [limitOf, h]
  rfl

lemma limitOf_of_none (h : t.find? o = none) : limitOf q t o = 0 := by
  rw [limitOf, h]
  rfl

/-- Writing a row changes the quantity for its owner and for nobody else. -/
lemma limitOf_upsert (h : q row = limitOf q t row.owner + d) (o : Name) :
    limitOf q (t.upsert row) o = limitOf q t o + if o = row.owner then d else 0 := by
  rw [limitOf, find?_upsert]
  by_cases ho : o = row.owner
  · rw [if_pos ho.symm, if_pos ho, ho, ← h]
    rfl
  · rw [if_neg (Ne.symm ho), if_neg ho, add_zero]
    rfl

/-- The row of `owner` is written, with so much more than before. -/
structure LimitChange (t t' : ResLimits) (owner : Name) (net cpu ramBytes : ℤ) : Prop where
  net : ∀ o, limitOf ResLimit.net t' o = limitOf ResLimit.net t o + if o = owner then net else 0
  cpu : ∀ o, limitOf ResLimit.cpu t' o = limitOf ResLimit.cpu t o + if o = owner then cpu else 0
  ram : ∀ o, limitOf ResLimit.ramBytes t' o =
    limitOf ResLimit.ramBytes t o + if o = owner then ramBytes else 0

variable {cpu net ramBytes : ℤ} {row' : ResLimit} {networkGen bytesPerUnit : ℕ}

lemma LimitChange.upsert (hnet : row.netWeight.amount = limitOf ResLimit.net t row.owner + net)
    (hcpu : row.cpuWeight.amount = limitOf ResLimit.cpu t row.owner + cpu)
    (hram : row.ramBytes = limitOf ResLimit.ramBytes t row.owner + ramBytes) :
    LimitChange t (t.upsert row) row.owner net cpu ramBytes :=
  ⟨limitOf_upsert hnet, limitOf_upsert hcpu, limitOf_upsert hram⟩

lemma LimitChange.insert (h : t.find? row.owner = none) :
    LimitChange t (t.insert row) row.owner row.netWeight.amount row.cpuWeight.amount
      row.ramBytes := by
  have hupsert : t.insert row = t.upsert row := (if_pos h).symm
  rw [hupsert]
  refine .upsert ?_ ?_ ?_ <;> rw [limitOf_of_none h, zero_add]

lemma LimitChange.of_addAmounts (hrow : t.find? owner = some row)
    (h : row.addAmounts net cpu ramBytes = .ok row') :
    row'.owner = owner ∧ LimitChange t (t.upsert row') owner net cpu ramBytes := by
  simp only [ResLimit.addAmounts, bind_eq_ok, i64_eq_ok, u64_eq_ok, pure_eq_ok] at h
  obtain ⟨_, ⟨-, rfl⟩, _, ⟨-, rfl⟩, _, ⟨-, rfl⟩, rfl⟩ := h
  obtain rfl : row.owner = owner := key_eq_of_find? hrow
  refine ⟨rfl, .upsert ?_ ?_ ?_⟩ <;> rw [limitOf_of_find? hrow] <;> rfl

/-! ### Changes of a policy -/

/-- The row of a node owner, with so much more allocated. -/
structure AllocationChange (node node' : NodeOwner) (net cpu ram : ℤ) : Prop where
  owner_eq : node'.owner = node.owner
  gen_eq : node'.networkGen = node.networkGen
  sys : node'.allocatedSys.amount = node.allocatedSys.amount + (net + cpu + ram)
  bw : node'.allocatedBw.amount = node.allocatedBw.amount + (net + cpu)
  ram : node'.allocatedRam.amount = node.allocatedRam.amount + ram

/-- The policies differ in their weights only. -/
structure SameTerms (p p' : Policy) : Prop where
  owner_eq : p'.owner = p.owner
  issuer_eq : p'.issuer = p.issuer
  price_eq : p'.bytesPerUnit = p.bytesPerUnit
  time_eq : p'.timeBlock = p.timeBlock

/-- **A policy changes**: `p` becomes `p'`, which has so much more weight. -/
structure PolicyChange (w w' : World) (p p' : Policy) (net cpu ram : ℤ) : Prop
    extends SameTerms p p' where
  roastate_eq : w'.roastate = w.roastate
  net_eq : p'.netWeight.amount = p.netWeight.amount + net
  cpu_eq : p'.cpuWeight.amount = p.cpuWeight.amount + cpu
  ram_eq : p'.ramWeight.amount = p.ramWeight.amount + ram
  exchange : Exchange w.policies w'.policies p p'
  node : ∃ gen node node', w.nodeowners.find? (gen, p.issuer) = some node ∧
    w'.nodeowners = w.nodeowners.upsert node' ∧ AllocationChange node node' net cpu ram
  limit : LimitChange w.reslimit w'.reslimit p.owner net cpu (ram * p.bytesPerUnit)

lemma sameTables_applyLimits {unlimited : Bool}
    (h : w.applyLimits row unlimited = .ok w') : World.SameTables w w' := by
  unfold applyLimits at h
  split_ifs at h <;> exact sameTables_setResourceLimits h

lemma allocationChange_addAllocation
    (h : node.addAllocation net cpu ram total = .ok node') (htotal : total = net + cpu + ram) :
    AllocationChange node node' net cpu ram := by
  simp only [NodeOwner.addAllocation, bind_eq_ok, i64_eq_ok, pure_eq_ok] at h
  obtain ⟨_, ⟨-, rfl⟩, _, ⟨-, rfl⟩, _, ⟨-, rfl⟩, _, ⟨-, rfl⟩, rfl⟩ := h
  exact ⟨rfl, rfl, by rw [htotal], rfl, rfl⟩

lemma amount_add_add (hs : a.add b = .ok s) (hr : s.add c = .ok r) :
    r.amount = a.amount + b.amount + c.amount := by
  rw [amount_add hr, amount_add hs]

/-- What is added for an account of the system, which gets no NET and CPU, is what is given. -/
lemma ite_sysio_eq (h : checkSysioWeights owner netWeight cpuWeight = .ok ()) :
    (if isSysioAccount owner = true then 0 else netWeight.amount) = netWeight.amount ∧
      (if isSysioAccount owner = true then 0 else cpuWeight.amount) = cpuWeight.amount := by
  rw [checkSysioWeights, check_eq_ok] at h
  split_ifs with hsysio
  · exact ⟨(h hsysio).1.symm, (h hsysio).2.symm⟩
  · exact ⟨rfl, rfl⟩

lemma limitChange_policyLimit (hsysio : checkSysioWeights owner netWeight cpuWeight = .ok ())
    (h : policyLimit w owner state netWeight cpuWeight ramBytes = .ok row) :
    LimitChange w.reslimit (w.reslimit.upsert row) owner netWeight.amount cpuWeight.amount
      ramBytes := by
  obtain ⟨hnet, hcpu⟩ := ite_sysio_eq hsysio
  unfold policyLimit at h
  dsimp only at h
  split at h
  · next hnone =>
    cases h
    refine .upsert ?_ ?_ ?_ <;> rw [limitOf_of_none hnone, zero_add]
    · rw [← hnet]
      dsimp only
      split_ifs <;> rfl
    · rw [← hcpu]
      dsimp only
      split_ifs <;> rfl
  · next row0 hsome =>
    rw [hnet, hcpu] at h
    exact (LimitChange.of_addAmounts hsome h).2

/-- **`addpolicy` adds a policy at the current price.** -/
theorem addpolicy_change
    (h : addpolicy w auth owner issuer netWeight cpuWeight ramWeight timeBlock networkGen =
      .ok w') : ∃ state p', w.roastate = some state ∧
      p' = ⟨owner, issuer, netWeight, cpuWeight, ramWeight, state.bytesPerUnit, timeBlock⟩ ∧
      w.policies.find? (issuer, owner) = none ∧
      0 ≤ netWeight.amount ∧ 0 ≤ cpuWeight.amount ∧ 0 ≤ ramWeight.amount ∧
      PolicyChange w w' p'.zeroed p' netWeight.amount cpuWeight.amount ramWeight.amount ∧
      w'.policies = w.policies.insert p' := by
  simp only [addpolicy, getRoastate, checkNotNegative, bind_eq_ok, check_eq_ok,
    require_eq_ok, i64_eq_ok, emplace_eq_ok, pure_eq_ok] at h
  obtain ⟨-, -, state, hstate, -, -, -, -, node, hnode, -, ⟨-, hnet, -, hcpu, hram⟩, _, hsysio, -,
    -, sum, hsum, total, htotal, -, -, -, -, _, ⟨-, rfl⟩, -, hnew, row, hrow, w1, hw1, policies,
    ⟨hnew', rfl⟩, node', hnode', rfl⟩ := h
  have htables := sameTables_applyLimits hw1
  rw [htables.policies_eq] at hnew'
  refine ⟨state, _, hstate, rfl, hnew, hnet, hcpu, hram, ?_, by rw [htables.policies_eq]⟩
  exact {
    roastate_eq := htables.roastate_eq
    toSameTerms := ⟨rfl, rfl, rfl, rfl⟩
    net_eq := (zero_add _).symm
    cpu_eq := (zero_add _).symm
    ram_eq := (zero_add _).symm
    exchange := by
      rw [htables.policies_eq]
      exact .insert hnew'
    node := by
      refine ⟨networkGen, node, node', hnode, ?_, ?_⟩
      · rw [htables.nodeowners_eq]
      · exact allocationChange_addAllocation hnode' (amount_add_add hsum htotal)
    limit := by
      rw [htables.reslimit_eq]
      exact limitChange_policyLimit hsysio hrow }

/-- **`expandpolicy` adds to a policy**, at the price of the policy. -/
theorem expandpolicy_change
    (h : expandpolicy w auth owner issuer netWeight cpuWeight ramWeight networkGen = .ok w') :
    ∃ p p', w.policies.find? (issuer, owner) = some p ∧
      0 ≤ netWeight.amount ∧ 0 ≤ cpuWeight.amount ∧ 0 ≤ ramWeight.amount ∧
      PolicyChange w w' p p' netWeight.amount cpuWeight.amount ramWeight.amount ∧
      w'.policies = w.policies.upsert p' := by
  simp only [expandpolicy, checkNotNegative, bind_eq_ok, check_eq_ok, require_eq_ok, i64_eq_ok] at h
  obtain ⟨-, -, node, hnode, p, hp, -, ⟨-, hnet, -, hcpu, hram⟩, -, -, _, hsysio, sum, hsum, total,
    htotal, -, -, -, -, _, ⟨-, rfl⟩, p', hp', node', hnode', row, hrow, row', hrow', hw⟩ := h
  obtain ⟨hnet', hcpu'⟩ := ite_sysio_eq hsysio
  rw [hnet', hcpu'] at hp' hrow'
  have htables := sameTables_applyLimits hw
  simp only [Policy.addAmounts, bind_eq_ok, i64_eq_ok, pure_eq_ok] at hp'
  obtain ⟨_, ⟨-, rfl⟩, _, ⟨-, rfl⟩, _, ⟨-, rfl⟩, rfl⟩ := hp'
  obtain ⟨rfl, rfl⟩ := issuer_owner_of_find? hp
  refine ⟨p, _, hp, hnet, hcpu, hram, ?_, htables.policies_eq⟩
  exact {
    roastate_eq := htables.roastate_eq
    toSameTerms := ⟨rfl, rfl, rfl, rfl⟩
    net_eq := rfl
    cpu_eq := rfl
    ram_eq := rfl
    exchange := by
      rw [htables.policies_eq]
      exact .upsert hp
    node := by
      refine ⟨networkGen, node, node', hnode, htables.nodeowners_eq, ?_⟩
      exact allocationChange_addAllocation hnode' (amount_add_add hsum htotal)
    limit := by
      rw [htables.reslimit_eq]
      exact (LimitChange.of_addAmounts hrow hrow').2 }

/-- **`extendpolicy` sets a later time block**, and nothing else. -/
theorem extendpolicy_spec (h : extendpolicy w auth owner issuer newTimeBlock = .ok w') :
    ∃ p, w.policies.find? (issuer, owner) = some p ∧
      w' = { w with policies := w.policies.upsert { p with timeBlock := newTimeBlock } } := by
  simp only [extendpolicy, bind_eq_ok, check_eq_ok, require_eq_ok, pure_eq_ok] at h
  obtain ⟨-, -, p, hp, -, -, -, -, rfl⟩ := h
  exact ⟨p, hp, rfl⟩

lemma setbyteprice_spec (h : setbyteprice w auth bytesPerUnit = .ok w') :
    ∃ state, w.roastate = some state ∧
      w' = { w with roastate := some { state with bytesPerUnit := bytesPerUnit } } := by
  simp only [setbyteprice, getRoastate, bind_eq_ok, check_eq_ok, require_eq_ok, pure_eq_ok] at h
  obtain ⟨-, -, state, hstate, -, -, rfl⟩ := h
  exact ⟨state, hstate, rfl⟩

/-! ### Activation and registration -/

/-- **`activateroa` sets the state and gives RAM to `sysio.roa` and `sysio`.** -/
theorem activateroa_spec
    (h : activateroa w auth totalSys bytesPerUnit = .ok w') : ∃ roaRamBytes sysioRamBytes t,
      activationGrants totalSys.amount bytesPerUnit = .ok (roaRamBytes, sysioRamBytes) ∧
      w'.roastate = some ⟨true, totalSys, bytesPerUnit, 0⟩ ∧ w'.nodeowners = w.nodeowners ∧
      w'.policies = w.policies ∧ LimitChange w.reslimit t sysioRoaName 0 0 roaRamBytes ∧
      LimitChange t w'.reslimit sysioName 0 0 sysioRamBytes := by
  simp only [activateroa, bind_eq_ok, check_eq_ok] at h
  obtain ⟨-, -, -, -, ⟨roaRamBytes, sysioRamBytes⟩, hgrants, -, hroa, t, ht, w1, hw1, -, hsysio, t',
    ht', hw'⟩ := h
  obtain ⟨-, rfl⟩ := emplace_eq_ok.mp ht
  obtain ⟨-, rfl⟩ := emplace_eq_ok.mp ht'
  have htables1 := sameTables_setResourceLimits hw1
  have htables' := sameTables_setResourceLimits hw'
  refine ⟨roaRamBytes, sysioRamBytes, w1.reslimit, hgrants, ?_, ?_, ?_, ?_, ?_⟩
  · rw [htables'.roastate_eq]
    exact htables1.roastate_eq
  · rw [htables'.nodeowners_eq]
    exact htables1.nodeowners_eq
  · rw [htables'.policies_eq]
    exact htables1.policies_eq
  · rw [htables1.reslimit_eq]
    exact .insert hroa
  · rw [htables'.reslimit_eq]
    exact .insert hsysio

/-- The policy that a registration gives the node owner itself. -/
def personalPolicy (owner : Name) (state : RoaState) : Policy :=
  ⟨owner, owner, ⟨500, state.totalSys.symbol⟩, ⟨500, state.totalSys.symbol⟩,
    ⟨80, state.totalSys.symbol⟩, state.bytesPerUnit, 1⟩

/-- The policy that a registration gives `sysio`. -/
def sysioPolicy (owner : Name) (state : RoaState) (sysioAllocation : Asset) : Policy :=
  ⟨sysioName, owner, ⟨0, state.totalSys.symbol⟩, ⟨0, state.totalSys.symbol⟩, sysioAllocation,
    state.bytesPerUnit, 1⟩

/-- A new node owner gets its two policies; it is not `sysio`, which would get two of its own. -/
lemma registrationPolicies_spec
    {policies : Policies} (hnone : w.policies.find? (owner, owner) = none)
    (h : registrationPolicies w owner state ⟨500, state.totalSys.symbol⟩
      ⟨80, state.totalSys.symbol⟩ sysioAllocation = .ok policies) :
    (w.policies.insert (personalPolicy owner state)).find? (owner, sysioName) = none ∧
      policies = (w.policies.insert (personalPolicy owner state)).insert
        (sysioPolicy owner state sysioAllocation) := by
  rw [registrationPolicies, if_pos hnone] at h
  simp only [bind_eq_ok, emplace_eq_ok] at h
  obtain ⟨_, ⟨-, rfl⟩, hnew, rfl⟩ := h
  exact ⟨hnew, rfl⟩

lemma limitChange_registrationLimit
    (h : registrationLimit w owner netCpuWeight personalRamBytes = .ok row) :
    LimitChange w.reslimit (w.reslimit.upsert row) owner netCpuWeight.amount netCpuWeight.amount
      personalRamBytes := by
  unfold registrationLimit at h
  split at h
  · next hnone =>
    cases h
    refine .upsert ?_ ?_ ?_ <;> rw [limitOf_of_none hnone, zero_add]
  · next row0 hsome =>
    simp only [bind_eq_ok, u64_eq_ok, pure_eq_ok] at h
    obtain ⟨net, hnet, cpu, hcpu, _, ⟨-, rfl⟩, rfl⟩ := h
    obtain rfl : row0.owner = owner := (Table.find?_eq_some.mp hsome).2
    refine .upsert ?_ ?_ ?_ <;> rw [limitOf_of_find? hsome]
    · exact amount_add hnet
    · exact amount_add hcpu

/-- **A node owner is registered** with its allocations, its policies and their limits. -/
structure Registration (w w' : World) (owner : Name) (state : RoaState) (sysioAllocation : Asset)
    (node : NodeOwner) : Prop where
  state_eq : w.roastate = some state
  roastate_eq : w'.roastate = w.roastate
  free : w.nodeowners.find? (state.networkGen, owner) = none
  nodeowners_eq : w'.nodeowners = w.nodeowners.insert node
  owner_eq : node.owner = owner
  gen_eq : node.networkGen = state.networkGen
  sys : node.allocatedSys.amount = node.allocatedBw.amount + node.allocatedRam.amount
  bw : node.allocatedBw.amount = 1000
  ram : node.allocatedRam.amount = 80 + sysioAllocation.amount
  bytes_nonneg : 0 ≤ sysioAllocation.amount * state.bytesPerUnit
  policies : registrationPolicies w owner state ⟨500, state.totalSys.symbol⟩
    ⟨80, state.totalSys.symbol⟩ sysioAllocation = .ok w'.policies
  limit : ∃ t, LimitChange w.reslimit t owner 500 500 (80 * state.bytesPerUnit) ∧
    LimitChange t w'.reslimit sysioName 0 0 (sysioAllocation.amount * state.bytesPerUnit)

lemma regnodeowner_spec (h : regnodeowner w auth owner tier = .ok w') :
    ∃ state sysioAllocation node, Registration w w' owner state sysioAllocation node := by
  simp only [regnodeowner, getRoastate, bind_eq_ok, check_eq_ok, require_eq_ok,
    u64_eq_ok, emplace_eq_ok, pure_eq_ok] at h
  obtain ⟨-, -, state, hstate, -, -, -, hfree, total, -, _, ⟨-, rfl⟩, allocatedRam, hallocRam,
    allocatedBw, hallocBw, allocatedSys, hallocSys, policies, hpolicies, row, hrow, w1, hw1,
    sysioRow, hsysioRow, _, ⟨hbytes, rfl⟩, _, ⟨-, rfl⟩, w2, hw2, nodeowners, ⟨-, rfl⟩, rfl⟩ := h
  have htables1 := sameTables_applyLimits hw1
  have htables2 := sameTables_applyLimits hw2
  have hsys := amount_add hallocSys
  refine ⟨state, ⟨total.amount.tdiv 10, total.symbol⟩,
    ⟨owner, tier, total, allocatedSys, allocatedBw, allocatedRam, state.networkGen⟩, ?_⟩
  exact {
    state_eq := hstate
    roastate_eq := htables2.roastate_eq.trans htables1.roastate_eq
    free := hfree
    nodeowners_eq := by
      rw [htables2.nodeowners_eq, htables1.nodeowners_eq]
    owner_eq := rfl
    gen_eq := rfl
    sys := by
      rw [hsys]
      ring
    bw := amount_add hallocBw
    ram := amount_add hallocRam
    bytes_nonneg := hbytes.1
    policies := by
      rwa [htables2.policies_eq, htables1.policies_eq]
    limit := by
      refine ⟨w1.reslimit, ?_, ?_⟩
      · rw [htables1.reslimit_eq]
        exact limitChange_registrationLimit hrow
      · rw [htables2.reslimit_eq]
        have howner : sysioRow.owner = sysioName := (Table.find?_eq_some.mp hsysioRow).2
        rw [← howner] at hsysioRow ⊢
        refine LimitChange.upsert ?_ ?_ ?_ <;> rw [limitOf_of_find? hsysioRow]
        · exact (add_zero _).symm
        · exact (add_zero _).symm }

/-! ### Reductions -/

/-- A number without its remainder is whole units. -/
lemma tdiv_sub_tmod {b : ℕ} (hb : 0 < b) (hn : 0 ≤ n) :
    n - n.tmod b = (n - n.tmod b).tdiv b * b ∧ 0 ≤ (n - n.tmod b).tdiv b := by
  have hmod : n - n.tmod b = n / b * b := by
    rw [Int.tmod_eq_emod_of_nonneg hn, Int.emod_def]
    ring
  have hb' : (0 : ℤ) < b := by exact_mod_cast hb
  rw [hmod, Int.mul_tdiv_cancel _ hb'.ne']
  exact ⟨rfl, Int.ediv_nonneg hn hb'.le⟩

/-- What is taken back of the RAM is whole units of the price, and no more than asked for. -/
lemma reclaimRam_spec (hram : 0 ≤ ramWeight.amount)
    (h : reclaimRam ramWeight bytesPerUnit ramBytes ramUsage = .ok (divisible, reclaimed)) :
    divisible = reclaimed.amount * bytesPerUnit ∧ 0 ≤ reclaimed.amount ∧
      reclaimed.amount ≤ ramWeight.amount := by
  unfold reclaimRam at h
  split_ifs at h with hpos
  · simp only [bind_eq_ok, i64_eq_ok, sysAssert_eq_ok, pure_eq_ok, Prod.mk.injEq] at h
    obtain ⟨unused, ⟨-, rfl⟩, requested, ⟨-, rfl⟩, -, hreclaim, -, hprice, asset, hmake, -, hle,
      hdivisible, rfl⟩ := h
    rw [make_eq_ok hmake] at hle ⊢
    dsimp only at hle ⊢
    generalize min (ramBytes - ramUsage) (ramWeight.amount * (bytesPerUnit : ℤ)) = n at *
    obtain ⟨hunits, hnonneg⟩ := tdiv_sub_tmod (Nat.pos_of_ne_zero hprice) hreclaim
    rw [← hdivisible]
    exact ⟨hunits, hnonneg, hle⟩
  · cases h
    refine ⟨?_, le_rfl, hram⟩
    rw [zero_mul]

lemma NodeOwner.unpack_eq_ok (h : node.unpack = .ok node') : node = node' := by
  simp only [NodeOwner.unpack, bind_eq_ok, pure_eq_ok] at h
  obtain ⟨-, -, -, -, -, -, -, -, h⟩ := h
  exact h

lemma Policy.unpack_eq_ok (h : p.unpack = .ok p') : p = p' := by
  simp only [Policy.unpack, bind_eq_ok, pure_eq_ok] at h
  obtain ⟨-, -, -, -, -, -, h⟩ := h
  exact h

lemma ResLimit.unpack_eq_ok (h : row.unpack = .ok row') : row = row' := by
  simp only [ResLimit.unpack, bind_eq_ok, pure_eq_ok] at h
  obtain ⟨-, -, -, -, h⟩ := h
  exact h

/-- What the three rows have in common before and after a reduction, and what is taken off. -/
lemma reducedRows_spec
    (h : reducedRows node p row netWeight cpuWeight reclaimed divisible = .ok (row', p', node')) :
    AllocationChange node node' (-netWeight.amount) (-cpuWeight.amount) (-reclaimed.amount) ∧
      SameTerms p p' ∧ p'.netWeight.amount = p.netWeight.amount - netWeight.amount ∧
      p'.cpuWeight.amount = p.cpuWeight.amount - cpuWeight.amount ∧
      p'.ramWeight.amount = p.ramWeight.amount - reclaimed.amount ∧ row'.owner = row.owner ∧
      row'.netWeight.amount = row.netWeight.amount - netWeight.amount ∧
      row'.cpuWeight.amount = row.cpuWeight.amount - cpuWeight.amount ∧
      row'.ramBytes = row.ramBytes - divisible := by
  simp only [reducedRows, bind_eq_ok, u64_eq_ok, pure_eq_ok, Prod.mk.injEq] at h
  obtain ⟨rowNet, hrowNet, rowCpu, hrowCpu, _, ⟨-, rfl⟩, polNet, hpolNet, polCpu, hpolCpu, polRam,
    hpolRam, bw, hbw, total, htotal, sys, hsys, allocBw, hallocBw, allocRam, hallocRam, rfl, rfl,
    rfl⟩ := h
  have hbw' := amount_chainAdd hbw
  have htotal' := amount_chainAdd htotal
  refine ⟨⟨rfl, rfl, ?_, ?_, ?_⟩, ⟨rfl, rfl, rfl, rfl⟩, amount_chainSubAssign hpolNet,
    amount_chainSubAssign hpolCpu, amount_chainSubAssign hpolRam, rfl,
    amount_chainSubAssign hrowNet, amount_chainSubAssign hrowCpu, rfl⟩
  · have hsys' := amount_chainSubAssign hsys
    dsimp only
    omega
  · have hallocBw' := amount_chainSubAssign hallocBw
    dsimp only
    omega
  · have hallocRam' := amount_chainSubAssign hallocRam
    dsimp only
    omega

/-- **`reducepolicy` takes from a policy**, which is past its time block and is not one that a
registration gave to an account of the system. -/
theorem reducepolicy_change
    (h : reducepolicy w auth owner issuer netWeight cpuWeight ramWeight networkGen = .ok w') :
    ∃ p p' reclaimed, w.policies.find? (issuer, owner) = some p ∧
      0 ≤ p'.netWeight.amount ∧ 0 ≤ p'.cpuWeight.amount ∧ 0 ≤ p'.ramWeight.amount ∧
      PolicyChange w w' p p' (-netWeight.amount) (-cpuWeight.amount) (-reclaimed) ∧
      w'.policies = storePolicy w.policies p' ∧
      ¬ (isSysioAccount owner = true ∧ p.timeBlock = 1) := by
  simp only [reducepolicy, bind_eq_ok, sysAssert_eq_ok, require_eq_ok, i64_eq_ok] at h
  obtain ⟨-, -, -, -, -, -, -, -, node, hnode, node1, hnode1, -, -, p, hp, p1, hp1, -, -, -, hguard,
    row, hrow, row1, hrow1, u, hcheck, l, -, ⟨divisible, reclaimed⟩, hreclaim, h⟩ := h
  obtain rfl := NodeOwner.unpack_eq_ok hnode1
  obtain rfl := Policy.unpack_eq_ok hp1
  obtain rfl := ResLimit.unpack_eq_ok hrow1
  simp only [checkReduction, bind_eq_ok, sysAssert_eq_ok] at hcheck
  obtain ⟨-, -, -, -, -, hram, -, -, -, hnetLe, -, hcpuLe, hramLe⟩ := hcheck
  obtain ⟨hdivisible, hreclaimed, hreclaimedLe⟩ := reclaimRam_spec hram hreclaim
  simp only [pure_eq_ok] at h
  obtain ⟨_, ⟨-, rfl⟩, _, ⟨-, rfl⟩, _, ⟨-, rfl⟩, w1, hw1, ⟨row', p', node'⟩, hrows, rfl⟩ := h
  obtain ⟨hnode', hp', hnet', hcpu', hram', howner, hrowNet, hrowCpu, hrowRam⟩ :=
    reducedRows_spec hrows
  have htables := sameTables_setAccountLimits hw1
  obtain ⟨rfl, rfl⟩ := issuer_owner_of_find? hp
  refine ⟨p, p', reclaimed.amount, hp, by omega, by omega, by omega, ?_, ?_, ?_⟩
  · exact {
      roastate_eq := htables.roastate_eq
      toSameTerms := hp'
      net_eq := by omega
      cpu_eq := by omega
      ram_eq := by omega
      exchange := by
        rw [htables.policies_eq]
        apply Exchange.storePolicy
        rwa [hp'.owner_eq, hp'.issuer_eq]
      node := by
        refine ⟨networkGen, node, node', hnode, ?_, hnode'⟩
        rw [htables.nodeowners_eq]
      limit := by
        rw [htables.reslimit_eq]
        have hrow' : row'.owner = p.owner := howner.trans (Table.find?_eq_some.mp hrow).2
        rw [← hrow'] at hrow ⊢
        apply LimitChange.upsert
        · rw [limitOf_of_find? hrow, hrowNet]
          rfl
        · rw [limitOf_of_find? hrow, hrowCpu]
          rfl
        · rw [limitOf_of_find? hrow, hrowRam, hdivisible, neg_mul]
          rfl }
  · rw [htables.policies_eq]
  · rintro ⟨hsysio, htime⟩
    exact hguard ⟨hsysio, htime, rfl⟩

end Sysio.Roa
