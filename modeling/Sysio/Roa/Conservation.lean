import Sysio.Roa.Ledger

/-!
# Conservation of resources

Activation brings resources into the tables of their own, and registration makes the first two
policies of a node owner.  With these, every event keeps the tables in agreement with the policies
(`Conserved.step`), and so does every sequence of events (`ledger_conserved`).
-/

namespace Sysio.Roa

open List Policy ResLimit

variable {grant : Name → ℤ} {w w' : World}

/-! ### Activation and registration -/

/-- What an activation gives to an account. -/
def activationGrant (totalSys : Asset) (bytesPerUnit : ℕ) (o : Name) : ℤ :=
  match activationGrants totalSys.amount bytesPerUnit with
  | .ok (roaRamBytes, sysioRamBytes) =>
    (if o = sysioRoaName then roaRamBytes else 0) + if o = sysioName then sysioRamBytes else 0
  | .error _ => 0

variable {bytesPerUnit : ℕ} {tr : List (Transition World Event)}

lemma activationGrants_nonneg {totalAmount roaRamBytes sysioRamBytes : ℤ}
    (h : activationGrants totalAmount bytesPerUnit = .ok (roaRamBytes, sysioRamBytes)) :
    0 ≤ roaRamBytes ∧ 0 ≤ sysioRamBytes := by
  simp only [activationGrants, Result.bind_eq_ok, u64_eq_ok, Result.pure_eq_ok, Prod.mk.injEq] at h
  obtain ⟨_, -, _, -, _, -, _, -, _, -, _, -, _, -, _, -, _, -, _, -, _, ⟨hroa, rfl⟩, _,
    ⟨hsysio, rfl⟩, rfl, rfl⟩ := h
  exact ⟨hroa.1, hsysio.1⟩

lemma conserved_activateroa {auth : List Name} {totalSys : Asset}
    (hc : Conserved grant w) (hi : Issuers w') (hprice : 0 < bytesPerUnit)
    (h : activateroa w auth totalSys bytesPerUnit = .ok w') :
    Conserved (fun o => grant o + activationGrant totalSys bytesPerUnit o) w' := by
  obtain ⟨roaRamBytes, sysioRamBytes, t, hgrants, hstate, hnodes, hpolicies, hroa, hsysio⟩ :=
    activateroa_spec h
  obtain ⟨hroa0, hsysio0⟩ := activationGrants_nonneg hgrants
  have hgrant : ∀ o, activationGrant totalSys bytesPerUnit o =
      (if o = sysioRoaName then roaRamBytes else 0) +
        if o = sysioName then sysioRamBytes else 0 := by
    intro o
    rw [activationGrant, hgrants]
  constructor
  case toIssuers => exact hi
  case state_price =>
    rw [hstate]
    rintro _ ⟨⟩
    exact hprice
  case node_sys =>
    rw [hnodes]
    exact hc.node_sys
  case node_bw =>
    rw [hnodes, hpolicies]
    exact hc.node_bw
  case node_ram =>
    rw [hnodes, hpolicies]
    exact hc.node_ram
  case policy_nonneg =>
    rw [hpolicies]
    exact hc.policy_nonneg
  case policy_price =>
    rw [hpolicies]
    exact hc.policy_price
  case limit_net =>
    intro o
    rw [hsysio.net, hroa.net, hpolicies, hc.limit_net, ite_self, ite_self, add_zero, add_zero]
  case limit_cpu =>
    intro o
    rw [hsysio.cpu, hroa.cpu, hpolicies, hc.limit_cpu, ite_self, ite_self, add_zero, add_zero]
  case limit_ram =>
    intro o
    rw [hsysio.ram, hroa.ram, hpolicies, hc.limit_ram, hgrant]
    ring
  case grant_nonneg =>
    intro o
    rw [hgrant]
    have := hc.grant_nonneg o
    split_ifs <;> omega

section Registration

variable {owner : Name} {state : RoaState} {sysioAllocation : Asset} {node : NodeOwner}
  {q : Policy → ℤ} (h : Registration w w' owner state sysioAllocation node)
include h

lemma Issuers.issued_registration (hi : Issuers w) (hq : Extensive q) (n : Name) :
    issued q w'.policies n = issued q w.policies n + if n = owner then
      q (personalPolicy owner state) + q (sysioPolicy owner state sysioAllocation) else 0 := by
  obtain ⟨hnone, hnone', hpolicies⟩ := hi.registration h
  rw [hpolicies, issued_insert hq hnone', issued_insert hq hnone, add_assoc]
  show _ + ((if n = owner then _ else 0) + if n = owner then _ else 0) = _
  by_cases hn : n = owner
  · rw [if_pos hn, if_pos hn, if_pos hn]
  · rw [if_neg hn, if_neg hn, if_neg hn, add_zero]

lemma Issuers.held_registration (hi : Issuers w) (hq : Extensive q) (o : Name) :
    held q w'.policies o = held q w.policies o +
      (if o = owner then q (personalPolicy owner state) else 0) +
      if o = sysioName then q (sysioPolicy owner state sysioAllocation) else 0 := by
  obtain ⟨hnone, hnone', hpolicies⟩ := hi.registration h
  rw [hpolicies, held_insert hq hnone', held_insert hq hnone]
  rfl

/-- The allocations of a node owner agree with a sum over its policies after a registration, if
they did before it and do for the two new policies. -/
lemma Conserved.node_registration (hc : Conserved grant w) (hq : Extensive q)
    {f : NodeOwner → ℤ} (hf : ∀ n ∈ w.nodeowners, f n = issued q w.policies n.owner)
    (hnode : f node =
      q (personalPolicy owner state) + q (sysioPolicy owner state sysioAllocation)) :
    ∀ n ∈ w'.nodeowners, f n = issued q w'.policies n.owner := by
  intro n hn
  rw [hc.issued_registration h hq]
  rcases (Issuers.mem_nodeowners h).mp hn with hn | rfl
  · have hne : n.owner ≠ owner := by
      rintro rfl
      apply Table.find?_eq_none.mp (hc.free h) n hn
      rw [hc.node_gen n hn]
    rw [if_neg hne, add_zero]
    exact hf n hn
  · have hzero := issued_eq_zero (q := q) (hc.issuer_ne (hc.free h))
    rwa [h.owner_eq, if_pos rfl, hzero, zero_add]

lemma Conserved.registration (hc : Conserved grant w) (hi : Issuers w') : Conserved grant w' := by
  obtain ⟨t, hlimit, hsysioLimit⟩ := h.limit
  have hprice := hc.state_price state h.state_eq
  have hallocation : 0 ≤ sysioAllocation.amount :=
    nonneg_of_mul_nonneg_left h.bytes_nonneg (by exact_mod_cast hprice)
  constructor
  case toIssuers => exact hi
  case state_price =>
    rw [h.roastate_eq]
    exact hc.state_price
  case node_sys =>
    intro n hn
    rcases (Issuers.mem_nodeowners h).mp hn with hn | rfl
    · exact hc.node_sys n hn
    · exact h.sys
  case node_bw => exact hc.node_registration h extensive_bw hc.node_bw h.bw
  case node_ram => exact hc.node_registration h extensive_ram hc.node_ram h.ram
  case policy_nonneg =>
    apply hc.forall_policies h hc.policy_nonneg
    · show (0 : ℤ) ≤ 500 ∧ (0 : ℤ) ≤ 500 ∧ (0 : ℤ) ≤ 80
      decide
    · exact ⟨le_rfl, le_rfl, hallocation⟩
  case policy_price => exact hc.forall_policies h hc.policy_price hprice hprice
  case limit_net =>
    intro o
    rw [hsysioLimit.net, hlimit.net, hc.limit_net, hc.held_registration h extensive_net]
    rfl
  case limit_cpu =>
    intro o
    rw [hsysioLimit.cpu, hlimit.cpu, hc.limit_cpu, hc.held_registration h extensive_cpu]
    rfl
  case limit_ram =>
    intro o
    rw [hsysioLimit.ram, hlimit.ram, hc.limit_ram, hc.held_registration h extensive_ramBytes,
      add_assoc, add_assoc, add_assoc]
    rfl
  case grant_nonneg => exact hc.grant_nonneg

end Registration

/-! ### Sequences of actions -/

/-- What an event gives to an account by activation. -/
def Event.grants : Event → Name → ℤ
  | .act _ (.activateroa totalSys bytesPerUnit), o => activationGrant totalSys bytesPerUnit o
  | _, _ => 0

/-- What an account got by activation. -/
def granted (tr : List (Transition World Event)) (o : Name) : ℤ :=
  (tr.map fun t => t.event.grants o).sum

def Event.PositivePrice : Event → Prop
  | .act _ (.activateroa _ bytesPerUnit) => 0 < bytesPerUnit
  | .act _ (.setbyteprice bytesPerUnit) => 0 < bytesPerUnit
  | _ => True

instance : DecidablePred Event.PositivePrice
  | .act _ (.activateroa _ bytesPerUnit) => inferInstanceAs (Decidable (0 < bytesPerUnit))
  | .act _ (.setbyteprice bytesPerUnit) => inferInstanceAs (Decidable (0 < bytesPerUnit))
  | .act _ (.regnodeowner ..) | .act _ (.addpolicy ..) | .act _ (.expandpolicy ..)
  | .act _ (.extendpolicy ..) | .act _ (.reducepolicy ..) | .chain .. => .isTrue trivial

/-- **Every event keeps the tables in agreement.** -/
theorem Conserved.step {e : Event} (hc : Conserved grant w) (hprice : e.PositivePrice)
    (h : Step w e w') : Conserved (fun o => grant o + e.grants o) w' := by
  have hi := hc.toIssuers.step h
  -- all events but one give nothing
  have hsame : ∀ {w' : World}, Conserved grant w' → Conserved (fun o => grant o + 0) w' := by
    intro w' hc'
    simpa only [add_zero] using hc'
  cases e with
  | chain =>
    cases h
    exact hsame { hc with toIssuers := hi }
  | act auth action =>
    cases action with
    | activateroa => exact conserved_activateroa hc hi hprice h
    | setbyteprice => exact hsame (conserved_setbyteprice hc hi hprice h)
    | regnodeowner =>
      obtain ⟨state, sysioAllocation, node, hreg⟩ := regnodeowner_spec h
      exact hsame (hc.registration hreg hi)
    | addpolicy =>
      exact hsame (conserved_addpolicy hc h)
    | expandpolicy =>
      exact hsame (conserved_expandpolicy hc h)
    | extendpolicy => exact hsame (conserved_extendpolicy hc hi h)
    | reducepolicy =>
      exact hsame (conserved_reducepolicy hc h)

lemma conserved_of_run {w0 : World} (h0 : Conserved (fun _ => 0) w0) (hr : Run Step w0 tr w)
    (hprice : ∀ t ∈ tr, t.event.PositivePrice) : Conserved (granted tr) w := by
  induction hr with
  | nil => exact h0
  | @snoc tr w w' e _ hs ih =>
    have hc := ih fun t ht => hprice t (mem_append_left _ ht)
    have hstep := hc.step (hprice ⟨w, e, w'⟩ (by simp)) hs
    have hgranted : granted (tr ++ [⟨w, e, w'⟩]) = fun o => granted tr o + e.grants o := by
      funext o
      rw [granted, map_append, List.sum_append, granted, map_singleton, sum_singleton]
    rwa [hgranted]

/-- Only two accounts get anything by activation. -/
lemma granted_eq_zero {o : Name} (hsysio : o ≠ sysioName)
    (hroa : o ≠ sysioRoaName) : granted tr o = 0 := by
  apply sum_eq_zero
  intro x hx
  obtain ⟨t, -, rfl⟩ := List.mem_map.mp hx
  unfold Event.grants
  split
  · unfold activationGrant
    split
    · rw [if_neg hroa, if_neg hsysio, add_zero]
    · rfl
  · rfl

/-- **The ledger is conserved.**  After any sequence of successful actions, in which all prices are
positive, the allocations of each node owner are the sums over the policies it has issued, and the
limits of each account are its grant at activation and the sums over the policies for it, at the
price of each policy.  None of these is negative. -/
theorem ledger_conserved {limits : Name → Option AccountLimits} {ramUsage : Name → ℤ}
    {headBlockNum : ℕ} {tr : List (Transition World Event)} {w : World}
    (hr : Run Step (World.initial limits ramUsage headBlockNum) tr w)
    (hprice : ∀ t ∈ tr, t.event.PositivePrice) : (∀ node ∈ w.nodeowners,
      node.allocatedSys.amount = node.allocatedBw.amount + node.allocatedRam.amount ∧
      node.allocatedBw.amount = issued bw w.policies node.owner ∧
      node.allocatedRam.amount = issued ram w.policies node.owner ∧
      0 ≤ node.allocatedSys.amount ∧ 0 ≤ node.allocatedBw.amount ∧ 0 ≤ node.allocatedRam.amount) ∧
    (∀ o, limitOf net w.reslimit o = held net w.policies o ∧
      limitOf cpu w.reslimit o = held cpu w.policies o ∧
      limitOf ramBytes w.reslimit o = granted tr o + held ramBytes w.policies o ∧
      0 ≤ limitOf net w.reslimit o ∧ 0 ≤ limitOf cpu w.reslimit o ∧
      0 ≤ limitOf ramBytes w.reslimit o ∧ 0 ≤ granted tr o ∧
      (o ≠ sysioName → o ≠ sysioRoaName → granted tr o = 0)) ∧
    ∀ p ∈ w.policies, 0 ≤ p.net ∧ 0 ≤ p.cpu ∧ 0 ≤ p.ram := by
  have hc := conserved_of_run (conserved_initial limits ramUsage headBlockNum) hr hprice
  refine ⟨?_, ?_, hc.policy_nonneg⟩
  · intro node hnode
    have hbw : 0 ≤ node.allocatedBw.amount := by
      rw [hc.node_bw node hnode]
      apply issued_nonneg
      intro p hp
      obtain ⟨hnet, hcpu, -⟩ := hc.policy_nonneg p hp
      exact add_nonneg hnet hcpu
    have hram : 0 ≤ node.allocatedRam.amount := by
      rw [hc.node_ram node hnode]
      exact issued_nonneg (fun p hp => (hc.policy_nonneg p hp).2.2) _
    have hsys := hc.node_sys node hnode
    exact ⟨hsys, hc.node_bw node hnode, hc.node_ram node hnode, by omega, hbw, hram⟩
  · intro o
    have hnet : 0 ≤ held net w.policies o := held_nonneg (fun p hp => (hc.policy_nonneg p hp).1) o
    have hcpu : 0 ≤ held cpu w.policies o := held_nonneg (fun p hp => (hc.policy_nonneg p hp).2.1) o
    have hram : 0 ≤ held ramBytes w.policies o := by
      apply held_nonneg
      intro p hp
      exact mul_nonneg (hc.policy_nonneg p hp).2.2 (Int.natCast_nonneg _)
    refine ⟨hc.limit_net o, hc.limit_cpu o, hc.limit_ram o, ?_, ?_, ?_, hc.grant_nonneg o,
      granted_eq_zero⟩
    · rwa [hc.limit_net o]
    · rwa [hc.limit_cpu o]
    · rw [hc.limit_ram o]
      exact add_nonneg (hc.grant_nonneg o) hram

/-! ### A concrete sequence -/

/-- The token of the chain, with four digits. -/
def demoSymbol : Symbol := ⟨0x53595304⟩

def demoNode : Name := ⟨5⟩

/-- An account that is given resources. -/
def demoUser : Name := ⟨6⟩

/-- A chain without limits, at block 10. -/
def demoWorld : World := World.initial (fun _ => some ⟨-1, -1, -1⟩) (fun _ => 0) 10

/-- The activation, at 104 bytes for a unit. -/
def demoActivation : Event := .act [sysioRoaName] (.activateroa ⟨1000000000, demoSymbol⟩ 104)

/-- The registration of the node owner, in tier 1. -/
def demoRegistration : Event := .act [sysioRoaName] (.regnodeowner demoNode 1)

/-- A policy is made, the price changes, the policy is expanded and then reduced while half a unit
of the RAM is in use. -/
def demoPolicy : List Event :=
  [.act [demoNode] (.addpolicy demoUser demoNode ⟨100, demoSymbol⟩ ⟨200, demoSymbol⟩
      ⟨30, demoSymbol⟩ 20 0),
    .act [sysioRoaName] (.setbyteprice 110),
    .act [demoNode] (.expandpolicy demoUser demoNode ⟨0, demoSymbol⟩ ⟨0, demoSymbol⟩
      ⟨10, demoSymbol⟩ 0),
    .chain (fun _ => some ⟨4160, 100, 200⟩) (fun _ => 52) 40,
    .act [demoNode] (.reducepolicy demoUser demoNode ⟨100, demoSymbol⟩ ⟨50, demoSymbol⟩
      ⟨40, demoSymbol⟩ 0)]

def next (w : World) (e : Event) : Option World := (applyEvent w e).toOption

lemma step_of_next {e : Event} (h : next w e = some w') : Step w e w' :=
  Result.eq_ok_of_toOption h

/-- One unit of RAM stays with the account after the reduction, at the old price. -/
theorem ledger_conserved_demo : ∃ tr w, Run Step demoWorld tr w ∧ tr.length = 7 ∧
    limitOf ramBytes w.reslimit demoUser = 104 ∧ limitOf ramBytes w.reslimit demoUser =
      granted tr demoUser + held ramBytes w.policies demoUser := by
  obtain ⟨tr, w, hr, hlength, hlimit, hprice⟩ := exists_run_of_carryOut next demoWorld
    (demoActivation :: demoRegistration :: demoPolicy) (fun _ _ _ => step_of_next)
    (P := fun tr w => tr.length = 7 ∧ limitOf ramBytes w.reslimit demoUser = 104 ∧
      ∀ t ∈ tr, t.event.PositivePrice) (by decide)
  obtain ⟨-, hlimits, -⟩ := ledger_conserved hr hprice
  exact ⟨tr, w, hr, hlength, hlimit, (hlimits demoUser).2.2.1⟩

end Sysio.Roa
