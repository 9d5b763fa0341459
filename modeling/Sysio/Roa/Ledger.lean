import Mathlib.Algebra.Order.BigOperators.Group.List
import Sysio.Roa.Issuers

/-!
# The ledger of resource ownership

The policies alone determine what each node owner has given away and what each account has got
(`issued`, `held`).  The contract keeps both in tables of their own, changes them step by step in
seven actions, one of them native, and lets the price of RAM change in between.  `Conserved` says
that the tables agree with the policies.  Here are the quantities and the actions on a single
policy; `Conservation` has the rest and what follows for sequences of actions.
-/

namespace Sysio.Roa

open Table Policy List

variable {f : Policy → Name} {bytesPerUnit networkGen newTimeBlock timeBlock : ℕ}

/-! ### What the policies amount to -/

section

variable (p : Policy)

def Policy.bw : ℤ := p.netWeight.amount + p.cpuWeight.amount

def Policy.net : ℤ := p.netWeight.amount

def Policy.cpu : ℤ := p.cpuWeight.amount

def Policy.ram : ℤ := p.ramWeight.amount

/-- The RAM of a policy in bytes, at its own price. -/
def Policy.ramBytes : ℤ := p.ramWeight.amount * p.bytesPerUnit

end

/-- The sum of a quantity over all policies of an issuer. -/
def issued (q : Policy → ℤ) (ps : Policies) (issuer : Name) : ℤ :=
  ps.sumBy fun p => if p.issuer = issuer then q p else 0

/-- The sum of a quantity over all issuers' policies for an owner. -/
def held (q : Policy → ℤ) (ps : Policies) (owner : Name) : ℤ :=
  ps.sumBy fun p => if p.owner = owner then q p else 0

section Totals

variable {q : Policy → ℤ} {ps ps' : Policies} {p p' : Policy}

/-- Quantities that vanish when the weights do. -/
def Extensive (q : Policy → ℤ) : Prop := ∀ p : Policy, p.AllZero → q p = 0

lemma extensive_bw : Extensive bw := by
  rintro p ⟨hnet, hcpu, -⟩
  rw [bw, hnet, hcpu, add_zero]

lemma extensive_net : Extensive net := fun _ h => h.1

lemma extensive_cpu : Extensive cpu := fun _ h => h.2.1

lemma extensive_ram : Extensive ram := fun _ h => h.2.2

lemma extensive_ramBytes : Extensive ramBytes := by
  rintro p ⟨-, -, hram⟩
  rw [ramBytes, hram, zero_mul]

/-- Changing a policy changes the sum over its issuer, or over its owner, by the difference. -/
lemma sumBy_exchange (hq : Extensive q) (h : Exchange ps ps' p p')
    (hp : f p' = f p) (n : Name) : (ps'.sumBy fun p => if f p = n then q p else 0) =
      (ps.sumBy fun p => if f p = n then q p else 0) + if n = f p then q p' - q p else 0 := by
  have hsum := h.sum (fun r => if f r = n then q r else 0) fun r hr => by
    rw [hq r hr, ite_self]
  rw [hp] at hsum
  by_cases hn : n = f p
  · rw [if_pos hn.symm, if_pos hn.symm] at hsum
    rw [if_pos hn]
    omega
  · rw [if_neg (Ne.symm hn), if_neg (Ne.symm hn)] at hsum
    rw [if_neg hn]
    omega

lemma issued_exchange (hq : Extensive q) (h : Exchange ps ps' p p') (hp : p'.issuer = p.issuer)
    (n : Name) : issued q ps' n = issued q ps n + if n = p.issuer then q p' - q p else 0 :=
  sumBy_exchange hq h hp n

lemma held_exchange (hq : Extensive q) (h : Exchange ps ps' p p') (hp : p'.owner = p.owner)
    (o : Name) : held q ps' o = held q ps o + if o = p.owner then q p' - q p else 0 :=
  sumBy_exchange hq h hp o

section

variable (hq : Extensive q) (h : ps.find? (p.issuer, p.owner) = none)
include hq h

lemma sumBy_insert (hf : f p.zeroed = f p) (n : Name) :
    ((ps.insert p).sumBy fun p => if f p = n then q p else 0) =
      (ps.sumBy fun p => if f p = n then q p else 0) + if n = f p then q p else 0 := by
  have hzero : q p.zeroed = 0 := hq _ ⟨rfl, rfl, rfl⟩
  have h := sumBy_exchange hq (.insert h) (p := p.zeroed) hf.symm n
  rwa [hzero, sub_zero, hf] at h

lemma issued_insert (n : Name) :
    issued q (ps.insert p) n = issued q ps n + if n = p.issuer then q p else 0 :=
  sumBy_insert hq h rfl n

lemma held_insert (o : Name) :
    held q (ps.insert p) o = held q ps o + if o = p.owner then q p else 0 :=
  sumBy_insert hq h rfl o

end

lemma sumBy_nonneg {f : Policy → ℤ} (h : ∀ p ∈ ps, 0 ≤ f p) : 0 ≤ ps.sumBy f := by
  apply sum_nonneg
  intro x hx
  obtain ⟨p, hp, rfl⟩ := mem_map.mp hx
  exact h p hp

lemma issued_nonneg (h : ∀ p ∈ ps, 0 ≤ q p) (n : Name) : 0 ≤ issued q ps n :=
  sumBy_nonneg fun p hp => by split_ifs <;> simp [h p hp]

lemma held_nonneg (h : ∀ p ∈ ps, 0 ≤ q p) (o : Name) : 0 ≤ held q ps o :=
  sumBy_nonneg fun p hp => by split_ifs <;> simp [h p hp]

lemma issued_eq_zero {n : Name} (h : ∀ p ∈ ps, p.issuer ≠ n) : issued q ps n = 0 := by
  apply sum_eq_zero
  intro x hx
  obtain ⟨p, hp, rfl⟩ := mem_map.mp hx
  exact if_neg (h p hp)

end Totals

/-! ### The invariant -/

/-- **The tables agree with the policies**, where `grant` is the RAM that accounts got by
activation. -/
structure Conserved (grant : Name → ℤ) (w : World) : Prop extends Issuers w where
  state_price : ∀ state, w.roastate = some state → 0 < state.bytesPerUnit
  node_sys : ∀ node ∈ w.nodeowners,
    node.allocatedSys.amount = node.allocatedBw.amount + node.allocatedRam.amount
  node_bw : ∀ node ∈ w.nodeowners, node.allocatedBw.amount = issued Policy.bw w.policies node.owner
  node_ram : ∀ node ∈ w.nodeowners,
    node.allocatedRam.amount = issued Policy.ram w.policies node.owner
  policy_nonneg : ∀ p ∈ w.policies, 0 ≤ p.net ∧ 0 ≤ p.cpu ∧ 0 ≤ p.ram
  policy_price : ∀ p ∈ w.policies, 0 < p.bytesPerUnit
  limit_net : ∀ o, limitOf ResLimit.net w.reslimit o = held Policy.net w.policies o
  limit_cpu : ∀ o, limitOf ResLimit.cpu w.reslimit o = held Policy.cpu w.policies o
  limit_ram : ∀ o, limitOf ResLimit.ramBytes w.reslimit o =
    grant o + held Policy.ramBytes w.policies o
  grant_nonneg : ∀ o, 0 ≤ grant o

lemma conserved_initial (limits : Name → Option AccountLimits) (ramUsage : Name → ℤ)
    (headBlockNum : ℕ) : Conserved (fun _ => 0) (World.initial limits ramUsage headBlockNum) where
  toIssuers := issuers_initial limits ramUsage headBlockNum
  state_price _ h := by cases h
  node_sys _ h := by cases h
  node_bw _ h := by cases h
  node_ram _ h := by cases h
  policy_nonneg _ h := by cases h
  policy_price _ h := by cases h
  limit_net _ := rfl
  limit_cpu _ := rfl
  limit_ram _ := rfl
  grant_nonneg _ := le_rfl

/-! ### Changes of a policy -/

section Change

variable {grant : Name → ℤ} {w w' : World} {p p' : Policy} {net cpu ram : ℤ}

section

variable (hc : Conserved grant w)
include hc

/-- The row of each node owner follows the change if the policy is its own. -/
lemma Conserved.node_change (h : PolicyChange w w' p p' net cpu ram)
    {n' : NodeOwner} (hn' : n' ∈ w'.nodeowners) : ∃ n ∈ w.nodeowners, AllocationChange n n'
      (if n.owner = p.issuer then net else 0) (if n.owner = p.issuer then cpu else 0)
      (if n.owner = p.issuer then ram else 0) := by
  obtain ⟨gen, node, node', hfind, hnodes, hchange⟩ := h.node
  obtain ⟨hnode, hkey⟩ := Table.find?_eq_some.mp hfind
  obtain ⟨-, howner⟩ := Prod.mk.inj hkey
  rw [hnodes] at hn'
  rcases mem_of_mem_upsert hn' with ⟨hmem, hne⟩ | rfl
  · refine ⟨n', hmem, ?_⟩
    -- another row of the same name would have the same key
    have hother : n'.owner ≠ p.issuer := by
      rintro heq
      apply hne
      rw [hchange.gen_eq, hchange.owner_eq]
      exact hc.node_key hmem hnode (heq.trans howner.symm)
    rw [if_neg hother, if_neg hother, if_neg hother]
    exact ⟨rfl, rfl, by omega, by omega, by omega⟩
  · refine ⟨node, hnode, ?_⟩
    rwa [if_pos howner, if_pos howner, if_pos howner]

/-- **A change of a policy keeps the tables in agreement.** -/
theorem Conserved.change (h : PolicyChange w w' p p' net cpu ram) (hprice : 0 < p.bytesPerUnit)
    (hnonneg : 0 ≤ p'.net ∧ 0 ≤ p'.cpu ∧ 0 ≤ p'.ram) : Conserved grant w' := by
  -- the differences of the quantities that are summed up
  have hnet : p'.net - p.net = net := by
    rw [Policy.net, Policy.net, h.net_eq, add_sub_cancel_left]
  have hcpu : p'.cpu - p.cpu = cpu := by
    rw [Policy.cpu, Policy.cpu, h.cpu_eq, add_sub_cancel_left]
  have hram : p'.ram - p.ram = ram := by
    rw [Policy.ram, Policy.ram, h.ram_eq, add_sub_cancel_left]
  have hbw : p'.bw - p.bw = net + cpu := by
    rw [← hnet, ← hcpu, Policy.bw, Policy.bw, Policy.net, Policy.net, Policy.cpu, Policy.cpu]
    ring
  have hbytes : p'.ramBytes - p.ramBytes = ram * p.bytesPerUnit := by
    rw [Policy.ramBytes, Policy.ramBytes, h.ram_eq, h.price_eq]
    ring
  constructor
  case toIssuers => exact hc.toIssuers.change h
  case state_price =>
    rw [h.roastate_eq]
    exact hc.state_price
  case node_sys =>
    intro n' hn'
    obtain ⟨n, hn, hchange⟩ := hc.node_change h hn'
    rw [hchange.sys, hchange.bw, hchange.ram, hc.node_sys n hn]
    ring
  case node_bw =>
    intro n' hn'
    obtain ⟨n, hn, hchange⟩ := hc.node_change h hn'
    rw [hchange.bw, hchange.owner_eq, issued_exchange extensive_bw h.exchange h.issuer_eq,
      hc.node_bw n hn, hbw]
    split_ifs <;> ring
  case node_ram =>
    intro n' hn'
    obtain ⟨n, hn, hchange⟩ := hc.node_change h hn'
    rw [hchange.ram, hchange.owner_eq, issued_exchange extensive_ram h.exchange h.issuer_eq,
      hc.node_ram n hn, hram]
  case policy_nonneg =>
    intro q hq
    rcases h.exchange.mem q hq with hq | rfl
    · exact hc.policy_nonneg q hq
    · exact hnonneg
  case policy_price =>
    intro q hq
    rcases h.exchange.mem q hq with hq | rfl
    · exact hc.policy_price q hq
    · rwa [h.price_eq]
  case limit_net =>
    intro o
    rw [h.limit.net, held_exchange extensive_net h.exchange h.owner_eq, hc.limit_net, hnet]
  case limit_cpu =>
    intro o
    rw [h.limit.cpu, held_exchange extensive_cpu h.exchange h.owner_eq, hc.limit_cpu, hcpu]
  case limit_ram =>
    intro o
    rw [h.limit.ram, held_exchange extensive_ramBytes h.exchange h.owner_eq, hc.limit_ram, hbytes]
    ring
  case grant_nonneg => exact hc.grant_nonneg

variable {auth : List Name} {netWeight cpuWeight ramWeight : Asset} {owner issuer : Name}

lemma conserved_addpolicy
    (h : addpolicy w auth owner issuer netWeight cpuWeight ramWeight timeBlock networkGen =
      .ok w') : Conserved grant w' := by
  obtain ⟨state, p, hstate, rfl, -, hnet, hcpu, hram, hchange, -⟩ := addpolicy_change h
  exact hc.change hchange (hc.state_price state hstate) ⟨hnet, hcpu, hram⟩

lemma conserved_expandpolicy
    (h : expandpolicy w auth owner issuer netWeight cpuWeight ramWeight networkGen = .ok w') :
    Conserved grant w' := by
  obtain ⟨p, p', hfind, hnet, hcpu, hram, hchange, -⟩ := expandpolicy_change h
  have hp : p ∈ w.policies := mem_of_find? hfind
  apply hc.change hchange (hc.policy_price p hp)
  obtain ⟨hnet0, hcpu0, hram0⟩ := hc.policy_nonneg p hp
  rw [net, cpu, ram, hchange.net_eq, hchange.cpu_eq, hchange.ram_eq]
  exact ⟨add_nonneg hnet0 hnet, add_nonneg hcpu0 hcpu, add_nonneg hram0 hram⟩

lemma conserved_reducepolicy
    (h : reducepolicy w auth owner issuer netWeight cpuWeight ramWeight networkGen = .ok w') :
    Conserved grant w' := by
  obtain ⟨p, p', reclaimed, hfind, hnet, hcpu, hram, hchange, -, -⟩ := reducepolicy_change h
  exact hc.change hchange (hc.policy_price p (mem_of_find? hfind)) ⟨hnet, hcpu, hram⟩

/-- The time block of a policy is no part of any sum. -/
lemma conserved_extendpolicy (hi : Issuers w')
    (h : extendpolicy w auth owner issuer newTimeBlock = .ok w') : Conserved grant w' := by
  obtain ⟨p, hfind, rfl⟩ := extendpolicy_spec h
  obtain ⟨rfl, rfl⟩ := issuer_owner_of_find? hfind
  set p' : Policy := { p with timeBlock := newTimeBlock }
  have hp : p ∈ w.policies := mem_of_find? hfind
  have hexchange : Exchange w.policies (w.policies.upsert p') p p' := .upsert hfind
  have hissued : ∀ q, Extensive q → q p' = q p → ∀ n,
      issued q (w.policies.upsert p') n = issued q w.policies n := by
    intro q hq heq n
    rw [issued_exchange hq hexchange rfl, heq, sub_self, ite_self, add_zero]
  have hheld : ∀ q, Extensive q → q p' = q p → ∀ o,
      held q (w.policies.upsert p') o = held q w.policies o := by
    intro q hq heq o
    rw [held_exchange hq hexchange rfl, heq, sub_self, ite_self, add_zero]
  -- whatever holds of the old policy and does not depend on the time block holds of the new one
  have hall : ∀ P : Policy → Prop, (∀ r ∈ w.policies, P r) → (P p → P p') →
      ∀ r ∈ w.policies.upsert p', P r := by
    intro P hP hPp r hr
    rcases hexchange.mem r hr with hr | rfl
    · exact hP r hr
    · exact hPp (hP p hp)
  exact { hc with
    toIssuers := hi
    node_bw := fun node hnode => by
      rw [hissued _ extensive_bw rfl]
      exact hc.node_bw node hnode
    node_ram := fun node hnode => by
      rw [hissued _ extensive_ram rfl]
      exact hc.node_ram node hnode
    policy_nonneg := hall _ hc.policy_nonneg id
    policy_price := hall _ hc.policy_price id
    limit_net := fun o => by
      rw [hheld _ extensive_net rfl]
      exact hc.limit_net o
    limit_cpu := fun o => by
      rw [hheld _ extensive_cpu rfl]
      exact hc.limit_cpu o
    limit_ram := fun o => by
      rw [hheld _ extensive_ramBytes rfl]
      exact hc.limit_ram o }

/-- A new price is for new policies only. -/
lemma conserved_setbyteprice (hi : Issuers w') (hprice : 0 < bytesPerUnit)
    (h : setbyteprice w auth bytesPerUnit = .ok w') : Conserved grant w' := by
  obtain ⟨state, hstate, rfl⟩ := setbyteprice_spec h
  refine { hc with toIssuers := hi, state_price := ?_ }
  rintro _ ⟨⟩
  exact hprice

end

end Change

end Sysio.Roa
