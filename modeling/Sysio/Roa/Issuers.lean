import Sysio.Data.Run
import Sysio.Roa.Effects

/-!
# Issuers of policies

All node owners are registered for generation 0 of the network, and only they issue policies
(`Issuers`).  So a registration finds no policies of the new node owner, and makes both of its own
(`Issuers.registration`).
-/

namespace Sysio.Roa

open Table

/-- Every policy has a registered issuer. -/
structure Issuers (w : World) : Prop where
  state_gen : ∀ state, w.roastate = some state → state.networkGen = 0
  node_gen : ∀ node ∈ w.nodeowners, node.networkGen = 0
  policy_issuer : ∀ p ∈ w.policies, ∃ node ∈ w.nodeowners, node.owner = p.issuer

lemma issuers_initial (limits : Name → Option AccountLimits) (ramUsage : Name → ℤ)
    (headBlockNum : ℕ) : Issuers (World.initial limits ramUsage headBlockNum) where
  state_gen _ h := by cases h
  node_gen _ h := by cases h
  policy_issuer _ h := by cases h

variable {w w' : World}

namespace Issuers

/-- A name has one row of `nodeowners`. -/
lemma node_key (hi : Issuers w) {n1 n2 : NodeOwner} (h1 : n1 ∈ w.nodeowners)
    (h2 : n2 ∈ w.nodeowners) (h : n1.owner = n2.owner) :
    (n1.networkGen, n1.owner) = (n2.networkGen, n2.owner) := by
  rw [hi.node_gen n1 h1, hi.node_gen n2 h2, h]

/-- Nobody who is not registered has issued a policy. -/
lemma issuer_ne (hi : Issuers w) {owner : Name}
    (h : w.nodeowners.find? (0, owner) = none) : ∀ p ∈ w.policies, p.issuer ≠ owner := by
  rintro p hp rfl
  obtain ⟨node, hnode, howner⟩ := hi.policy_issuer p hp
  apply Table.find?_eq_none.mp h node hnode
  rw [hi.node_gen node hnode, howner]

section Registration

variable {owner : Name} {state : RoaState} {sysioAllocation : Asset} {node : NodeOwner}
  (h : Registration w w' owner state sysioAllocation node)
include h

lemma free (hi : Issuers w) : w.nodeowners.find? (0, owner) = none := by
  have hfree := h.free
  rwa [hi.state_gen state h.state_eq] at hfree

/-- **A registration makes two policies**, the first of the new node owner. -/
theorem registration (hi : Issuers w) : w.policies.find? (owner, owner) = none ∧
      (w.policies.insert (personalPolicy owner state)).find? (owner, sysioName) = none ∧
      w'.policies = (w.policies.insert (personalPolicy owner state)).insert
        (sysioPolicy owner state sysioAllocation) := by
  have hnone : w.policies.find? (owner, owner) = none := by
    apply Table.find?_eq_none.mpr
    intro p hp hkey
    exact hi.issuer_ne (hi.free h) p hp (Prod.mk.inj hkey).1
  exact ⟨hnone, registrationPolicies_spec hnone h.policies⟩

/-- What holds of the old policies and the two new ones holds of all policies. -/
lemma forall_policies (hi : Issuers w) {P : Policy → Prop} (hP : ∀ p ∈ w.policies, P p)
    (hpersonal : P (personalPolicy owner state))
    (hsysio : P (sysioPolicy owner state sysioAllocation)) : ∀ p ∈ w'.policies, P p := by
  obtain ⟨hnone, hnone', hpolicies⟩ := hi.registration h
  rw [hpolicies, forall_mem_insert hnone', forall_mem_insert hnone]
  exact ⟨⟨hP, hpersonal⟩, hsysio⟩

lemma mem_nodeowners {n : NodeOwner} : n ∈ w'.nodeowners ↔ n ∈ w.nodeowners ∨ n = node := by
  have hfree : w.nodeowners.find? (node.networkGen, node.owner) = none := by
    rw [h.gen_eq, h.owner_eq]
    exact h.free
  rw [h.nodeowners_eq]
  exact Table.mem_insert hfree

end Registration

/-! ### Steps -/

section Change

variable {p p' : Policy} {net cpu ram : ℤ}

lemma change (hi : Issuers w) (h : PolicyChange w w' p p' net cpu ram) : Issuers w' := by
  obtain ⟨gen, node, node', hfind, hnodes, hchange⟩ := h.node
  obtain ⟨hnode, hkey⟩ := Table.find?_eq_some.mp hfind
  have hnode' : node' ∈ w'.nodeowners := hnodes ▸ mem_upsert_self _ _
  constructor
  case state_gen =>
    rw [h.roastate_eq]
    exact hi.state_gen
  case node_gen =>
    intro n hn
    rw [hnodes] at hn
    rcases mem_of_mem_upsert hn with ⟨hn, -⟩ | rfl
    · exact hi.node_gen n hn
    · rw [hchange.gen_eq]
      exact hi.node_gen node hnode
  case policy_issuer =>
    intro q hq
    rcases h.exchange.mem q hq with hq | rfl
    · obtain ⟨n, hn, howner⟩ := hi.policy_issuer q hq
      by_cases hsame : (node'.networkGen, node'.owner) = (n.networkGen, n.owner)
      · exact ⟨node', hnode', (Prod.mk.inj hsame).2.trans howner⟩
      · exact ⟨n, hnodes ▸ mem_upsert_of_ne hn hsame, howner⟩
    · refine ⟨node', hnode', ?_⟩
      rw [hchange.owner_eq, h.issuer_eq]
      exact (Prod.mk.inj hkey).2

end Change

lemma step {e : Event} (hi : Issuers w) (h : Step w e w') : Issuers w' := by
  cases e with
  | chain =>
    cases h
    exact { hi with }
  | act auth action =>
    cases action with
    | activateroa =>
      obtain ⟨-, -, -, -, hstate, hnodes, hpolicies, -, -⟩ := activateroa_spec h
      constructor
      · rw [hstate]
        rintro _ ⟨⟩
        rfl
      · rw [hnodes]
        exact hi.node_gen
      · rw [hnodes, hpolicies]
        exact hi.policy_issuer
    | setbyteprice =>
      obtain ⟨state, hstate, rfl⟩ := setbyteprice_spec h
      refine { hi with state_gen := ?_ }
      rintro _ ⟨⟩
      exact hi.state_gen state hstate
    | regnodeowner =>
      obtain ⟨state, sysioAllocation, node, hreg⟩ := regnodeowner_spec h
      have hnode : node ∈ w'.nodeowners := (mem_nodeowners hreg).mpr (.inr rfl)
      constructor
      · rw [hreg.roastate_eq]
        exact hi.state_gen
      · intro n hn
        rcases (mem_nodeowners hreg).mp hn with hn | rfl
        · exact hi.node_gen n hn
        · exact hreg.gen_eq.trans (hi.state_gen state hreg.state_eq)
      · apply hi.forall_policies hreg (P := fun p => ∃ n ∈ w'.nodeowners, n.owner = p.issuer)
        · intro p hp
          obtain ⟨n, hn, howner⟩ := hi.policy_issuer p hp
          exact ⟨n, (mem_nodeowners hreg).mpr (.inl hn), howner⟩
        all_goals exact ⟨node, hnode, hreg.owner_eq⟩
    | addpolicy =>
      obtain ⟨_, _, -, -, -, -, -, -, hchange, -⟩ := addpolicy_change h
      exact hi.change hchange
    | expandpolicy =>
      obtain ⟨_, _, -, -, -, -, hchange, -⟩ := expandpolicy_change h
      exact hi.change hchange
    | extendpolicy =>
      obtain ⟨p, hfind, rfl⟩ := extendpolicy_spec h
      refine { hi with policy_issuer := ?_ }
      intro q hq
      rcases mem_of_mem_upsert hq with ⟨hq, -⟩ | rfl
      · exact hi.policy_issuer q hq
      · exact hi.policy_issuer p (mem_of_find? hfind)
    | reducepolicy =>
      obtain ⟨_, _, _, -, -, -, -, hchange, -⟩ := reducepolicy_change h
      exact hi.change hchange

end Issuers

end Sysio.Roa
