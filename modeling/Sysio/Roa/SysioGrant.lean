import Sysio.Roa.Conservation

/-!
# What a registration gives to `sysio`

A registration gives a tenth of the node owner's SYS as RAM to `sysio`, by a policy with time block
1, and `reducepolicy` refuses to reduce such a policy.  But `extendpolicy` sets another time block,
and the policy is then like any other: after that block its issuer can take the RAM back
(`exists_sysio_grant_removed`).  As long as no reduction follows an extension, the policy stays
(`sysio_grant_kept`).
-/

namespace Sysio.Roa

open List Option Table

variable {state : RoaState} {n : Name} {allocation net ram sysioAllocation : Asset}
  {tr : List (Transition World Event)} {w w' : World} {issuer owner : Name} {p : Policy}

def Event.Extends (issuer owner : Name) : Event → Prop
  | .act _ (.extendpolicy owner' issuer' _) => issuer' = issuer ∧ owner' = owner
  | _ => False

def Event.Reduces (issuer owner : Name) : Event → Prop
  | .act _ (.reducepolicy owner' issuer' _ _ _ _) => issuer' = issuer ∧ owner' = owner
  | _ => False

instance (issuer owner : Name) : DecidablePred (Event.Extends issuer owner)
  | .act _ (.extendpolicy owner' issuer' _) =>
    inferInstanceAs (Decidable (issuer' = issuer ∧ owner' = owner))
  | .act _ (.activateroa ..) | .act _ (.setbyteprice ..) | .act _ (.regnodeowner ..)
  | .act _ (.addpolicy ..) | .act _ (.expandpolicy ..) | .act _ (.reducepolicy ..)
  | .chain .. => .isFalse id

instance (issuer owner : Name) : DecidablePred (Event.Reduces issuer owner)
  | .act _ (.reducepolicy owner' issuer' _ _ _ _) =>
    inferInstanceAs (Decidable (issuer' = issuer ∧ owner' = owner))
  | .act _ (.activateroa ..) | .act _ (.setbyteprice ..) | .act _ (.regnodeowner ..)
  | .act _ (.addpolicy ..) | .act _ (.expandpolicy ..) | .act _ (.extendpolicy ..)
  | .chain .. => .isFalse id

/-! ### The fate of a policy -/

section Rows

variable {ps : Policies} {q : Policy}

section

variable (h : ps.find? (issuer, owner) = some p)
include h

lemma find?_upsert_of_ne (hne : ¬ (q.issuer = issuer ∧ q.owner = owner)) :
    (ps.upsert q).find? (issuer, owner) = some p := by
  rw [find?_upsert, if_neg, h]
  intro hkey
  exact hne (Prod.mk.inj hkey)

lemma find?_insert_of_some (hnone : ps.find? (q.issuer, q.owner) = none) :
    (ps.insert q).find? (issuer, owner) = some p := by
  rw [find?_insert hnone, if_neg, h]
  intro hkey
  rw [← hkey, hnone] at h
  cases h

lemma find?_storePolicy_of_ne (hne : ¬ (q.issuer = issuer ∧ q.owner = owner)) :
    (storePolicy ps q).find? (issuer, owner) = some p := by
  unfold storePolicy
  split_ifs with hzero
  · rw [find?_erase, if_neg, h]
    intro hkey
    exact hne (Prod.mk.inj hkey.symm)
  · exact find?_upsert_of_ne h hne

end

/-- A policy stays when a node owner is registered, whoever that is. -/
lemma find?_registrationPolicies (h : w.policies.find? (issuer, owner) = some p)
    (hreg : registrationPolicies w n state net ram allocation = .ok ps) :
    ps.find? (issuer, owner) = some p := by
  unfold registrationPolicies at hreg
  split_ifs at hreg with hnone
  · simp only [Result.bind_eq_ok, emplace_eq_ok] at hreg
    obtain ⟨_, ⟨hpersonal, rfl⟩, hsysio, rfl⟩ := hreg
    exact find?_insert_of_some (find?_insert_of_some h hpersonal) hsysio
  · cases hreg
    exact h

end Rows

/-- **What an event can do to a policy**: reduce it, which needs that it is not protected, or leave
it there with no less RAM, and with the same time block unless it is extended. -/
theorem policy_of_step {e : Event} (h : Step w e w')
    (hp : w.policies.find? (issuer, owner) = some p) :
    (e.Reduces issuer owner ∧ ¬ (isSysioAccount owner = true ∧ p.timeBlock = 1)) ∨
      ∃ p', w'.policies.find? (issuer, owner) = some p' ∧ p.ram ≤ p'.ram ∧
        (e.Extends issuer owner ∨ p'.timeBlock = p.timeBlock) := by
  cases e with
  | chain =>
    cases h
    exact .inr ⟨p, hp, le_rfl, .inr rfl⟩
  | act auth action =>
    cases action with
    | activateroa =>
      obtain ⟨_, _, _, -, -, -, hpolicies, -⟩ := activateroa_spec h
      exact .inr ⟨p, hpolicies ▸ hp, le_rfl, .inr rfl⟩
    | setbyteprice =>
      obtain ⟨state, -, rfl⟩ := setbyteprice_spec h
      exact .inr ⟨p, hp, le_rfl, .inr rfl⟩
    | regnodeowner =>
      obtain ⟨state, sysioAllocation, node, hreg⟩ := regnodeowner_spec h
      exact .inr ⟨p, find?_registrationPolicies hp hreg.policies, le_rfl, .inr rfl⟩
    | addpolicy =>
      obtain ⟨state, q, -, rfl, hnone, -, -, -, -, hpolicies⟩ := addpolicy_change h
      exact .inr ⟨p, hpolicies ▸ find?_insert_of_some hp hnone, le_rfl, .inr rfl⟩
    | expandpolicy =>
      obtain ⟨q, q', hq, -, -, hram, hchange, hpolicies⟩ := expandpolicy_change h
      obtain ⟨rfl, rfl⟩ := issuer_owner_of_find? hq
      refine .inr ?_
      rw [hpolicies]
      by_cases hkey : q'.issuer = issuer ∧ q'.owner = owner
      · -- it is this policy that is expanded
        obtain ⟨rfl, rfl⟩ := hkey
        rw [← hchange.issuer_eq, ← hchange.owner_eq, hp] at hq
        obtain rfl := some.inj hq
        refine ⟨q', ?_, ?_, .inr hchange.time_eq⟩
        · rw [find?_upsert, if_pos rfl]
        · have hram' := hchange.ram_eq
          show p.ramWeight.amount ≤ q'.ramWeight.amount
          omega
      · exact ⟨p, find?_upsert_of_ne hp hkey, le_rfl, .inr rfl⟩
    | extendpolicy o n newTimeBlock =>
      obtain ⟨q, hq, rfl⟩ := extendpolicy_spec h
      obtain ⟨rfl, rfl⟩ := issuer_owner_of_find? hq
      refine .inr ?_
      by_cases hkey : q.issuer = issuer ∧ q.owner = owner
      · obtain ⟨rfl, rfl⟩ := hkey
        obtain rfl := some.inj (hp.symm.trans hq)
        refine ⟨{ p with timeBlock := newTimeBlock }, ?_, le_rfl, .inl ⟨rfl, rfl⟩⟩
        exact (find?_upsert _ _ _).trans (if_pos rfl)
      · exact ⟨p, find?_upsert_of_ne hp hkey, le_rfl, .inr rfl⟩
    | reducepolicy =>
      obtain ⟨q, q', reclaimed, hq, -, -, -, hchange, hpolicies, hguard⟩ := reducepolicy_change h
      obtain ⟨rfl, rfl⟩ := issuer_owner_of_find? hq
      by_cases hkey : q.issuer = issuer ∧ q.owner = owner
      · obtain ⟨rfl, rfl⟩ := hkey
        obtain rfl := some.inj (hp.symm.trans hq)
        exact .inl ⟨⟨rfl, rfl⟩, hguard⟩
      · refine .inr ⟨p, ?_, le_rfl, .inr rfl⟩
        rw [hpolicies]
        apply find?_storePolicy_of_ne hp
        rwa [hchange.issuer_eq, hchange.owner_eq]

/-! ### Sequences of actions -/

/-- No reduction of the policy follows an extension of it. -/
def NoReductionAfterExtension (issuer owner : Name) (tr : List (Transition World Event)) : Prop :=
  tr.Pairwise fun t t' => ¬ (t.event.Extends issuer owner ∧ t'.event.Reduces issuer owner)

/-- A policy with time block 1 for an account of the system is reduced only after an extension. -/
lemma policy_of_run (hr : Run Step w tr w')
    (hp : w.policies.find? (issuer, owner) = some p) (hsysio : isSysioAccount owner = true)
    (htime : p.timeBlock = 1) (horder : NoReductionAfterExtension issuer owner tr) :
    ∃ p', w'.policies.find? (issuer, owner) = some p' ∧ p.ram ≤ p'.ram ∧
      (p'.timeBlock = 1 ∨ ∃ t ∈ tr, t.event.Extends issuer owner) := by
  induction hr with
  | nil => exact ⟨p, hp, le_rfl, .inl htime⟩
  | @snoc tr w1 w2 e _ hs ih =>
    obtain ⟨horder, -, hlast⟩ := pairwise_append.mp horder
    have hnot : ∀ t ∈ tr, t.event.Extends issuer owner → ¬ e.Reduces issuer owner :=
      fun t ht hext hred => hlast t ht _ (mem_singleton_self _) ⟨hext, hred⟩
    obtain ⟨p1, hp1, hram1, htime1⟩ := ih horder
    rcases policy_of_step hs hp1 with ⟨hred, hguard⟩ | ⟨p2, hp2, hram2, htime2⟩
    · -- the guard of `reducepolicy` fails only after an extension
      rcases htime1 with htime1 | ⟨t, ht, hext⟩
      · exact absurd ⟨hsysio, htime1⟩ hguard
      · exact absurd hred (hnot t ht hext)
    · refine ⟨p2, hp2, hram1.trans hram2, ?_⟩
      rcases htime2 with hext | htime2
      · exact .inr ⟨_, mem_append_right _ (mem_singleton_self _), hext⟩
      · rw [htime2]
        apply htime1.imp_right
        rintro ⟨t, ht, hext⟩
        exact ⟨t, mem_append_left _ ht, hext⟩

/-- A registration makes a policy for `sysio`, with time block 1. -/
lemma Issuers.find?_sysioPolicy (hi : Issuers w) {node : NodeOwner}
    (h : Registration w w' n state sysioAllocation node) : w.policies.find? (n, sysioName) = none ∧
      w'.policies.find? (n, sysioName) = some (sysioPolicy n state sysioAllocation) := by
  obtain ⟨-, hnone, hpolicies⟩ := hi.registration h
  constructor
  · apply Table.find?_eq_none.mpr
    intro q hq hkey
    exact hi.issuer_ne (hi.free h) q hq (Prod.mk.inj hkey).1
  · rw [hpolicies]
    exact (find?_insert hnone _).trans (if_pos rfl)

/-- **The grant to `sysio` is kept** in every sequence of actions in which no reduction of the
policy follows an extension of it: the policy that the registration has made is there, with no less
RAM. -/
theorem sysio_grant_kept {limits : Name → Option AccountLimits} {ramUsage : Name → ℤ}
    {headBlockNum tier : ℕ} {auth : List Name} {n : Name} {w₀ w₁ w : World}
    {tr₀ tr : List (Transition World Event)}
    (hr₀ : Run Step (World.initial limits ramUsage headBlockNum) tr₀ w₀)
    (hreg : Step w₀ (.act auth (.regnodeowner n tier)) w₁) (hr : Run Step w₁ tr w)
    (horder : NoReductionAfterExtension n sysioName tr) : w₀.policies.find? (n, sysioName) = none ∧
      ∃ p₁ p, w₁.policies.find? (n, sysioName) = some p₁ ∧
        w.policies.find? (n, sysioName) = some p ∧ p₁.ram ≤ p.ram := by
  have hi : Issuers w₀ :=
    Run.invariant (issuers_initial limits ramUsage headBlockNum) (fun _ _ _ hi h => hi.step h) hr₀
  obtain ⟨state, sysioAllocation, node, hreg⟩ := regnodeowner_spec hreg
  obtain ⟨hnone, hp1⟩ := hi.find?_sysioPolicy hreg
  have hsysio : isSysioAccount sysioName = true := by
    decide
  obtain ⟨p, hp, hram, -⟩ := policy_of_run hr hp1 hsysio rfl horder
  exact ⟨hnone, _, p, hp1, hp, hram⟩

/-- The state after the activation and the registration, and what `events` lead to from there. -/
def afterRegistration (events : World → List Event) :
    Option ((World × World) × List (Transition World Event) × World) := do
  let w₀ ← next demoWorld demoActivation
  let w₁ ← next w₀ demoRegistration
  let r ← carryOut next w₁ (events w₁)
  pure ((w₀, w₁), r)

lemma run_of_afterRegistration {events : World → List Event} {w0 w1 : World}
    (h : afterRegistration events = some ((w0, w1), tr, w)) :
    (∃ tr0, Run Step demoWorld tr0 w0) ∧ Step w0 demoRegistration w1 ∧ Run Step w1 tr w ∧
      tr.map Transition.event = events w1 := by
  simp only [afterRegistration, bind_eq_bind, bind_eq_some_iff, Option.pure_def,
    some.injEq, Prod.mk.injEq] at h
  obtain ⟨_, h0, _, h1, _, hr, ⟨rfl, rfl⟩, rfl⟩ := h
  exact ⟨⟨_, Run.nil.snoc (step_of_next h0)⟩, step_of_next h1,
    Run.of_carryOut (fun _ _ _ => step_of_next) hr⟩

/-- The node owner expands the policy for `sysio`, and extends it later on. -/
def demoKept (_ : World) : List Event :=
  [.act [demoNode] (.expandpolicy sysioName demoNode ⟨0, demoSymbol⟩ ⟨0, demoSymbol⟩
      ⟨50, demoSymbol⟩ 0),
    .act [demoNode] (.addpolicy demoUser demoNode ⟨100, demoSymbol⟩ ⟨200, demoSymbol⟩
      ⟨30, demoSymbol⟩ 20 0),
    .chain (fun _ => some ⟨3120, 100, 200⟩) (fun _ => 52) 40,
    .act [demoNode] (.reducepolicy demoUser demoNode ⟨100, demoSymbol⟩ ⟨50, demoSymbol⟩
      ⟨30, demoSymbol⟩ 0),
    .act [demoNode] (.extendpolicy sysioName demoNode 100)]

theorem sysio_grant_kept_demo : ∃ w₁ tr w p₁ p, Run Step w₁ tr w ∧ tr.length = 5 ∧
    w₁.policies.find? (demoNode, sysioName) = some p₁ ∧ p₁.ram = 4000000 ∧
    w.policies.find? (demoNode, sysioName) = some p ∧ p₁.ram ≤ p.ram := by
  have hP : ((afterRegistration demoKept).any fun r =>
      (r.1.2.policies.find? (demoNode, sysioName)).any fun p => decide (p.ram = 4000000)) =
        true := by
    decide
  obtain ⟨⟨⟨w0, w₁⟩, tr, w⟩, hafter, hP⟩ := (Option.any_eq_true _ _).mp hP
  obtain ⟨⟨tr0, hr0⟩, hreg, hr, hevents⟩ := run_of_afterRegistration hafter
  have horder : NoReductionAfterExtension demoNode sysioName tr := by
    have hpairs : (demoKept w₁).Pairwise fun e e' =>
        ¬ (e.Extends demoNode sysioName ∧ e'.Reduces demoNode sysioName) := by
      unfold demoKept
      decide
    rw [← hevents] at hpairs
    exact pairwise_map.mp hpairs
  obtain ⟨-, p₁, p, hp1, hp, hram⟩ := sysio_grant_kept hr0 hreg hr horder
  refine ⟨w₁, tr, w, p₁, p, hr, ?_, hp1, ?_, hp, hram⟩
  · rw [← length_map Transition.event, hevents]
    rfl
  · rw [hp1] at hP
    exact of_decide_eq_true hP

/-- The node owner extends the policy for `sysio` to block 100, and takes all of the RAM back at
block 200.  Limits and usage of the accounts are what they were. -/
def demoRemoval (w : World) : List Event :=
  [.act [demoNode] (.extendpolicy sysioName demoNode 100), .chain w.limits w.ramUsage 200,
    .act [demoNode] (.reducepolicy sysioName demoNode ⟨0, demoSymbol⟩ ⟨0, demoSymbol⟩
      ⟨4000000, demoSymbol⟩ 0)]

/-- **The grant to `sysio` can be taken back**, down to the removal of the policy. -/
theorem exists_sysio_grant_removed : ∃ tr₀ w₀ w₁ tr w p₁, Run Step demoWorld tr₀ w₀ ∧
    Step w₀ demoRegistration w₁ ∧ w₁.policies.find? (demoNode, sysioName) = some p₁ ∧
    p₁.ram = 4000000 ∧ Run Step w₁ tr w ∧ tr.map Transition.event = demoRemoval w₁ ∧
    w.policies.find? (demoNode, sysioName) = none := by
  have hP : ((afterRegistration demoRemoval).any fun r =>
      (r.1.2.policies.find? (demoNode, sysioName)).any (fun p => decide (p.ram = 4000000)) &&
        (r.2.2.policies.find? (demoNode, sysioName)).isNone) = true := by
    decide
  obtain ⟨⟨⟨w₀, w₁⟩, tr, w⟩, hafter, hP⟩ := (Option.any_eq_true _ _).mp hP
  obtain ⟨⟨tr₀, hr0⟩, hreg, hr, hevents⟩ := run_of_afterRegistration hafter
  rw [Bool.and_eq_true, isNone_iff_eq_none] at hP
  obtain ⟨p₁, hp1, hram⟩ := (Option.any_eq_true _ _).mp hP.1
  exact ⟨tr₀, w₀, w₁, tr, w, p₁, hr0, hreg, hp1, of_decide_eq_true hram, hr, hevents, hP.2⟩

end Sysio.Roa
