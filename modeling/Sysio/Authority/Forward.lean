import Sysio.Authority.Satisfaction
import Sysio.Data.Dominance

/-!
# Satisfaction along forward edges

A search does not count a permission that is still being evaluated.  Where that permission lies on
every path to the authority that refers to it, nothing is lost: if it is satisfied at all, it is so
without this reference.

`forwardSatisfiable` leaves such references out.  It depends on the permission that is searched, and
for that one it is the same as `satisfiable` (`root_mem_forwardSatisfiable_iff`).
-/

namespace Sysio.AuthorityChecker

open Relation Rooted

/-- The references from one permission to another that go forward in a search for the root. -/
abbrev forward (c : AuthorityChecker) (root : PermissionLevel) :
    PermissionLevel → PermissionLevel → Prop :=
  Forward c.permissions.Edge root

variable {c c' : AuthorityChecker} {root level : PermissionLevel} {X Y : Set PermissionLevel}

/-- The permissions in `X` that count in the authority of a level. -/
def counting (c : AuthorityChecker) (root level : PermissionLevel) (X : Set PermissionLevel) :
    Set PermissionLevel :=
  {l | l ∈ X ∧ ¬ Dominates c.permissions.Edge root l level}

lemma counting_mono (hXY : X ⊆ Y) : c.counting root level X ⊆ c.counting root level Y :=
  fun _ h => ⟨hXY h.1, h.2⟩

/-- The permissions that are satisfied along forward edges if those in `X` are. -/
noncomputable def forwardStep (c : AuthorityChecker) (root : PermissionLevel) :
    Set PermissionLevel →o Set PermissionLevel where
  toFun X := {level | level ∈ c.providedPermissions ∨ level.wildcard ∈ c.providedPermissions ∨
    ∃ auth, c.permissions.getPermission level = .ok auth ∧
      auth.threshold.toNat ≤ c.satisfiedWeight (c.counting root level X) auth}
  monotone' X Y hXY level := by
    rintro (h | h | ⟨auth, hauth, h⟩)
    · exact .inl h
    · exact .inr (.inl h)
    · refine .inr (.inr ⟨auth, hauth, h.trans ?_⟩)
      exact satisfiedWeight_mono (.refl c) (counting_mono hXY) auth

/-- **The permissions that are satisfied along forward edges**: the least set that holds the
provided permissions and each permission whose authority reaches its threshold with the permissions
of the set that count in it. -/
noncomputable def forwardSatisfiable (c : AuthorityChecker) (root : PermissionLevel) :
    Set PermissionLevel := (c.forwardStep root).lfp

lemma mem_forwardSatisfiable : level ∈ c.forwardSatisfiable root ↔
    level ∈ c.providedPermissions ∨ level.wildcard ∈ c.providedPermissions ∨
      ∃ auth, c.permissions.getPermission level = .ok auth ∧ auth.threshold.toNat ≤
        c.satisfiedWeight (c.counting root level (c.forwardSatisfiable root)) auth := by
  conv_lhs => rw [forwardSatisfiable, ← OrderHom.map_lfp]
  rfl

lemma mem_forwardSatisfiable_of_provided (h : level ∈ c.providedPermissions) :
    level ∈ c.forwardSatisfiable root := mem_forwardSatisfiable.mpr (.inl h)

lemma mem_forwardSatisfiable_of_wildcard (h : level.wildcard ∈ c.providedPermissions) :
    level ∈ c.forwardSatisfiable root := mem_forwardSatisfiable.mpr (.inr (.inl h))

lemma forwardSatisfiable_mono (hc : Weaker c c') :
    c.forwardSatisfiable root ⊆ c'.forwardSatisfiable root := by
  apply OrderHom.lfp_le
  rintro level (h | h | ⟨auth, hauth, h⟩)
  · exact mem_forwardSatisfiable_of_provided (hc.permissions_subset h)
  · exact mem_forwardSatisfiable_of_wildcard (hc.permissions_subset h)
  · refine mem_forwardSatisfiable.mpr (.inr (.inr ⟨auth, hc.permissions_eq ▸ hauth, h.trans ?_⟩))
    rw [counting, hc.permissions_eq]
    exact satisfiedWeight_mono hc subset_rfl auth

lemma forwardSatisfiable_subset : c.forwardSatisfiable root ⊆ c.satisfiable := by
  apply OrderHom.lfp_le
  rintro level (h | h | ⟨auth, hauth, h⟩)
  · exact mem_satisfiable_of_provided h
  · exact mem_satisfiable_of_wildcard h
  · refine mem_satisfiable.mpr (.inr (.inr ⟨auth, hauth, h.trans ?_⟩))
    exact satisfiedWeight_mono (.refl c) (fun _ h => h.1) auth

/-- The levels that are satisfied along forward edges, or that the root does not reach through
levels that are not. -/
def settledSet (c : AuthorityChecker) (root : PermissionLevel) : Set PermissionLevel :=
  {l | l ∈ c.forwardSatisfiable root ∨ ¬ ReflTransGen
    (fun x y => c.permissions.Edge x y ∧ x ∉ c.forwardSatisfiable root) root l}

/-- The set is closed: what an unsatisfied level lacks, it lacks on a path from the root without
satisfied levels, so that no satisfied account dominates it. -/
lemma closedUnderSatisfaction_settledSet (c : AuthorityChecker) (root : PermissionLevel) :
    c.ClosedUnderSatisfaction (c.settledSet root) where
  provided level h := .inl (mem_forwardSatisfiable_of_provided h)
  wildcard level h := .inl (mem_forwardSatisfiable_of_wildcard h)
  authority level auth hauth h := by
    by_contra hnot
    obtain ⟨hlevel, hpath⟩ := not_or.mp hnot
    rw [not_not] at hpath
    refine hlevel (mem_forwardSatisfiable.mpr (.inr (.inr ⟨auth, hauth, h.trans ?_⟩)))
    rw [satisfiedWeight, satisfiedWeight]
    refine Nat.add_le_add_left (List.sum_le_sum fun a ha => ?_) _
    have hedge : c.permissions.Edge level a.permission := ⟨auth, hauth, a, ha, rfl⟩
    unfold factorWeight
    by_cases hmem : a.permission ∈ c.settledSet root
    · have hsatisfied : a.permission ∈ c.forwardSatisfiable root :=
        hmem.resolve_right fun hnone => hnone (hpath.tail ⟨hedge, hlevel⟩)
      have hcounts : a.permission ∈ c.counting root level (c.forwardSatisfiable root) := by
        refine ⟨hsatisfied, not_dominates_of_path hpath (fun h => h hsatisfied) ?_⟩
        intro heq
        exact hlevel (heq ▸ hsatisfied)
      rw [if_pos (show c.Holds _ (.account a) from hmem),
        if_pos (show c.Holds _ (.account a) from hcounts)]
    · rw [if_neg (show ¬ c.Holds _ (.account a) from hmem)]
      exact Nat.zero_le _

/-- **For the permission that is searched, forward edges are enough.** -/
theorem root_mem_forwardSatisfiable_iff :
    root ∈ c.forwardSatisfiable root ↔ root ∈ c.satisfiable := by
  refine ⟨fun h => forwardSatisfiable_subset h, fun h => ?_⟩
  have hsettled := c.isLeast_satisfiable.2 (closedUnderSatisfaction_settledSet c root) h
  exact hsettled.resolve_right fun hnone => hnone .refl

end Sysio.AuthorityChecker
