import Mathlib.Algebra.Order.BigOperators.Group.List
import Mathlib.Order.FixedPoints
import Mathlib.Order.CompletePartialOrder
import Sysio.Authority.Checker

/-!
# What it means for a permission to be satisfied

A permission is satisfied when it is provided, by its own level or by the wildcard of its actor, or
when the provided keys, the elapsed waits and the satisfied account permissions in its authority
reach the threshold.  Permissions may refer to each other in cycles, so `satisfiable` is the *least*
set with this property: a permission does not support itself.

This is the specification of the checker.  It has no depth limit, no cache and no order among the
factors of an authority, and it grows with the keys, the permissions and the delay provided.
-/

namespace Sysio.AuthorityChecker

variable {auth auth' : Authority}

open Authority (MetaPermission)
open scoped Classical

/-! ### Weights -/

section

variable (c : AuthorityChecker) (X : Set PermissionLevel)

/-- The factor counts, if the permissions in `X` are satisfied. -/
def Holds : MetaPermission → Prop
  | .wait w => c.Elapsed w
  | .key k => k.key ∈ c.providedKeys
  | .account a => a.permission ∈ X

/-- What a factor adds to the weight, if the permissions in `X` are satisfied. -/
noncomputable def factorWeight (m : MetaPermission) : ℕ :=
  if c.Holds X m then m.weight.toNat else 0

/-- The weight of the provided keys, the elapsed waits and the accounts in `X` in an authority. -/
noncomputable def satisfiedWeight (auth : Authority) : ℕ :=
  (auth.keys.map fun k => c.factorWeight X (.key k)).sum +
    (auth.waits.map fun w => c.factorWeight X (.wait w)).sum +
    (auth.accounts.map fun a => c.factorWeight X (.account a)).sum

end

lemma factorWeight_le (c : AuthorityChecker) (X : Set PermissionLevel) (m : MetaPermission) :
    c.factorWeight X m ≤ m.weight.toNat := by
  unfold factorWeight
  split_ifs
  · exact le_rfl
  · exact Nat.zero_le _

lemma sum_map_emplaced (f : MetaPermission → ℕ) (auth : Authority) : (auth.emplaced.map f).sum =
      (auth.keys.map fun k => f (.key k)).sum + (auth.waits.map fun w => f (.wait w)).sum +
        (auth.accounts.map fun a => f (.account a)).sum := by
  simp only [Authority.emplaced, List.map_append, List.sum_append, List.map_map]
  show (auth.accounts.map fun a => f (.account a)).sum + (auth.keys.map fun k => f (.key k)).sum +
    (auth.waits.map fun w => f (.wait w)).sum = _
  omega

/-- The order in which the factors are visited does not change their weight. -/
lemma sum_factorWeight (c : AuthorityChecker) (X : Set PermissionLevel) (auth : Authority) :
    (auth.metaPermissions.map (c.factorWeight X)).sum = c.satisfiedWeight X auth := by
  rw [(auth.metaPermissions_perm.map _).sum_eq, sum_map_emplaced, satisfiedWeight]

lemma satisfiedWeight_lt (c : AuthorityChecker) (X : Set PermissionLevel)
    (h : auth.WellFormed) : c.satisfiedWeight X auth < 2 ^ 32 := by
  have hle : c.satisfiedWeight X auth ≤ (auth.emplaced.map fun m => m.weight.toNat).sum := by
    rw [← sum_factorWeight, (auth.metaPermissions_perm.map _).sum_eq]
    exact List.sum_le_sum fun m _ => c.factorWeight_le X m
  have htotal : (auth.emplaced.map fun m => m.weight.toNat).sum = auth.totalWeight := by
    rw [sum_map_emplaced, Authority.totalWeight]
    show (auth.keys.map fun k => k.weight.toNat).sum +
      (auth.waits.map fun w => w.weight.toNat).sum +
      (auth.accounts.map fun a => a.weight.toNat).sum = _
    omega
  exact (hle.trans_eq htotal).trans_lt h.totalWeight_lt

/-! ### Comparing what is provided -/

/-- The checker with other provided keys. -/
def withKeys (c : AuthorityChecker) (keys : Finset PublicKey) : AuthorityChecker :=
  { c with providedKeys := keys }

/-- `c'` is given at least what `c` is given, over the same permissions. -/
structure Weaker (c c' : AuthorityChecker) : Prop where
  permissions_eq : c.permissions = c'.permissions
  keys_subset : c.providedKeys ⊆ c'.providedKeys
  permissions_subset : c.providedPermissions ⊆ c'.providedPermissions
  delay_le : c.providedDelay ≤ c'.providedDelay

variable {c c' : AuthorityChecker} {X Y : Set PermissionLevel} {level : PermissionLevel}

lemma Weaker.refl (c : AuthorityChecker) : Weaker c c := ⟨rfl, subset_rfl, subset_rfl, le_rfl⟩

lemma weaker_withKeys {keys : Finset PublicKey} (h : c.providedKeys ⊆ keys) :
    Weaker c (c.withKeys keys) :=
  ⟨rfl, h, subset_rfl, le_rfl⟩

lemma Holds.mono (hc : Weaker c c') (hX : X ⊆ Y) {m : MetaPermission} (h : c.Holds X m) :
    c'.Holds Y m := by
  cases m with
  | wait w => exact le_trans h hc.delay_le
  | key k => exact hc.keys_subset h
  | account a => exact hX h

lemma factorWeight_mono (hc : Weaker c c') (hX : X ⊆ Y) (m : MetaPermission) :
    c.factorWeight X m ≤ c'.factorWeight Y m := by
  unfold factorWeight
  by_cases h : c.Holds X m
  · rw [if_pos h, if_pos (h.mono hc hX)]
  · rw [if_neg h]
    exact Nat.zero_le _

lemma satisfiedWeight_mono (hc : Weaker c c') (hX : X ⊆ Y) (auth : Authority) :
    c.satisfiedWeight X auth ≤ c'.satisfiedWeight Y auth := by
  rw [← sum_factorWeight, ← sum_factorWeight]
  exact List.sum_le_sum fun m _ => factorWeight_mono hc hX m

/-! ### The least satisfied set -/

/-- The permissions that are satisfied if those in `X` are. -/
noncomputable def satisfactionStep (c : AuthorityChecker) :
    Set PermissionLevel →o Set PermissionLevel where
  toFun X := {level | level ∈ c.providedPermissions ∨ level.wildcard ∈ c.providedPermissions ∨
    ∃ auth, c.permissions.getPermission level = .ok auth ∧
      auth.threshold.toNat ≤ c.satisfiedWeight X auth}
  monotone' X Y hXY level := by
    rintro (h | h | ⟨auth, hauth, h⟩)
    · exact .inl h
    · exact .inr (.inl h)
    · exact .inr (.inr ⟨auth, hauth, h.trans (satisfiedWeight_mono (.refl c) hXY auth)⟩)

/-- **The satisfied permissions**: the least set that holds the provided permissions and each
permission whose authority reaches its threshold within the set. -/
noncomputable def satisfiable (c : AuthorityChecker) : Set PermissionLevel := c.satisfactionStep.lfp

lemma mem_satisfiable : level ∈ c.satisfiable ↔
    level ∈ c.providedPermissions ∨ level.wildcard ∈ c.providedPermissions ∨
      ∃ auth, c.permissions.getPermission level = .ok auth ∧
        auth.threshold.toNat ≤ c.satisfiedWeight c.satisfiable auth := by
  conv_lhs => rw [satisfiable, ← OrderHom.map_lfp]
  rfl

lemma mem_satisfiable_of_provided (h : level ∈ c.providedPermissions) : level ∈ c.satisfiable :=
  mem_satisfiable.mpr (.inl h)

lemma mem_satisfiable_of_wildcard (h : level.wildcard ∈ c.providedPermissions) :
    level ∈ c.satisfiable :=
  mem_satisfiable.mpr (.inr (.inl h))

/-- The set holds the provided permissions, by their own level or by the wildcard of their actor,
and each permission whose authority reaches its threshold within the set. -/
structure ClosedUnderSatisfaction (c : AuthorityChecker) (S : Set PermissionLevel) : Prop where
  provided : ∀ level ∈ c.providedPermissions, level ∈ S
  wildcard : ∀ level, level.wildcard ∈ c.providedPermissions → level ∈ S
  authority : ∀ level auth, c.permissions.getPermission level = .ok auth →
    auth.threshold.toNat ≤ c.satisfiedWeight S auth → level ∈ S

lemma isLeast_satisfiable (c : AuthorityChecker) :
    IsLeast {S | c.ClosedUnderSatisfaction S} c.satisfiable := by
  constructor
  · exact ⟨fun _ h => mem_satisfiable_of_provided h, fun _ h => mem_satisfiable_of_wildcard h,
      fun _ auth hauth h => mem_satisfiable.mpr (.inr (.inr ⟨auth, hauth, h⟩))⟩
  · intro S hS
    apply OrderHom.lfp_le
    rintro level (h | h | ⟨auth, hauth, h⟩)
    · exact hS.provided level h
    · exact hS.wildcard level h
    · exact hS.authority level auth hauth h

/-- **More keys, permissions or delay satisfy more.** -/
theorem satisfiable_mono (hc : Weaker c c') : c.satisfiable ⊆ c'.satisfiable := by
  apply OrderHom.lfp_le
  rintro level (h | h | ⟨auth, hauth, h⟩)
  · exact mem_satisfiable_of_provided (hc.permissions_subset h)
  · exact mem_satisfiable_of_wildcard (hc.permissions_subset h)
  · rw [hc.permissions_eq] at hauth
    apply mem_satisfiable.mpr
    exact .inr (.inr ⟨auth, hauth, h.trans (satisfiedWeight_mono hc subset_rfl auth)⟩)

/-! ### The order of the factors -/

/-- The two authorities have the same threshold and the same factors, in any order. -/
structure Reordered (auth auth' : Authority) : Prop where
  threshold_eq : auth.threshold = auth'.threshold
  keys_perm : auth.keys.Perm auth'.keys
  accounts_perm : auth.accounts.Perm auth'.accounts
  waits_perm : auth.waits.Perm auth'.waits

/-- `c'` is `c` over permissions whose authorities list their factors in another order. -/
structure SameUpToOrder (c c' : AuthorityChecker) : Prop where
  auth_reordered : ∀ level, Option.Rel Reordered (c.permissions.auth level)
    (c'.permissions.auth level)
  limit_eq : c.recursionDepthLimit = c'.recursionDepthLimit
  keys_eq : c.providedKeys = c'.providedKeys
  permissions_eq : c.providedPermissions = c'.providedPermissions
  delay_eq : c.providedDelay = c'.providedDelay

lemma SameUpToOrder.refl (c : AuthorityChecker) : SameUpToOrder c c where
  auth_reordered level := by
    cases c.permissions.auth level with
    | none => exact .none
    | some auth => exact .some ⟨rfl, .refl _, .refl _, .refl _⟩
  limit_eq := rfl
  keys_eq := rfl
  permissions_eq := rfl
  delay_eq := rfl

section

variable (h : SameUpToOrder c c')
include h

lemma SameUpToOrder.satisfiedWeight_eq
    (hauth : Reordered auth auth') : c.satisfiedWeight X auth = c'.satisfiedWeight X auth' := by
  have hHolds : c.Holds = c'.Holds := by
    funext X m
    cases m with
    | wait w => simp only [Holds, Elapsed, h.delay_eq]
    | key k => simp only [Holds, h.keys_eq]
    | account a => rfl
  have hfactor : c.factorWeight = c'.factorWeight := by
    unfold factorWeight
    rw [hHolds]
  rw [satisfiedWeight, satisfiedWeight, hfactor, (hauth.keys_perm.map _).sum_eq,
    (hauth.waits_perm.map _).sum_eq, (hauth.accounts_perm.map _).sum_eq]

/-- A property that reordering keeps holds of the authority of a level in both or in neither. -/
lemma SameUpToOrder.exists_auth_iff {P P' : Authority → Prop}
    (hP : ∀ auth auth', Reordered auth auth' → (P auth ↔ P' auth')) (level : PermissionLevel) :
    (∃ auth, c.permissions.getPermission level = .ok auth ∧ P auth) ↔
      ∃ auth, c'.permissions.getPermission level = .ok auth ∧ P' auth := by
  simp only [PermissionMap.getPermission_eq_ok]
  have hrel := h.auth_reordered level
  generalize c.permissions.auth level = a at hrel ⊢
  generalize c'.permissions.auth level = a' at hrel ⊢
  cases hrel with
  | none => simp
  | some hauth => simp [hP _ _ hauth]

lemma SameUpToOrder.satisfiable_eq : c.satisfiable = c'.satisfiable := by
  have hstep : c.satisfactionStep = c'.satisfactionStep := by
    ext X level
    show (_ ∨ _ ∨ _) ↔ (_ ∨ _ ∨ _)
    rw [h.permissions_eq]
    refine or_congr_right (or_congr_right (h.exists_auth_iff (fun auth auth' hauth => ?_) level))
    rw [hauth.threshold_eq, h.satisfiedWeight_eq hauth]
  rw [satisfiable, satisfiable, hstep]

lemma SameUpToOrder.edge_iff {l l' : PermissionLevel} :
    c.permissions.Edge l l' ↔ c'.permissions.Edge l l' := by
  refine h.exists_auth_iff (fun auth auth' hauth => ?_) l
  simp only [hauth.accounts_perm.mem_iff]

end

end Sysio.AuthorityChecker
