import Mathlib.Algebra.Group.Action.Defs
import Mathlib.Algebra.Order.BigOperators.Group.List
import Mathlib.Data.List.Sort
import Sysio.Types

/-!
# Authorities and the permissions that hold them

An authority is a threshold and three lists of weighted factors: keys, permissions of accounts, and
waits.  `validate` is the check that every authority passes before it is stored.  What later proofs
need of it is `WellFormed`, which, unlike `validate`, does not depend on the order of the factors.

`PermissionMap` is the stored permissions, as the lookup by owner and name sees them.
-/

namespace Sysio

open List

/-! ### Authorities -/

/-- `permission_level`: a permission of an account. -/
structure PermissionLevel where
  actor : Name
  permission : Name
  deriving DecidableEq, Repr

namespace PermissionLevel

/-- Levels are ordered by actor and then by permission. -/
instance : LinearOrder PermissionLevel :=
  LinearOrder.lift' (fun l : PermissionLevel => toLex (l.actor, l.permission)) fun a b h => by
    cases a
    cases b
    simpa [Prod.ext_iff] using h

/-- The level with an empty permission name, which stands for every permission of the actor. -/
def wildcard (level : PermissionLevel) : PermissionLevel := ⟨level.actor, Name.empty⟩

/-- Neither name of the level is empty. -/
def Named (level : PermissionLevel) : Prop :=
  level.actor ≠ Name.empty ∧ level.permission ≠ Name.empty

instance (level : PermissionLevel) : Decidable level.Named :=
  inferInstanceAs (Decidable (_ ∧ _))

end PermissionLevel

structure PermissionLevelWeight where
  permission : PermissionLevel
  /-- `weight_type`. -/
  weight : UInt16
  deriving DecidableEq, Repr

structure WaitWeight where
  waitSec : UInt32
  /-- `weight_type`. -/
  weight : UInt16
  deriving DecidableEq, Repr

structure Authority where
  threshold : UInt32
  keys : List KeyWeight
  accounts : List PermissionLevelWeight
  waits : List WaitWeight
  deriving DecidableEq, Repr

namespace Authority

def totalWeight (auth : Authority) : ℕ :=
  (auth.keys.map (·.weight.toNat)).sum + (auth.accounts.map (·.weight.toNat)).sum +
    (auth.waits.map (·.weight.toNat)).sum

/-- `validate`: the factors are few enough, sorted and unique, no wait is empty, and the threshold
is positive and can be reached. -/
def validate (auth : Authority) : Bool :=
  decide (auth.keys.length + auth.accounts.length + auth.waits.length ≤ 2 ^ 16) &&
  decide (auth.threshold ≠ 0) &&
  decide (auth.keys.IsChain fun prev k => prev.key < k.key) &&
  decide (auth.accounts.IsChain fun prev a => ¬ a.permission ≤ prev.permission) &&
  decide (∀ w ∈ auth.waits.head?, w.waitSec ≠ 0) &&
  decide (auth.waits.IsChain fun prev w => ¬ w.waitSec ≤ prev.waitSec) &&
  -- the loops of the source add up in `uint32_t`
  decide (auth.threshold.toNat ≤ u32 auth.totalWeight)

/-- The part of `validate` that does not depend on the order of the factors. -/
structure WellFormed (auth : Authority) : Prop where
  threshold_pos : 0 < auth.threshold.toNat
  length_le : auth.keys.length + auth.accounts.length + auth.waits.length ≤ 2 ^ 16

instance (auth : Authority) : Decidable auth.WellFormed :=
  decidable_of_iff (0 < auth.threshold.toNat ∧
      auth.keys.length + auth.accounts.length + auth.waits.length ≤ 2 ^ 16)
    ⟨fun h => ⟨h.1, h.2⟩, fun h => ⟨h.1, h.2⟩⟩

lemma wellFormed_of_validate {auth : Authority} (h : auth.validate = true) : auth.WellFormed := by
  simp only [validate, Bool.and_eq_true, decide_eq_true_eq] at h
  obtain ⟨⟨⟨⟨⟨⟨hlength, hthreshold⟩, -⟩, -⟩, -⟩, -⟩, -⟩ := h
  refine ⟨Nat.pos_of_ne_zero fun h0 => hthreshold ?_, hlength⟩
  exact UInt32.toNat_inj.mp h0

lemma sum_weight_le {α : Type} (weight : α → UInt16) (as : List α) :
    (as.map fun a => (weight a).toNat).sum ≤ as.length * (2 ^ 16 - 1) := by
  have h := sum_le_card_nsmul (as.map fun a => (weight a).toNat) (2 ^ 16 - 1) fun w hw => by
    obtain ⟨a, -, rfl⟩ := List.mem_map.mp hw
    exact Nat.le_sub_one_of_lt (weight a).toNat_lt
  rwa [length_map, smul_eq_mul] at h

/-- The weights of a stored authority add up without overflow. -/
lemma WellFormed.totalWeight_lt {auth : Authority} (h : auth.WellFormed) :
    auth.totalWeight < 2 ^ 32 := by
  have hkeys := sum_weight_le KeyWeight.weight auth.keys
  have haccounts := sum_weight_le PermissionLevelWeight.weight auth.accounts
  have hwaits := sum_weight_le WaitWeight.weight auth.waits
  have hlength := h.length_le
  unfold totalWeight
  omega

/-- One factor of an authority, an entry of `meta_permission_map`. -/
inductive MetaPermission
  | wait (w : WaitWeight)
  | key (k : KeyWeight)
  | account (a : PermissionLevelWeight)
  deriving DecidableEq, Repr

namespace MetaPermission

def weight : MetaPermission → UInt16
  | .wait w => w.weight
  | .key k => k.weight
  | .account a => a.weight

/-- The priority among factors of one weight. -/
def priority : MetaPermission → ℕ
  | .account _ => 1
  | .key _ => 2
  | .wait _ => 3

end MetaPermission

/-- The factors in the order in which they are emplaced. -/
def emplaced (auth : Authority) : List MetaPermission :=
  auth.accounts.map .account ++ auth.keys.map .key ++ auth.waits.map .wait

/-- The factors in the order of the `flat_multimap`: by weight and priority, greatest first, and
among equals in the order of insertion. -/
def metaPermissions (auth : Authority) : List MetaPermission :=
  auth.emplaced.insertionSort fun a b =>
    toLex (b.weight.toNat, b.priority) ≤ toLex (a.weight.toNat, a.priority)

lemma metaPermissions_perm (auth : Authority) : auth.metaPermissions.Perm auth.emplaced :=
  perm_insertionSort _ _

lemma mem_metaPermissions_account {auth : Authority} {a : PermissionLevelWeight} :
    .account a ∈ auth.metaPermissions ↔ a ∈ auth.accounts := by
  rw [auth.metaPermissions_perm.mem_iff]
  simp [emplaced]

end Authority

/-! ### Stored permissions -/

/-- The stored permissions.  An authority is stored only when `validate` accepts it and every
account permission in it names an existing account and permission. -/
structure PermissionMap where
  /-- The lookup by owner and name. -/
  auth : PermissionLevel → Option Authority
  wellFormed : ∀ level a, auth level = some a → a.WellFormed
  accounts_named : ∀ level a, auth level = some a → ∀ w ∈ a.accounts, w.permission.Named

namespace PermissionMap

/-- `authorization_manager::get_permission`, of which the checker reads the authority. -/
def getPermission (m : PermissionMap) (level : PermissionLevel) : Result Authority :=
  if level.Named then
    match m.auth level with
    | none => .error ⟨.permissionQueryException, "Failed to retrieve permission: "⟩
    | some auth => .ok auth
  else .error ⟨.invalidPermission, "Invalid permission"⟩

/-- The map that holds the given rows. -/
def ofRows (rows : List (PermissionLevel × Authority))
    (h : ∀ row ∈ rows, row.2.WellFormed ∧ ∀ w ∈ row.2.accounts, w.permission.Named) :
    PermissionMap where
  auth level := (rows.find? (·.1 = level)).map (·.2)
  wellFormed level a ha := by
    obtain ⟨row, hrow, rfl⟩ := Option.map_eq_some_iff.mp ha
    exact (h row (mem_of_find?_eq_some hrow)).1
  accounts_named level a ha := by
    obtain ⟨row, hrow, rfl⟩ := Option.map_eq_some_iff.mp ha
    exact (h row (mem_of_find?_eq_some hrow)).2

variable {m : PermissionMap} {level : PermissionLevel} {auth : Authority}

lemma getPermission_eq_ok :
    m.getPermission level = .ok auth ↔ level.Named ∧ m.auth level = some auth := by
  unfold getPermission
  split_ifs with hnamed
  · cases m.auth level <;> simp [hnamed]
  · simp [hnamed]

lemma wellFormed_of_getPermission (h : m.getPermission level = .ok auth) : auth.WellFormed :=
  m.wellFormed level auth (getPermission_eq_ok.mp h).2

/-- A lookup that fails under two names is one the checker continues without. -/
lemma type_of_getPermission_eq_error {e : ChainException} (hnamed : level.Named)
    (h : m.getPermission level = .error e) : e.type = .permissionQueryException := by
  rw [getPermission, if_pos hnamed] at h
  cases hauth : m.auth level with
  | none =>
    rw [hauth] at h
    cases h
    rfl
  | some a =>
    rw [hauth] at h
    cases h

/-- `l'` is one of the accounts in the authority of `l`. -/
def Edge (m : PermissionMap) (l l' : PermissionLevel) : Prop :=
  ∃ auth, m.getPermission l = .ok auth ∧ ∃ a ∈ auth.accounts, a.permission = l'

lemma Edge.named {l l' : PermissionLevel} (h : m.Edge l l') : l'.Named := by
  obtain ⟨auth, hauth, a, ha, rfl⟩ := h
  exact m.accounts_named l auth (getPermission_eq_ok.mp hauth).2 a ha

end PermissionMap

end Sysio
