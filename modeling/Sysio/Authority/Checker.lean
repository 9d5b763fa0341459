import Mathlib.Data.Finset.Basic
import Mathlib.Logic.Function.Basic
import Sysio.Authority.Basic
import Sysio.Data.Tally

/-!
# The authority checker

`authority_checker` decides whether provided keys, permissions and a delay satisfy a permission.  It
searches the permissions reachable from it depth first, keeps a cache of what it has found, leaves
an authority as soon as its threshold is reached, and marks the keys that it has used.

The search is `checkLevel`, by recursion on the depth that remains.
-/

namespace Sysio

inductive PermissionCacheStatus
  | beingEvaluated
  | permissionUnsatisfied
  | permissionSatisfied
  deriving DecidableEq, Repr

/-- `permission_cache_type`. -/
abbrev PermissionCache := PermissionLevel → Option PermissionCacheStatus

namespace PermissionCache

/-- `permission_status_in_cache`: the entry of the level or, failing that, of its wildcard. -/
def permissionStatusInCache (cache : PermissionCache) (level : PermissionLevel) :
    Option PermissionCacheStatus :=
  match cache level with
  | some status => some status
  | none => cache level.wildcard

def set (cache : PermissionCache) (level : PermissionLevel) (status : PermissionCacheStatus) :
    PermissionCache :=
  Function.update cache level (some status)

variable {cache : PermissionCache} {level l : PermissionLevel} {status s : PermissionCacheStatus}

lemma set_eq_some :
    cache.set level status l = some s ↔ l = level ∧ status = s ∨ l ≠ level ∧ cache l = some s := by
  by_cases h : l = level
  · simp [set, h]
  · simp [set, h]

lemma permissionStatusInCache_eq_none : cache.permissionStatusInCache level = none ↔
      cache level = none ∧ cache level.wildcard = none := by
  unfold permissionStatusInCache
  cases cache level <;> simp

lemma eq_some_of_permissionStatusInCache (h : cache.permissionStatusInCache level = some s) :
    cache level = some s ∨ cache level.wildcard = some s := by
  unfold permissionStatusInCache at h
  cases hlevel : cache level with
  | none =>
    rw [hlevel] at h
    exact .inr h
  | some t =>
    rw [hlevel] at h
    exact .inl h

end PermissionCache

/-- What a search changes: the cache and the keys marked in `_used_keys`. -/
structure CheckState where
  cache : PermissionCache
  usedKeys : Finset PublicKey

/-- The state with a new or changed entry in the cache. -/
def CheckState.setStatus (st : CheckState) (level : PermissionLevel)
    (status : PermissionCacheStatus) : CheckState :=
  { st with cache := st.cache.set level status }

/-- `authority_checker`: what the constructor is given. -/
structure AuthorityChecker where
  /-- `permission_to_authority`. -/
  permissions : PermissionMap
  recursionDepthLimit : UInt16
  providedKeys : Finset PublicKey
  providedPermissions : Finset PermissionLevel
  /-- In microseconds. -/
  providedDelay : ℤ

namespace AuthorityChecker

open Authority (MetaPermission)
open PermissionCache

def initializePermissionCache (c : AuthorityChecker) : PermissionCache :=
  fun p => if p ∈ c.providedPermissions then some .permissionSatisfied else none

/-- The provided delay covers the wait. -/
def Elapsed (c : AuthorityChecker) (w : WaitWeight) : Prop :=
  (w.waitSec.toNat : ℤ) * 1000000 ≤ c.providedDelay

instance (c : AuthorityChecker) (w : WaitWeight) : Decidable (c.Elapsed w) :=
  inferInstanceAs (Decidable (_ ≤ _))

section

variable (c : AuthorityChecker) (check : PermissionLevel → CheckState → Result (Bool × CheckState))

/-- `weight_tally_visitor`: what a factor adds to the weight, where `check` decides about account
permissions. -/
def weightTallyVisitor : MetaPermission → CheckState → Result (ℕ × CheckState)
  | .wait w, st => .ok (if c.Elapsed w then w.weight.toNat else 0, st)
  | .key k, st =>
    if k.key ∈ c.providedKeys then
      .ok (k.weight.toNat, { st with usedKeys := insert k.key st.usedKeys })
    else .ok (0, st)
  | .account a, st =>
    match check a.permission st with
    | .error e => .error e
    | .ok (r, st') => .ok (if r then a.weight.toNat else 0, st')

/-- `authority_checker::satisfied` of an authority: the factors are visited until the threshold is
reached.  If it is not, the keys marked on the way are not used after all. -/
def satisfiedAuthority (authority : Authority) (st : CheckState) : Result (Bool × CheckState) :=
  match tally u32 (c.weightTallyVisitor check) authority.threshold.toNat
      authority.metaPermissions 0 st with
  | .error e => .error e
  | .ok (true, st') => .ok (true, st')
  | .ok (false, st') => .ok (false, { st' with usedKeys := st.usedKeys })

end

/-- `weight_tally_visitor` on an account permission, where `remaining` is the number of levels that
the search may still open (`recursion_depth_limit - recursion_depth`). -/
def checkLevel (c : AuthorityChecker) :
    ℕ → PermissionLevel → CheckState → Result (Bool × CheckState)
  | remaining, level, st =>
    match st.cache.permissionStatusInCache level, remaining with
    | some status, _ => .ok (decide (status = .permissionSatisfied), st)
    | none, 0 => .ok (false, st)
    | none, remaining + 1 =>
      match c.permissions.getPermission level with
      | .error e =>
        -- if the permission doesn't exist, continue without it
        if e.type = .permissionQueryException then .ok (false, st) else .error e
      | .ok auth =>
        match c.satisfiedAuthority (c.checkLevel remaining) auth
            (st.setStatus level .beingEvaluated) with
        | .error e => .error e
        | .ok (true, st') => .ok (true, st'.setStatus level .permissionSatisfied)
        | .ok (false, st') => .ok (false, st'.setStatus level .permissionUnsatisfied)

/-- The state in which a search starts when `usedKeys` are already marked. -/
def initialState (c : AuthorityChecker) (usedKeys : Finset PublicKey) : CheckState :=
  ⟨c.initializePermissionCache, usedKeys⟩

/-- `authority_checker::satisfied` of a permission, with a new cache: the answer, and the keys that
are marked afterwards. -/
def satisfied (c : AuthorityChecker) (permission : PermissionLevel) (usedKeys : Finset PublicKey) :
    Result (Bool × Finset PublicKey) :=
  match c.checkLevel c.recursionDepthLimit.toNat permission (c.initialState usedKeys) with
  | .error e => .error e
  | .ok (r, st) => .ok (r, st.usedKeys)

/-! ### What the functions return -/

variable {c : AuthorityChecker} {check : PermissionLevel → CheckState → Result (Bool × CheckState)}
  {st : CheckState} {level : PermissionLevel} {remaining : ℕ}

/-- The ways in which `weight_tally_visitor` returns. -/
inductive VisitOutcome (c : AuthorityChecker)
    (check : PermissionLevel → CheckState → Result (Bool × CheckState)) (st : CheckState) :
    MetaPermission → ℕ × CheckState → Prop
  | wait (w : WaitWeight) :
    VisitOutcome c check st (.wait w) (if c.Elapsed w then w.weight.toNat else 0, st)
  | keyProvided (k : KeyWeight) (hk : k.key ∈ c.providedKeys) :
    VisitOutcome c check st (.key k)
      (k.weight.toNat, { st with usedKeys := insert k.key st.usedKeys })
  | keyMissing (k : KeyWeight) (hk : k.key ∉ c.providedKeys) :
    VisitOutcome c check st (.key k) (0, st)
  | account (a : PermissionLevelWeight) (r : Bool) (st' : CheckState)
    (h : check a.permission st = .ok (r, st')) :
    VisitOutcome c check st (.account a) (if r then a.weight.toNat else 0, st')

lemma weightTallyVisitor_outcome {m : MetaPermission} {r : ℕ × CheckState}
    (h : c.weightTallyVisitor check m st = .ok r) : VisitOutcome c check st m r := by
  cases m with
  | wait w =>
    cases h
    exact .wait w
  | key k =>
    rw [weightTallyVisitor] at h
    split_ifs at h with hk
    · cases h
      exact .keyProvided k hk
    · cases h
      exact .keyMissing k hk
  | account a =>
    rw [weightTallyVisitor] at h
    cases hcheck : check a.permission st with
    | error e =>
      rw [hcheck] at h
      cases h
    | ok p =>
      rw [hcheck] at h
      cases h
      exact .account a p.1 p.2 hcheck

variable {authority : Authority} {r : Bool}

lemma satisfiedAuthority_eq_ok {st' : CheckState}
    (h : c.satisfiedAuthority check authority st = .ok (r, st')) :
    ∃ final, tally u32 (c.weightTallyVisitor check) authority.threshold.toNat
        authority.metaPermissions 0 st = .ok (r, final) ∧ st'.cache = final.cache ∧
      st'.usedKeys = if r then final.usedKeys else st.usedKeys := by
  unfold satisfiedAuthority at h
  split at h <;> cases h
  all_goals next htally => exact ⟨_, htally, rfl, rfl⟩

lemma satisfiedAuthority_of_tally {final : CheckState}
    (h : tally u32 (c.weightTallyVisitor check) authority.threshold.toNat
      authority.metaPermissions 0 st = .ok (r, final)) :
    c.satisfiedAuthority check authority st =
      .ok (r, { final with usedKeys := if r then final.usedKeys else st.usedKeys }) := by
  unfold satisfiedAuthority
  rw [h]
  cases r with
  | true => rfl
  | false => rfl

/-- The visits of factors in the evaluation of an authority, each with the state it finds. -/
def factorVisits (c : AuthorityChecker)
    (check : PermissionLevel → CheckState → Result (Bool × CheckState)) (authority : Authority)
    (st : CheckState) : List (MetaPermission × CheckState) :=
  tallySteps u32 (c.weightTallyVisitor check) authority.threshold.toNat authority.metaPermissions
    0 st

/-- **The cache during an evaluation**: only the calls about account permissions change it. -/
theorem satisfiedAuthority_inv {I : PermissionCache → Prop}
    (hI : I st.cache) (hcheck : ∀ x ∈ c.factorVisits check authority st, ∀ a, x.1 = .account a →
      ∀ r, check a.permission x.2 = .ok r → I x.2.cache → I r.2.cache) :
    (∀ x ∈ c.factorVisits check authority st, I x.2.cache) ∧
      ∀ r, c.satisfiedAuthority check authority st = .ok r → I r.2.cache := by
  have hinv : (∀ x ∈ c.factorVisits check authority st, I x.2.cache) ∧
      ∀ r, tally u32 (c.weightTallyVisitor check) authority.threshold.toNat
        authority.metaPermissions 0 st = .ok r → I r.2.cache := by
    refine tally_inv (I := fun s : CheckState => I s.cache) hI ?_
    rintro ⟨m, s⟩ hx r hr hs
    cases weightTallyVisitor_outcome hr with
    | wait w => exact hs
    | keyProvided k hk => exact hs
    | keyMissing k hk => exact hs
    | account a b s' h => exact hcheck _ hx a rfl _ h hs
  refine ⟨hinv.1, fun r hr => ?_⟩
  obtain ⟨final, htally, hcache, -⟩ := satisfiedAuthority_eq_ok hr
  rw [hcache]
  exact hinv.2 _ htally

/-- The status that an evaluation leaves in the cache. -/
def resultStatus (r : Bool) : PermissionCacheStatus :=
  if r then .permissionSatisfied else .permissionUnsatisfied

/-- The ways in which `checkLevel` returns. -/
inductive CheckOutcome (c : AuthorityChecker) (level : PermissionLevel) (st : CheckState) :
    ℕ → Bool × CheckState → Prop
  /-- The cache has the answer. -/
  | cached (remaining : ℕ) (s : PermissionCacheStatus)
    (hstatus : st.cache.permissionStatusInCache level = some s) :
    CheckOutcome c level st remaining (decide (s = .permissionSatisfied), st)
  /-- The depth limit is reached, or there is no such permission. -/
  | skipped (remaining : ℕ) (hstatus : st.cache.permissionStatusInCache level = none) :
    CheckOutcome c level st remaining (false, st)
  /-- The authority has been evaluated. -/
  | evaluated (remaining : ℕ) (auth : Authority) (r : Bool) (st' : CheckState)
    (hstatus : st.cache.permissionStatusInCache level = none)
    (hauth : c.permissions.getPermission level = .ok auth)
    (h : c.satisfiedAuthority (c.checkLevel remaining) auth (st.setStatus level .beingEvaluated) =
      .ok (r, st')) :
    CheckOutcome c level st (remaining + 1) (r, st'.setStatus level (resultStatus r))

lemma checkLevel_outcome {r : Bool × CheckState}
    (h : c.checkLevel remaining level st = .ok r) : CheckOutcome c level st remaining r := by
  unfold checkLevel at h
  split at h
  · next s hstatus =>
    cases h
    exact .cached _ s hstatus
  · next hstatus =>
    cases h
    exact .skipped _ hstatus
  · next remaining hstatus =>
    split at h
    · split_ifs at h with hquery
      cases h
      exact .skipped _ hstatus
    · next auth hauth =>
      split at h
      · cases h
      · next st' heval =>
        cases h
        exact .evaluated remaining auth true st' hstatus hauth heval
      · next st' heval =>
        cases h
        exact .evaluated remaining auth false st' hstatus hauth heval

lemma checkLevel_of_status {s : PermissionCacheStatus}
    (hstatus : st.cache.permissionStatusInCache level = some s) :
    c.checkLevel remaining level st = .ok (decide (s = .permissionSatisfied), st) := by
  unfold checkLevel
  rw [hstatus]

section

variable (hstatus : st.cache.permissionStatusInCache level = none)
include hstatus

lemma checkLevel_zero : c.checkLevel 0 level st = .ok (false, st) := by
  unfold checkLevel
  rw [hstatus]

lemma checkLevel_succ : c.checkLevel (remaining + 1) level st =
      match c.permissions.getPermission level with
      | .error e => if e.type = .permissionQueryException then .ok (false, st) else .error e
      | .ok auth => (c.satisfiedAuthority (c.checkLevel remaining) auth
          (st.setStatus level .beingEvaluated)).map
            fun r => (r.1, r.2.setStatus level (resultStatus r.1)) := by
  unfold checkLevel
  rw [hstatus]
  cases c.permissions.getPermission level with
  | error e => rfl
  | ok auth =>
    dsimp only
    cases c.satisfiedAuthority (c.checkLevel remaining) auth
      (st.setStatus level .beingEvaluated) with
    | error e => rfl
    | ok r =>
      obtain ⟨b, st'⟩ := r
      cases b <;> rfl

lemma checkLevel_of_missing {e : ChainException}
    (hauth : c.permissions.getPermission level = .error e)
    (he : e.type = .permissionQueryException) :
    c.checkLevel remaining level st = .ok (false, st) := by
  cases remaining with
  | zero => exact checkLevel_zero hstatus
  | succ n =>
    rw [checkLevel_succ hstatus, hauth]
    exact if_pos he

lemma checkLevel_of_satisfiedAuthority {auth : Authority} {st' : CheckState}
    (hauth : c.permissions.getPermission level = .ok auth)
    (heval : c.satisfiedAuthority (c.checkLevel remaining) auth
      (st.setStatus level .beingEvaluated) = .ok (r, st')) :
    c.checkLevel (remaining + 1) level st = .ok (r, st'.setStatus level (resultStatus r)) := by
  rw [checkLevel_succ hstatus, hauth]
  dsimp only
  rw [heval]
  rfl

end

lemma satisfied_eq_ok {permission : PermissionLevel} {usedKeys : Finset PublicKey}
    {r : Bool × Finset PublicKey} (h : c.satisfied permission usedKeys = .ok r) :
    ∃ st, c.checkLevel c.recursionDepthLimit.toNat permission (c.initialState usedKeys) =
      .ok (r.1, st) ∧ r.2 = st.usedKeys := by
  unfold satisfied at h
  split at h
  · cases h
  · next r' st hcheck =>
    cases h
    exact ⟨st, hcheck, rfl⟩

end AuthorityChecker

end Sysio
