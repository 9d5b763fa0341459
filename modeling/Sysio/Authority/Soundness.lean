import Sysio.Authority.Satisfaction

/-!
# The authority checker is sound

Whatever the permissions refer to, and whatever the depth limit, the checker answers yes only about
permissions that are satisfied.  The invariant is about the cache: an entry `permissionSatisfied`
belongs to a satisfied permission (`CacheSound`).  An entry under an empty name would stand for all
permissions of an actor, so the invariant also says that only provided permissions are kept there.
-/

namespace Sysio.AuthorityChecker

open PermissionCache
open Authority (MetaPermission)

variable {c : AuthorityChecker} {cache : PermissionCache} {level : PermissionLevel}
  {status : PermissionCacheStatus}

lemma wildcard_not_named (level : PermissionLevel) : ¬ level.wildcard.Named := fun h => h.2 rfl

/-- The cache answers yes only about the permissions in `X`. -/
structure CacheSound (c : AuthorityChecker) (X : Set PermissionLevel) (cache : PermissionCache) :
    Prop where
  satisfied_mem : ∀ level, cache level = some .permissionSatisfied → level ∈ X
  provided : ∀ level ∈ c.providedPermissions, cache level = some .permissionSatisfied
  named_or_provided : ∀ level, cache level ≠ none → level.Named ∨ level ∈ c.providedPermissions

variable {X : Set PermissionLevel}

lemma cacheSound_initial (hX : ∀ level ∈ c.providedPermissions, level ∈ X) :
    CacheSound c X c.initializePermissionCache where
  satisfied_mem level h := by
    unfold initializePermissionCache at h
    split_ifs at h with hprovided
    exact hX level hprovided
  provided level h := if_pos h
  named_or_provided level h := by
    unfold initializePermissionCache at h
    split_ifs at h with hprovided
    · exact .inr hprovided
    · exact absurd rfl h

namespace CacheSound

section

variable (hc : CacheSound c X cache)
include hc

/-- The entry of a wildcard, if there is one, comes from a provided permission. -/
lemma wildcard_provided (h : cache level.wildcard ≠ none) :
    level.wildcard ∈ c.providedPermissions :=
  (hc.named_or_provided _ h).resolve_left (wildcard_not_named level)

lemma mem_of_status (hX : ∀ level, level.wildcard ∈ c.providedPermissions → level ∈ X)
    (h : cache.permissionStatusInCache level = some .permissionSatisfied) : level ∈ X := by
  rcases eq_some_of_permissionStatusInCache h with h | h
  · exact hc.satisfied_mem level h
  · apply hX
    apply hc.wildcard_provided
    rw [h]
    exact Option.some_ne_none _

/-- So any other status is the one of the level itself. -/
lemma eq_some_of_status (h : cache.permissionStatusInCache level = some status)
    (hs : status ≠ .permissionSatisfied) : cache level = some status := by
  rcases eq_some_of_permissionStatusInCache h with h | h
  · exact h
  · have hprovided := hc.provided _ (hc.wildcard_provided (h ▸ Option.some_ne_none _))
    rw [h] at hprovided
    exact absurd (Option.some.inj hprovided) hs

lemma not_provided_of_status (h : cache.permissionStatusInCache level = none) :
    level ∉ c.providedPermissions ∧ level.wildcard ∉ c.providedPermissions := by
  obtain ⟨hlevel, hwildcard⟩ := permissionStatusInCache_eq_none.mp h
  constructor
  · intro hprovided
    rw [hc.provided level hprovided] at hlevel
    cases hlevel
  · intro hprovided
    rw [hc.provided _ hprovided] at hwildcard
    cases hwildcard

/-- An entry for a permission that is not provided may be written, if it is true. -/
lemma set (hnamed : level.Named) (hprovided : level ∉ c.providedPermissions)
    (hmem : status = .permissionSatisfied → level ∈ X) :
    CacheSound c X (cache.set level status) where
  satisfied_mem l h := by
    rcases set_eq_some.mp h with ⟨rfl, hstatus⟩ | ⟨-, hl⟩
    · exact hmem hstatus
    · exact hc.satisfied_mem l hl
  provided l h := by
    refine set_eq_some.mpr (.inr ⟨?_, hc.provided l h⟩)
    rintro rfl
    exact hprovided h
  named_or_provided l h := by
    by_cases hl : l = level
    · exact .inl (hl ▸ hnamed)
    · rw [PermissionCache.set, Function.update_of_ne hl] at h
      exact hc.named_or_provided l h

end

end CacheSound

lemma resultStatus_eq_satisfied {r : Bool} :
    resultStatus r = .permissionSatisfied ↔ r = true := by
  cases r <;> simp [resultStatus]

lemma u32_le (n : ℕ) : u32 n ≤ n := Nat.mod_le _ _

/-- A visit adds no more than the factor holds, if `check` is right to answer yes. -/
lemma le_factorWeight_of_outcome
    {check : PermissionLevel → CheckState → Result (Bool × CheckState)} {st : CheckState}
    {m : MetaPermission} {r : ℕ × CheckState} (h : VisitOutcome c check st m r)
    (hcheck : ∀ l st', check l st = .ok (true, st') → l ∈ X) : r.1 ≤ c.factorWeight X m := by
  unfold factorWeight
  cases h with
  | wait w =>
    by_cases hw : c.Elapsed w
    · simp [Holds, hw, MetaPermission.weight]
    · simp [hw]
  | keyProvided k hk => simp [Holds, hk, MetaPermission.weight]
  | keyMissing k hk => exact Nat.zero_le _
  | account a b st' hb =>
    cases b with
    | false => exact Nat.zero_le _
    | true =>
      have ha : a.permission ∈ X := hcheck _ _ hb
      simp [Holds, ha, MetaPermission.weight]

/-- **One call keeps the cache sound and gives a sound answer.** -/
theorem checkLevel_sound {remaining : ℕ} {st : CheckState} {r : Bool × CheckState}
    (hc : CacheSound c c.satisfiable st.cache) (h : c.checkLevel remaining level st = .ok r) :
    CacheSound c c.satisfiable r.2.cache ∧ (r.1 = true → level ∈ c.satisfiable) := by
  -- the calls inside an evaluation have less depth left
  induction remaining using Nat.strong_induction_on generalizing level st r with
  | _ remaining ih =>
    cases checkLevel_outcome h with
    | cached _ s hstatus =>
      refine ⟨hc, fun hs => ?_⟩
      rw [of_decide_eq_true hs] at hstatus
      exact hc.mem_of_status (fun _ => mem_satisfiable_of_wildcard) hstatus
    | skipped => exact ⟨hc, nofun⟩
    | evaluated n auth r st' hstatus hauth heval =>
      obtain ⟨final, htally, -, -⟩ := satisfiedAuthority_eq_ok heval
      have hnamed := (PermissionMap.getPermission_eq_ok.mp hauth).1
      have hprovided := (hc.not_provided_of_status hstatus).1
      -- the tally starts with the permission marked as being evaluated
      have hstart : CacheSound c c.satisfiable (st.setStatus level .beingEvaluated).cache :=
        hc.set hnamed hprovided nofun
      have ih {l : PermissionLevel} {s : CheckState} {p : Bool × CheckState} :=
        @ih n n.lt_succ_self l s p
      obtain ⟨hsteps, hfinal⟩ := satisfiedAuthority_inv hstart fun x _ a _ p hp hx => (ih hx hp).1
      have hsound : r = true → level ∈ c.satisfiable := by
        intro hr
        obtain ⟨-, hweight⟩ := tally_sound (V := fun _ => c.factorWeight c.satisfiable) u32_le
          (by
            rintro ⟨m, s⟩ hs p hp
            refine ⟨?_, fun _ => le_rfl⟩
            apply le_factorWeight_of_outcome (weightTallyVisitor_outcome hp)
            intro l s' hcheck
            exact (ih (hsteps _ hs) hcheck).2 rfl) htally
        rw [Nat.zero_add, sum_factorWeight] at hweight
        exact mem_satisfiable.mpr (.inr (.inr ⟨auth, hauth, hweight hr⟩))
      refine ⟨(hfinal _ heval).set hnamed hprovided fun hr => ?_, hsound⟩
      exact hsound (resultStatus_eq_satisfied.mp hr)

/-- **A permission that `satisfied` accepts is satisfied.** -/
theorem mem_satisfiable_of_satisfied {permission : PermissionLevel}
    {usedKeys usedKeys' : Finset PublicKey}
    (h : c.satisfied permission usedKeys = .ok (true, usedKeys')) : permission ∈ c.satisfiable := by
  obtain ⟨st, hcheck, -⟩ := satisfied_eq_ok h
  exact (checkLevel_sound (cacheSound_initial fun _ => mem_satisfiable_of_provided) hcheck).2 rfl

/-- **Soundness of the authority checker**: over every map of permissions, with every depth limit,
set of provided keys and permissions, provided delay and keys already marked, a permission that
`satisfied` accepts is in the least set that holds the provided permissions and each permission
whose provided keys, elapsed waits and accounts in the set reach its threshold. -/
theorem satisfied_sound (c : AuthorityChecker) (permission : PermissionLevel)
    (usedKeys usedKeys' : Finset PublicKey)
    (h : c.satisfied permission usedKeys = .ok (true, usedKeys')) :
    IsLeast {S | c.ClosedUnderSatisfaction S} c.satisfiable ∧ permission ∈ c.satisfiable :=
  ⟨c.isLeast_satisfiable, mem_satisfiable_of_satisfied h⟩

/-- The level of a permission in the small maps below. -/
def demoLevel (n : UInt64) : PermissionLevel := ⟨⟨n⟩, ⟨1⟩⟩

def demoKey (n : ℕ) : PublicKey := ⟨0, n⟩

/-- A map with a cycle (1 and 2), a permission that two others share (3) and one that is missing
(4). -/
def cyclicMap : PermissionMap :=
  .ofRows [(demoLevel 1, ⟨2, [], [⟨demoLevel 2, 1⟩, ⟨demoLevel 3, 1⟩, ⟨demoLevel 4, 1⟩], []⟩),
      (demoLevel 2, ⟨1, [], [⟨demoLevel 1, 1⟩, ⟨demoLevel 3, 1⟩], []⟩),
      (demoLevel 3, ⟨1, [⟨demoKey 1, 1⟩], [], []⟩)]
    (by decide)

theorem satisfied_sound_cyclicMap :
    (⟨cyclicMap, 4, {demoKey 1}, ∅, 0⟩ : AuthorityChecker).satisfied (demoLevel 1) ∅ =
        .ok (true, {demoKey 1}) ∧
      demoLevel 1 ∈ (⟨cyclicMap, 4, {demoKey 1}, ∅, 0⟩ : AuthorityChecker).satisfiable :=
  ⟨by decide, (satisfied_sound _ _ ∅ {demoKey 1} (by decide)).2⟩

end Sysio.AuthorityChecker
