import Sysio.Authority.Forward
import Sysio.Authority.Soundness

/-!
# When the authority checker is complete

A search can miss a satisfied permission in two ways: it meets it when the depth limit is used up,
or while it is still being evaluated.  If no forward path from the permission searched has more
levels than the limit, the first does not happen, and the second only along references that are not
needed.  Then every answer is the exact one for satisfaction along forward edges
(`checkLevel_exact`), and the answer for the permission searched is the exact one.

An acyclic hierarchy that is not deeper than the limit is a special case.  What follows does not
depend on the order of the factors, nor on the keys marked before.
-/

namespace Sysio

open List PermissionMap Rooted Relation

namespace AuthorityChecker

open PermissionCache
open Authority (MetaPermission)

variable {c : AuthorityChecker} {cache cache' cache'' : PermissionCache}
  {root level : PermissionLevel} {status : PermissionCacheStatus} {X : Set PermissionLevel}
  {auth : Authority} {remaining n : ℕ}

/-! ### Exact caches -/

/-- The cache answers right in both ways. -/
structure CacheExact (c : AuthorityChecker) (X : Set PermissionLevel) (cache : PermissionCache) :
    Prop extends CacheSound c X cache where
  unsatisfied_not_mem : ∀ level, cache level = some .permissionUnsatisfied → level ∉ X

lemma cacheExact_initial (hX : ∀ level ∈ c.providedPermissions, level ∈ X) :
    CacheExact c X c.initializePermissionCache where
  toCacheSound := cacheSound_initial hX
  unsatisfied_not_mem level h := by
    unfold initializePermissionCache at h
    split_ifs at h
    cases h

/-- An entry for a permission that is not provided may be written, if it is true. -/
lemma CacheExact.set (hc : CacheExact c X cache) (hnamed : level.Named)
    (hprovided : level ∉ c.providedPermissions)
    (hmem : status = .permissionSatisfied → level ∈ X)
    (hnot : status = .permissionUnsatisfied → level ∉ X) :
    CacheExact c X (cache.set level status) where
  toCacheSound := hc.toCacheSound.set hnamed hprovided hmem
  unsatisfied_not_mem l h := by
    rcases set_eq_some.mp h with ⟨rfl, hstatus⟩ | ⟨-, hl⟩
    · exact hnot hstatus
    · exact hc.unsatisfied_not_mem l hl

/-- An answer from the cache is exact, unless it is about a permission being evaluated. -/
lemma CacheExact.decide_status_iff (hc : CacheExact c X cache)
    (hX : ∀ level, level.wildcard ∈ c.providedPermissions → level ∈ X)
    (hstatus : cache.permissionStatusInCache level = some status)
    (heval : status ≠ .beingEvaluated) :
    decide (status = .permissionSatisfied) = true ↔ level ∈ X := by
  rw [decide_eq_true_iff]
  cases status with
  | beingEvaluated => exact absurd rfl heval
  | permissionUnsatisfied =>
    have hnot := hc.unsatisfied_not_mem level (hc.eq_some_of_status hstatus nofun)
    exact ⟨nofun, fun h => absurd h hnot⟩
  | permissionSatisfied => exact ⟨fun _ => hc.mem_of_status hX hstatus, fun _ => rfl⟩

variable {check : PermissionLevel → CheckState → Result (Bool × CheckState)} {st : CheckState}
  {permission : PermissionLevel} {usedKeys : Finset PublicKey} {authority : Authority}

/-- The evaluation of an authority is exact when the calls about account permissions are. -/
lemma satisfiedAuthority_exact {I : PermissionCache → Prop}
    (hwf : authority.WellFormed) (hI : I st.cache)
    (hcheck : ∀ x ∈ c.factorVisits check authority st, ∀ a, x.1 = .account a → I x.2.cache →
      ∃ r, check a.permission x.2 = .ok r ∧ I r.2.cache ∧ (r.1 = true ↔ a.permission ∈ X)) :
    ∃ r, c.satisfiedAuthority check authority st = .ok r ∧ I r.2.cache ∧
      (r.1 = true ↔ authority.threshold.toNat ≤ c.satisfiedWeight X authority) := by
  have htally : ∃ r, tally u32 (c.weightTallyVisitor check) authority.threshold.toNat
      authority.metaPermissions 0 st = .ok r ∧ I r.2.cache ∧
        (r.1 = true ↔ authority.threshold.toNat ≤
          0 + (authority.metaPermissions.map (c.factorWeight X)).sum) := by
    refine tally_exact (I := fun s : CheckState => I s.cache) (fun _ => u32_of_lt) hI
      hwf.threshold_pos ?_ ?_
    · rw [Nat.zero_add, sum_factorWeight]
      exact c.satisfiedWeight_lt X hwf
    · rintro ⟨m, s⟩ hx hs
      cases m with
      | wait w =>
        refine ⟨s, ?_, hs⟩
        by_cases hw : c.Elapsed w <;>
          simp [weightTallyVisitor, factorWeight, Holds, hw, MetaPermission.weight]
      | key k =>
        by_cases hk : k.key ∈ c.providedKeys
        · refine ⟨{ s with usedKeys := insert k.key s.usedKeys }, ?_, hs⟩
          simp [weightTallyVisitor, factorWeight, Holds, hk, MetaPermission.weight]
        · refine ⟨s, ?_, hs⟩
          simp [weightTallyVisitor, factorWeight, Holds, hk]
      | account a =>
        obtain ⟨⟨r, s'⟩, hr, hI', hiff⟩ := hcheck _ hx a rfl hs
        refine ⟨s', ?_, hI'⟩
        by_cases ha : a.permission ∈ X
        · obtain rfl : r = true := hiff.mpr ha
          simp [weightTallyVisitor, factorWeight, Holds, hr, ha, MetaPermission.weight]
        · obtain rfl : r = false := Bool.eq_false_iff.mpr fun h => ha (hiff.mp h)
          simp [weightTallyVisitor, factorWeight, Holds, hr, ha]
  rw [Nat.zero_add, sum_factorWeight] at htally
  obtain ⟨⟨r, final⟩, hr, hfinal, hiff⟩ := htally
  exact ⟨_, satisfiedAuthority_of_tally hr, hfinal, hiff⟩

lemma edge_of_mem_factorVisits {x : MetaPermission × CheckState} {a : PermissionLevelWeight}
    (hauth : c.permissions.getPermission level = .ok auth) (hx : x ∈ c.factorVisits check auth st)
    (ha : x.1 = .account a) : c.permissions.Edge level a.permission := by
  have hmem := fst_mem_of_mem_tallySteps hx
  rw [ha, Authority.mem_metaPermissions_account] at hmem
  exact ⟨auth, hauth, a, hmem, rfl⟩

/-! ### Calls of a search -/

/-- What a search for the root has come to when it calls `checkLevel`: the levels being evaluated
lie on a path from the root to the level, and forward edges lead from each of them to it. -/
structure CallReady (c : AuthorityChecker) (root : PermissionLevel) (remaining : ℕ)
    (level : PermissionLevel) (cache : PermissionCache) : Prop where
  exact : CacheExact c (c.forwardSatisfiable root) cache
  named : level.Named
  path : ReflTransGen (fun l l' => c.permissions.Edge l l' ∧ cache l = some .beingEvaluated)
    root level
  reached : ReflTransGen (c.forward root) root level
  above : ∀ l, cache l = some .beingEvaluated → TransGen (c.forward root) l level
  depth : DepthAtMost (c.forward root) remaining level

/-- What a call does to the cache: all entries stay, and new ones are about levels below and hold an
answer. -/
structure Extends (c : AuthorityChecker) (root level : PermissionLevel)
    (cache cache' : PermissionCache) : Prop where
  kept : ∀ l s, cache l = some s → cache' l = some s
  added : ∀ l s, cache' l = some s →
    cache l = some s ∨ s ≠ .beingEvaluated ∧ ReflTransGen (c.forward root) level l

lemma Extends.refl (c : AuthorityChecker) (root level : PermissionLevel) (cache : PermissionCache) :
    Extends c root level cache cache :=
  ⟨fun _ _ h => h, fun _ _ h => .inl h⟩

lemma Extends.trans {l : PermissionLevel} (h : Extends c root level cache cache')
    (hl : c.forward root level l) (h' : Extends c root l cache' cache'') :
    Extends c root level cache cache'' := by
  refine ⟨fun q s hq => h'.kept q s (h.kept q s hq), fun q s hq => ?_⟩
  rcases h'.added q s hq with hq | ⟨hs, hpath⟩
  · exact h.added q s hq
  · exact .inr ⟨hs, .head hl hpath⟩

/-- The level that has been evaluated gets its answer. -/
lemma Extends.finish {s : PermissionCacheStatus} (hnone : cache level = none)
    (h : Extends c root level (cache.set level .beingEvaluated) cache')
    (hs : s ≠ .beingEvaluated) : Extends c root level cache (cache'.set level s) := by
  refine ⟨fun q t hq => ?_, fun q t hq => ?_⟩
  · have hne : q ≠ level := by
      rintro rfl
      rw [hnone] at hq
      cases hq
    exact set_eq_some.mpr (.inr ⟨hne, h.kept q t (set_eq_some.mpr (.inr ⟨hne, hq⟩))⟩)
  · rcases set_eq_some.mp hq with ⟨rfl, rfl⟩ | ⟨hne, hq⟩
    · exact .inr ⟨hs, .refl⟩
    · refine (h.added q t hq).imp_left fun hstart => ?_
      exact ((set_eq_some.mp hstart).resolve_left fun heq => hne heq.1).2

/-- **A call about an account permission**: either the permission dominates the level and is still
being evaluated, or the reference goes forward and the call is ready. -/
lemma CallReady.child {l : PermissionLevel} (h : CallReady c root (n + 1) level cache)
    (hedge : c.permissions.Edge level l) (hexact : CacheExact c (c.forwardSatisfiable root) cache')
    (hext : Extends c root level (cache.set level .beingEvaluated) cache') :
    Dominates c.permissions.Edge root l level ∧ cache' l = some .beingEvaluated ∨
      c.forward root level l ∧ CallReady c root n l cache' := by
  have hopen : ∀ q, cache q = some .beingEvaluated → cache' q = some .beingEvaluated := by
    intro q hq
    refine hext.kept q _ (set_eq_some.mpr ?_)
    by_cases hql : q = level
    · exact .inl ⟨hql, rfl⟩
    · exact .inr ⟨hql, hq⟩
  have hlevel : cache' level = some .beingEvaluated :=
    hext.kept level _ (set_eq_some.mpr (.inl ⟨rfl, rfl⟩))
  have hpath : ReflTransGen
      (fun q q' => c.permissions.Edge q q' ∧ cache' q = some .beingEvaluated) root level :=
    ReflTransGen.mono (fun q q' hq => ⟨hq.1, hopen q hq.2⟩) root level h.path
  by_cases hdom : Dominates c.permissions.Edge root l level
  · refine .inl ⟨hdom, ?_⟩
    by_contra hnot
    refine not_dominates_of_path hpath hnot ?_ hdom
    rintro rfl
    exact hnot hlevel
  · have hforward : c.forward root level l := ⟨hedge, hdom⟩
    refine .inr ⟨hforward, hexact, hedge.named, hpath.tail ⟨hedge, hlevel⟩,
      h.reached.tail hforward, fun q hq => ?_, h.depth l hforward⟩
    rcases hext.added q _ hq with hq | ⟨hne, -⟩
    · rcases set_eq_some.mp hq with ⟨rfl, -⟩ | ⟨-, hq⟩
      · exact .single hforward
      · exact (h.above q hq).tail hforward
    · exact absurd rfl hne

/-- The level of a call is not being evaluated. -/
lemma CallReady.not_beingEvaluated (h : CallReady c root remaining level cache) :
    cache.permissionStatusInCache level ≠ some .beingEvaluated := by
  intro hstatus
  exact h.depth.not_cycle (h.above level (h.exact.eq_some_of_status hstatus nofun))

/-- A permission that the cache does not know is satisfied through its authority or not at all. -/
lemma CallReady.mem_iff_of_status (h : CallReady c root remaining level cache)
    (hstatus : cache.permissionStatusInCache level = none) :
    level ∈ c.forwardSatisfiable root ↔ ∃ auth, c.permissions.getPermission level = .ok auth ∧
      auth.threshold.toNat ≤
        c.satisfiedWeight (c.counting root level (c.forwardSatisfiable root)) auth := by
  obtain ⟨hlevel, hwildcard⟩ := h.exact.not_provided_of_status hstatus
  rw [mem_forwardSatisfiable, or_iff_right hlevel, or_iff_right hwildcard]

/-- The cache at the start of an evaluation. -/
lemma CallReady.start (h : CallReady c root remaining level cache)
    (hstatus : cache.permissionStatusInCache level = none) :
    CacheExact c (c.forwardSatisfiable root) (cache.set level .beingEvaluated) :=
  h.exact.set h.named (h.exact.not_provided_of_status hstatus).1 nofun nofun

/-- **Every call of a search gives the exact answer** for satisfaction along forward edges. -/
theorem checkLevel_exact (h : CallReady c root remaining level st.cache) :
    ∃ r, c.checkLevel remaining level st = .ok r ∧
      CacheExact c (c.forwardSatisfiable root) r.2.cache ∧
      Extends c root level st.cache r.2.cache ∧
      (r.1 = true ↔ level ∈ c.forwardSatisfiable root) := by
  induction remaining using Nat.strong_induction_on generalizing level st with
  | _ remaining ih =>
    cases hstatus : st.cache.permissionStatusInCache level with
    | some s =>
      have hs : s ≠ .beingEvaluated := by
        rintro rfl
        exact h.not_beingEvaluated hstatus
      refine ⟨_, checkLevel_of_status hstatus, h.exact, .refl _ _ _ _, ?_⟩
      exact h.exact.decide_status_iff (fun _ => mem_forwardSatisfiable_of_wildcard) hstatus hs
    | none =>
      have hmem := h.mem_iff_of_status hstatus
      cases hauth : c.permissions.getPermission level with
      | error e =>
        have he := type_of_getPermission_eq_error h.named hauth
        refine ⟨_, checkLevel_of_missing hstatus hauth he, h.exact, .refl _ _ _ _, nofun, ?_⟩
        intro h
        obtain ⟨auth, hok, -⟩ := hmem.mp h
        rw [hauth] at hok
        cases hok
      | ok auth =>
        cases remaining with
        | zero => exact h.depth.elim
        | succ n =>
          obtain ⟨⟨r, st'⟩, heval, ⟨hst', hext⟩, hr⟩ := @satisfiedAuthority_exact c
            (c.checkLevel n) (st.setStatus level .beingEvaluated) _
            (I := fun cache => CacheExact c (c.forwardSatisfiable root) cache ∧
              Extends c root level (st.cache.set level .beingEvaluated) cache)
            (X := c.counting root level (c.forwardSatisfiable root))
            (wellFormed_of_getPermission hauth)
            ⟨h.start hstatus, .refl _ _ _ _⟩ (by
              rintro x hx a ha ⟨hexact, hext⟩
              have hedge := edge_of_mem_factorVisits hauth hx ha
              rcases h.child hedge hexact hext with ⟨hdom, hopen⟩ | ⟨hforward, hready⟩
              -- an open level is not counted, and it dominates
              · have hopen' : x.2.cache.permissionStatusInCache a.permission =
                    some .beingEvaluated := by
                  rw [permissionStatusInCache, hopen]
                refine ⟨_, checkLevel_of_status hopen', ⟨hexact, hext⟩, nofun, fun hcount => ?_⟩
                exact absurd hdom hcount.2
              · obtain ⟨r, hr, hexact', hext', hiff⟩ := ih n n.lt_succ_self hready
                refine ⟨r, hr, ⟨hexact', hext.trans hforward hext'⟩, hiff.trans ?_⟩
                exact ⟨fun hl => ⟨hl, hforward.2⟩, fun hl => hl.1⟩)
          have hiff : r = true ↔ level ∈ c.forwardSatisfiable root := by
            rw [hmem, hauth]
            simpa using hr
          have hresult : resultStatus r ≠ .beingEvaluated := by cases r <;> nofun
          refine ⟨_, checkLevel_of_satisfiedAuthority hstatus hauth heval, ?_,
            hext.finish (permissionStatusInCache_eq_none.mp hstatus).1 hresult, hiff⟩
          refine hst'.set h.named (h.exact.not_provided_of_status hstatus).1 ?_ ?_
          · intro hs
            exact hiff.mp (resultStatus_eq_satisfied.mp hs)
          · intro hs hlevel
            rw [hiff.mpr hlevel] at hs
            cases hs

/-! ### Searches -/

/-- No forward path from the permission has more levels than the depth limit. -/
def Shallow (c : AuthorityChecker) (permission : PermissionLevel) : Prop :=
  ∀ path, List.IsChain (c.forward permission) (permission :: path) →
    (permission :: path).length ≤ c.recursionDepthLimit.toNat

/-- A search starts ready. -/
lemma Shallow.callReady (h : c.Shallow permission) (hnamed : permission.Named) :
    CallReady c permission c.recursionDepthLimit.toNat permission c.initializePermissionCache where
  exact := cacheExact_initial fun _ => mem_forwardSatisfiable_of_provided
  named := hnamed
  path := .refl
  reached := .refl
  above l hl := by
    unfold initializePermissionCache at hl
    split_ifs at hl
    cases hl
  depth := depthAtMost_of_paths h

/-- **A shallow search is exact**, whatever keys are marked before. -/
theorem satisfied_exact (h : c.Shallow permission) (hnamed : permission.Named)
    (usedKeys : Finset PublicKey) :
    ∃ r, c.satisfied permission usedKeys = .ok r ∧ (r.1 = true ↔ permission ∈ c.satisfiable) := by
  have hready := h.callReady hnamed
  obtain ⟨r, hr, -, -, hiff⟩ := @checkLevel_exact c _ _ _ (c.initialState usedKeys) hready
  refine ⟨(r.1, r.2.usedKeys), ?_, hiff.trans root_mem_forwardSatisfiable_iff⟩
  unfold satisfied
  rw [hr]

lemma satisfied_of_provided
    (h : permission ∈ c.providedPermissions ∨ permission.wildcard ∈ c.providedPermissions) :
    c.satisfied permission usedKeys = .ok (true, usedKeys) := by
  have hstatus : (c.initialState usedKeys).cache.permissionStatusInCache permission =
      some .permissionSatisfied := by
    simp only [initialState, permissionStatusInCache, initializePermissionCache]
    by_cases hlevel : permission ∈ c.providedPermissions
    · simp [hlevel]
    · simp [hlevel, h.resolve_left hlevel]
  rw [satisfied, checkLevel_of_status hstatus]
  rfl

/-- A level with an empty name has no authority, so it is satisfied only if it is provided. -/
lemma provided_of_not_named (hnamed : ¬ permission.Named) (hmem : permission ∈ c.satisfiable) :
    permission ∈ c.providedPermissions ∨ permission.wildcard ∈ c.providedPermissions := by
  rcases mem_satisfiable.mp hmem with h | h | ⟨auth, hauth, -⟩
  · exact .inl h
  · exact .inr h
  · exact absurd (PermissionMap.getPermission_eq_ok.mp hauth).1 hnamed

/-- **A shallow search accepts what is satisfied.** -/
theorem satisfied_of_mem (hmem : permission ∈ c.satisfiable) (h : c.Shallow permission) :
    ∃ usedKeys', c.satisfied permission usedKeys = .ok (true, usedKeys') := by
  by_cases hnamed : permission.Named
  · obtain ⟨r, hr, hiff⟩ := satisfied_exact h hnamed usedKeys
    exact ⟨r.2, by rw [hr, ← hiff.mpr hmem]⟩
  · exact ⟨usedKeys, satisfied_of_provided (provided_of_not_named hnamed hmem)⟩

lemma shallow_of_paths (h : ∀ path, List.IsChain c.permissions.Edge (permission :: path) →
    (permission :: path).length ≤ c.recursionDepthLimit.toNat) : c.Shallow permission :=
  fun path hpath => h path (hpath.imp fun _ _ hforward => hforward.1)

/-- **Completeness of the authority checker on acyclic hierarchies.**  If no path from the
permission has more levels than the depth limit, `satisfied` accepts exactly the permissions in the
least satisfied set, in whatever order each authority lists its factors and whatever keys are
marked.  It does not throw, unless the permission has an empty name. -/
theorem satisfied_iff_of_acyclic (c c' : AuthorityChecker) (hc : SameUpToOrder c c')
    (permission : PermissionLevel) (usedKeys : Finset PublicKey)
    (hpaths : ∀ path, List.IsChain c.permissions.Edge (permission :: path) →
      (permission :: path).length ≤ c.recursionDepthLimit.toNat) :
    ((∃ usedKeys', c'.satisfied permission usedKeys = .ok (true, usedKeys')) ↔
        permission ∈ c.satisfiable) ∧
      (permission.Named → ∃ r, c'.satisfied permission usedKeys = .ok r) := by
  have hedge : c.permissions.Edge = c'.permissions.Edge := by
    funext l l'
    exact propext hc.edge_iff
  rw [hedge, hc.limit_eq] at hpaths
  rw [hc.satisfiable_eq]
  refine ⟨⟨?_, fun hmem => ?_⟩, fun hnamed => ?_⟩
  · rintro ⟨used', hused⟩
    exact mem_satisfiable_of_satisfied hused
  · exact satisfied_of_mem hmem (shallow_of_paths hpaths)
  · obtain ⟨r, hr, -⟩ := satisfied_exact (shallow_of_paths hpaths) hnamed usedKeys
    exact ⟨r, hr⟩

/-- Three levels: 3 needs 2 and 1, 2 needs 1, and 1 has a key. -/
def layeredMap : PermissionMap :=
  .ofRows [(demoLevel 3, ⟨2, [], [⟨demoLevel 1, 1⟩, ⟨demoLevel 2, 1⟩], []⟩),
      (demoLevel 2, ⟨1, [], [⟨demoLevel 1, 1⟩], []⟩),
      (demoLevel 1, ⟨1, [⟨demoKey 1, 1⟩], [], []⟩)]
    (by decide)

/-- A property of the references in the rows holds for every edge. -/
lemma of_edge_ofRows {rows : List (PermissionLevel × Authority)} {hrows}
    {P : PermissionLevel → PermissionLevel → Prop}
    (h : ∀ row ∈ rows, ∀ a ∈ row.2.accounts, P row.1 a.permission)
    {l l' : PermissionLevel} (hedge : (PermissionMap.ofRows rows hrows).Edge l l') : P l l' := by
  obtain ⟨auth, hauth, a, ha, rfl⟩ := hedge
  obtain ⟨row, hrow, rfl⟩ := Option.map_eq_some_iff.mp (getPermission_eq_ok.mp hauth).2
  have hl : row.1 = l := by simpa using find?_some hrow
  exact hl ▸ h row (mem_of_find?_eq_some hrow) a ha

lemma layeredMap_paths (path : List PermissionLevel)
    (h : List.IsChain layeredMap.Edge (demoLevel 3 :: path)) : (demoLevel 3 :: path).length ≤ 4 :=
  length_le_of_rank (fun l => l.actor.value.toNat)
    (fun _ _ => of_edge_ofRows (P := fun l l' => l'.actor.value.toNat < l.actor.value.toNat)
      (by decide)) h

theorem satisfied_iff_of_acyclic_layeredMap :
    (∃ usedKeys', (⟨layeredMap, 4, {demoKey 1}, ∅, 0⟩ : AuthorityChecker).satisfied (demoLevel 3)
        {demoKey 1} = .ok (true, usedKeys')) ↔
      demoLevel 3 ∈ (⟨layeredMap, 4, {demoKey 1}, ∅, 0⟩ : AuthorityChecker).satisfiable :=
  (satisfied_iff_of_acyclic _ _ (.refl _) _ _ layeredMap_paths).1

end AuthorityChecker

end Sysio
