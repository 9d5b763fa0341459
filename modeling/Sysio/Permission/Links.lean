import Sysio.Permission.Forest

/-!
# Links never dangle

A link names the permission that an account requires for the actions of a contract, for one action
or, with an empty action name, for all of them.  `lookup_minimum_permission` reads the links.

Once `only_link_to_existing_permission` is active, a new link names a permission that is there, and
`deleteauth` refuses to remove a permission that a link names.  So every link of the database leads
to a permission (`Linked`), and so does every lookup.
-/

namespace Sysio.PermissionDatabase

open Table NativeHandler Result Option PermissionLevel

variable {account actName name scope : Name} {codec : ActionCodec} {env : PermissionEnv}
  {db db' : PermissionDatabase}

/-! ### Lookups -/

def lookupLinkedPermission (db : PermissionDatabase) (authorizerAccount scope actName : Name) :
    Option Name :=
  match db.links.find? (authorizerAccount, scope, actName) with
  | some link => some link.requiredPermission
  | none =>
    -- no specific link: a contract-wide default
    (db.links.find? (authorizerAccount, scope, Name.empty)).map (·.requiredPermission)

/-- The native actions that cannot be linked to a minimum permission. -/
def Unlinkable (actName : Name) : Prop :=
  actName = updateauth.actionName ∨ actName = deleteauth.actionName ∨
    actName = linkauth.actionName ∨ actName = unlinkauth.actionName ∨
    actName = canceldelay.actionName

instance (actName : Name) : Decidable (Unlinkable actName) :=
  inferInstanceAs (Decidable (_ ∨ _))

def lookupMinimumPermission (db : PermissionDatabase) (authorizerAccount scope actName : Name) :
    Result (Option Name) := do
  sysAssert (scope = sysioName → ¬ Unlinkable actName) .unlinkableMinPermissionAction
    ("cannot call lookup_minimum_permission on native actions that are not allowed to be linked " ++
      "to minimum permissions")
  match db.lookupLinkedPermission authorizerAccount scope actName with
  | none => pure (some activeName)
  | some linkedPermission =>
    if linkedPermission = sysioAnyName then pure none else pure (some linkedPermission)

/-- What the lookup makes of a link. -/
def minimumOf (link : Option Name) : Option Name :=
  match link with
  | none => some activeName
  | some name => if name = sysioAnyName then none else some name

lemma lookupMinimumPermission_eq (h : scope = sysioName → ¬ Unlinkable actName) :
    db.lookupMinimumPermission account scope actName =
      .ok (minimumOf (db.lookupLinkedPermission account scope actName)) := by
  unfold lookupMinimumPermission
  rw [sysAssert, if_pos h, ok_bind]
  cases db.lookupLinkedPermission account scope actName with
  | none => rfl
  | some name =>
    unfold minimumOf
    dsimp only
    split_ifs
    · rfl
    · rfl

/-! ### The invariant -/

section

variable (db)

def HasPermission (account name : Name) : Prop :=
  ∃ p ∈ db.permissions, p.owner = account ∧ p.name = name

/-- Every link names a permission of its account, or `sysio.any`. -/
def Linked : Prop :=
  ∀ l ∈ db.links, l.requiredPermission = sysioAnyName ∨
    db.HasPermission l.account l.requiredPermission

/-- The permissions that links name. -/
def IsLinked (p : PermissionObject) : Prop :=
  ∃ l ∈ db.links, l.account = p.owner ∧ l.requiredPermission = p.name

end

/-- Links that stay resolve as before, when the permissions they name stay. -/
lemma Linked.of_persists (hl : db.Linked) (h : Persists db.IsLinked db db')
    {l : PermissionLinkObject} (hmem : l ∈ db.links) :
    l.requiredPermission = sysioAnyName ∨ db'.HasPermission l.account l.requiredPermission := by
  rcases hl l hmem with hany | ⟨p, hp, howner, hname⟩
  · exact .inl hany
  · obtain ⟨p', hp', hsame⟩ := h p hp ⟨l, hmem, howner.symm, hname.symm⟩
    exact .inr ⟨p', hp', hsame.owner_eq.trans howner, hsame.name_eq.trans hname⟩

lemma hasPermission_of_linkTarget {requirement : LinkAuth}
    (hfeature : env.onlyLinkToExistingPermission = true)
    (h : db.linkTarget env requirement ≠ none) :
    db.HasPermission requirement.account requirement.requirement := by
  unfold linkTarget at h
  rw [if_pos hfeature] at h
  obtain ⟨p, hfind⟩ := ne_none_iff_exists'.mp h
  obtain ⟨hp, hlevel⟩ := ObjectIndex.find?_eq_some.mp hfind
  exact ⟨p, hp, congrArg actor hlevel, congrArg permission hlevel⟩

/-- The event is processed while `only_link_to_existing_permission` is active. -/
def Event.OnlyExisting : Event → Prop
  | .action env _ => env.onlyLinkToExistingPermission = true
  | .setPrivileged _ _ => True

instance : DecidablePred Event.OnlyExisting
  | .action env _ => inferInstanceAs (Decidable (env.onlyLinkToExistingPermission = true))
  | .setPrivileged _ _ => .isTrue trivial

/-- **Every event keeps the links whole.** -/
theorem linked_of_apply (hl : db.Linked) {e : Event} (he : e.OnlyExisting)
    (h : db.apply codec e = .ok db') : db'.Linked := by
  have hkeep : Persists db.IsLinked db db' → db'.links = db.links → db'.Linked := by
    intro hpersists hlinks l hmem
    rw [hlinks] at hmem
    exact hl.of_persists hpersists hmem
  have hsame : db'.permissions = db.permissions → Persists db.IsLinked db db' := by
    intro hpermissions p hp _
    rw [← hpermissions] at hp
    exact ⟨p, hp, .refl p⟩
  cases change_of_apply h with
  | keep hpermissions _ hlinks => exact hkeep (hsame hpermissions) hlinks
  | newaccount _ hadds _ _ _ => exact hkeep hadds.persists hadds.links_eq
  | create _ _ _ _ _ hcreates => exact hkeep hcreates.persists hcreates.links_eq
  | modify _ _ _ _ hmodifies => exact hkeep hmodifies.persists hmodifies.links_eq
  | remove _ _ _ _ hunlinked hremoves =>
    -- a permission with a link is not removed
    refine hkeep (hremoves.persists ?_) hremoves.links_eq
    rintro ⟨l, hmem, haccount, hname⟩
    exact hunlinked l hmem haccount hname
  | link _ hpermissions _ htarget hlinks =>
    intro l hmem
    rw [hlinks] at hmem
    rcases mem_of_mem_upsert hmem with ⟨hmem, -⟩ | rfl
    · exact hl.of_persists (hsame hpermissions) hmem
    · refine or_iff_not_imp_left.mpr fun hany => ?_
      obtain ⟨p, hp, hlevel⟩ := hasPermission_of_linkTarget he (htarget hany)
      exact ⟨p, hpermissions ▸ hp, hlevel⟩
  | unlink _ hpermissions _ hlinks =>
    intro l hmem
    rw [hlinks] at hmem
    exact hl.of_persists (hsame hpermissions) (mem_erase.mp hmem).1

lemma links_initializeDatabase {genesis : Genesis}
    (h : initializeDatabase env genesis = .ok db) : db.links = .empty := by
  simp only [initializeDatabase, bind_eq_ok, require_eq_ok, pure_eq_ok] at h
  obtain ⟨db0, h0, db1, h1, db2, h2, db3, h3, active, -, majority, hmajority, minority, hminority,
    rfl⟩ := h
  obtain ⟨r, -, rfl⟩ := map_eq_some_iff.mp h0
  rw [(createPermission_eq_ok hminority).links_eq, (createPermission_eq_ok hmajority).links_eq,
    (addsAccount_of_createNativeAccount h3).links_eq,
    (addsAccount_of_createNativeAccount h2).links_eq,
    (addsAccount_of_createNativeAccount h1).links_eq]

/-! ### Runs -/

lemma hasPermission_of_lookup (hl : db.Linked) (hr : db.Rooted) {a : AccountObject}
    (ha : a ∈ db.accounts)
    (h : minimumOf (db.lookupLinkedPermission a.name scope actName) = some name) :
    db.HasPermission a.name name := by
  have hlink {code type : Name} {l : PermissionLinkObject}
      (hfind : db.links.find? (a.name, code, type) = some l)
      (hmin : minimumOf (some l.requiredPermission) = some name) :
      db.HasPermission a.name name := by
    have haccount : l.account = a.name := congrArg Prod.fst (key_eq_of_find? hfind)
    unfold minimumOf at hmin
    dsimp only at hmin
    split_ifs at hmin with hany
    cases hmin
    exact haccount ▸ (hl l (mem_of_find? hfind)).resolve_left hany
  unfold lookupLinkedPermission at h
  split at h
  · next l hfind => exact hlink hfind h
  · cases hfind : db.links.find? (a.name, scope, Name.empty) with
    | some l =>
      rw [hfind] at h
      exact hlink hfind h
    | none =>
      rw [hfind] at h
      obtain rfl := some.inj h
      exact (hr a ha).2

/-- **Links never dangle.**  After any run from the initial database in which every action is
processed under `only_link_to_existing_permission`: every link names a permission of its account, or
`sysio.any`; no two links are for the same account, contract and action; and for every account and
every action that can be linked, the lookup of the minimum permission succeeds, with the permission
of the exact link, else of the contract-wide link, else `active`, which is there, or with nothing
for `sysio.any`. -/
theorem links_of_run {genesis : Genesis} {db₀ : PermissionDatabase}
    {tr : List (Transition PermissionDatabase Event)}
    (hinit : initializeDatabase env genesis = .ok db₀) (hrun : Run (Step codec) db₀ tr db)
    (hfeature : ∀ t ∈ tr, t.event.OnlyExisting) :
    (∀ l ∈ db.links, l.requiredPermission = sysioAnyName ∨
      ∃ p ∈ db.permissions, p.owner = l.account ∧ p.name = l.requiredPermission) ∧
    (∀ l ∈ db.links, ∀ l' ∈ db.links, l.account = l'.account → l.code = l'.code →
      l.messageType = l'.messageType → l = l') ∧
    ∀ a ∈ db.accounts, ∀ scope actName, (scope = sysioName → ¬ Unlinkable actName) →
      ∃ r, db.lookupMinimumPermission a.name scope actName = .ok r ∧
        (∀ l, db.links.find? (a.name, scope, actName) = some l →
          r = if l.requiredPermission = sysioAnyName then none else some l.requiredPermission) ∧
        (∀ l, db.links.find? (a.name, scope, actName) = none →
          db.links.find? (a.name, scope, Name.empty) = some l →
          r = if l.requiredPermission = sysioAnyName then none else some l.requiredPermission) ∧
        (db.links.find? (a.name, scope, actName) = none →
          db.links.find? (a.name, scope, Name.empty) = none → r = some activeName) ∧
        ∀ name, r = some name → ∃ p ∈ db.permissions, p.owner = a.name ∧ p.name = name := by
  obtain ⟨-, hr⟩ := shaped_of_run hinit hrun
  have hl0 : db₀.Linked := by
    intro l hmem
    rw [links_initializeDatabase hinit] at hmem
    exact absurd hmem (Table.not_mem_empty l)
  have hl : db.Linked := (hrun.forall_transition (C := fun _ e _ => e.OnlyExisting) hl0
    (fun _ _ _ hl he hstep => linked_of_apply hl he hstep) hfeature).1
  refine ⟨hl, ?_, ?_⟩
  · intro l hmem l' hmem' haccount hcode htype
    refine Table.eq_of_key_eq hmem hmem' ?_
    unfold PermissionLinkObject.key
    rw [haccount, hcode, htype]
  · intro a ha scope actName hlinkable
    refine ⟨_, lookupMinimumPermission_eq hlinkable, ?_, ?_, ?_, ?_⟩
    · intro l hfind
      rw [lookupLinkedPermission, hfind]
      rfl
    · intro l hnone hfind
      rw [lookupLinkedPermission, hnone, hfind]
      rfl
    · intro hnone hnone'
      rw [lookupLinkedPermission, hnone, hnone']
      rfl
    · intro name hname
      exact hasPermission_of_lookup hl hr ha hname

/-- An account is created, links its own contract to a new permission, and tries nothing else. -/
def demoLinkEvents : List Event :=
  [.action demoEnv (demoAction .newaccount sysioName activeName []),
    .action demoEnv (demoAction .updateauth demoAccount activeName [0]),
    .action demoEnv (demoAction .linkauth demoAccount activeName [])]

/-- The theorem at this run, in whose last state there is a link. -/
theorem links_of_run_demoLinkEvents :
    ∃ db₀ tr db, initializeDatabase demoEnv ⟨⟨0, 1⟩, 500⟩ = .ok db₀ ∧
      Run (Step demoCodec) db₀ tr db ∧ db.links.rows.length = 1 ∧
      ∀ l ∈ db.links, l.requiredPermission = sysioAnyName ∨
        ∃ p ∈ db.permissions, p.owner = l.account ∧ p.name = l.requiredPermission := by
  obtain ⟨db₀, tr, db, h0, hrun, hP⟩ := exists_demoRun demoLinkEvents
    (P := fun tr db => db.links.rows.length = 1 ∧ ∀ t ∈ tr, t.event.OnlyExisting)
    (by decide +kernel)
  obtain ⟨hlength, hfeature⟩ := hP
  exact ⟨db₀, tr, db, h0, hrun, hlength, (links_of_run h0 hrun hfeature).1⟩

end Sysio.PermissionDatabase
