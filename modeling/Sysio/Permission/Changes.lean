import Sysio.Data.Run
import Sysio.Permission.Basic

/-!
# What the handlers do to the permissions

Every event either leaves accounts, permissions and links alone or does one of six things: it adds
an account with its first two permissions, adds a permission below another one, gives a permission
another authority, removes one, sets a link or removes one.  `change_of_apply` says so, with what
the handlers have checked before; what is proved later about permissions follows from it without
looking at the handlers.
-/

namespace Sysio

open Result ObjectIndex

/-- The native actions that concern permissions, with their data. -/
inductive PermissionCall
  | newaccount (create : NewAccount)
  | updateauth (update : UpdateAuth)
  | deleteauth (remove : DeleteAuth)
  | linkauth (requirement : LinkAuth)
  | unlinkauth (unlink : UnlinkAuth)
  deriving DecidableEq, Repr

/-- The native action that an action is, if it is one of these and its data can be unpacked. -/
def ActionCodec.call (codec : ActionCodec) (act : Action) : Option PermissionCall :=
  match NativeHandler.find act.account act.account act.name with
  | some .newaccount => (codec.newaccount act.data).toOption.map .newaccount
  | some .updateauth => (codec.updateauth act.data).toOption.map .updateauth
  | some .deleteauth => (codec.deleteauth act.data).toOption.map .deleteauth
  | some .linkauth => (codec.linkauth act.data).toOption.map .linkauth
  | some .unlinkauth => (codec.unlinkauth act.data).toOption.map .unlinkauth
  | _ => none

/-- The place of a permission among the others, which never changes. -/
structure PermissionObject.SameNode (p p' : PermissionObject) : Prop where
  id_eq : p'.id = p.id
  parent_eq : p'.parent = p.parent
  owner_eq : p'.owner = p.owner
  name_eq : p'.name = p.name

namespace PermissionObject.SameNode

lemma refl (p : PermissionObject) : p.SameNode p := ⟨rfl, rfl, rfl, rfl⟩

variable {p p' : PermissionObject}

lemma trans {p'' : PermissionObject} (h : p.SameNode p') (h' : p'.SameNode p'') :
    p.SameNode p'' :=
  ⟨h'.id_eq.trans h.id_eq, h'.parent_eq.trans h.parent_eq, h'.owner_eq.trans h.owner_eq,
    h'.name_eq.trans h.name_eq⟩

lemma level_eq (h : p.SameNode p') : p'.level = p.level := by
  unfold PermissionObject.level
  rw [h.owner_eq, h.name_eq]

end PermissionObject.SameNode

namespace PermissionDatabase

variable {codec : ActionCodec} {env : PermissionEnv} {db db' : PermissionDatabase}

/-! ### Lookups -/

variable {level : PermissionLevel} {auth : Authority} {name : Name} {time : ℕ} {isPrivileged : Bool}
  {update : UpdateAuth}

lemma findPermission_eq_ok {p : Option PermissionObject} :
    db.findPermission level = .ok p ↔ level.Named ∧ db.permissions.find? level = p := by
  simp only [findPermission, bind_eq_ok, sysAssert_eq_ok, pure_eq_ok, exists_const]

variable {p : PermissionObject} {owner active : Authority} {act : Action}

lemma getPermission_eq_ok :
    db.getPermission level = .ok p ↔ level.Named ∧ p ∈ db.permissions ∧ p.level = level := by
  simp [getPermission, bind_eq_ok, sysAssert_eq_ok, require_eq_ok, find?_eq_some]

/-! ### The authorization manager -/

structure Creates (db : PermissionDatabase) (account name : Name) (parent : ℕ) (auth : Authority)
    (p : PermissionObject) (db' : PermissionDatabase) : Prop where
  owner_eq : p.owner = account
  name_eq : p.name = name
  parent_eq : p.parent = parent
  auth_eq : p.auth = auth
  created : db.permissions.Created p db'.permissions
  accounts_eq : db'.accounts = db.accounts
  links_eq : db'.links = db.links

lemma createPermission_eq_ok {account : Name} {parent : ℕ}
    {r : PermissionObject × PermissionDatabase}
    (h : db.createPermission env account name parent auth time = .ok r) :
    db.Creates account name parent auth r.1 r.2 := by
  simp only [createPermission, bind_eq_ok, sysAssert_eq_ok, require_eq_ok, pure_eq_ok] at h
  obtain ⟨-, -, usage, -, perm, hperm, rfl⟩ := h
  obtain ⟨hp, hcreated⟩ := create_eq_some hperm
  exact ⟨by rw [hp], by rw [hp], by rw [hp], by rw [hp], hcreated, rfl, rfl⟩

structure Modifies (db : PermissionDatabase) (p : PermissionObject) (auth : Authority)
    (db' : PermissionDatabase) : Prop where
  mem : p ∈ db.permissions
  mem_iff : ∃ f : PermissionObject → PermissionObject,
    (∀ q, q.SameNode (f q) ∧ ((f q).auth = auth ∨ (f q).auth = q.auth)) ∧
      ∀ r, r ∈ db'.permissions ↔ ∃ q ∈ db.permissions, r = f q
  accounts_eq : db'.accounts = db.accounts
  links_eq : db'.links = db.links

lemma modifyPermission_eq_ok (hp : p ∈ db.permissions)
    (h : db.modifyPermission env p auth = .ok db') : db.Modifies p auth db' := by
  simp only [modifyPermission, bind_eq_ok, sysAssert_eq_ok, pure_eq_ok] at h
  obtain ⟨-, -, rfl⟩ := h
  have hmem (r : PermissionObject) := mem_modify (x := db.permissions) (i := p.id)
    (f := (·.setAuth auth env.pendingBlockTime)) (fun _ => rfl) (fun _ => rfl) (r := r)
  refine ⟨hp, ⟨_, fun q => ?_, hmem⟩, rfl, rfl⟩
  split_ifs
  · exact ⟨⟨rfl, rfl, rfl, rfl⟩, .inl rfl⟩
  · exact ⟨.refl q, .inr rfl⟩

/-- A permission without children is removed. -/
structure Removes (db : PermissionDatabase) (p : PermissionObject) (db' : PermissionDatabase) :
    Prop where
  mem : p ∈ db.permissions
  parent_ne : ∀ q ∈ db.permissions, q.parent ≠ p.id
  mem_iff : ∀ r, r ∈ db'.permissions ↔ r ∈ db.permissions ∧ r.id ≠ p.id
  accounts_eq : db'.accounts = db.accounts
  links_eq : db'.links = db.links

lemma removePermission_eq_ok (hp : p ∈ db.permissions)
    (h : db.removePermission p = .ok db') : db.Removes p db' := by
  simp only [removePermission, bind_eq_ok, sysAssert_eq_ok, pure_eq_ok] at h
  obtain ⟨-, hchildren, rfl⟩ := h
  exact ⟨hp, hchildren, fun _ => mem_remove, rfl, rfl⟩

/-! ### Accounts -/

/-- An account is added, with its permissions `owner` and `active`. -/
inductive AddsAccount (db : PermissionDatabase) (name : Name) (owner active : Authority)
    (db' : PermissionDatabase) : Prop
  | intro (db₁ db₂ : PermissionDatabase) (o a : PermissionObject) (date : ℕ)
    (new : db.accounts.find? name = none)
    (accounts_eq : db₁.accounts = db.accounts.insert ⟨name, date⟩)
    (permissions_eq : db₁.permissions = db.permissions) (links_eq : db₁.links = db.links)
    (owner_created : db₁.Creates name ownerName 0 owner o db₂)
    (active_created : db₂.Creates name activeName o.id active a db')

lemma addPermissions_eq_ok (h : db.addPermissions env name owner active time = .ok db') :
    ∃ db2 o a, db.Creates name ownerName 0 owner o db2 ∧
      db2.Creates name activeName o.id active a db' := by
  simp only [addPermissions, bind_eq_ok, pure_eq_ok] at h
  obtain ⟨o, ho, a, ha, rfl⟩ := h
  exact ⟨o.2, o.1, a.1, createPermission_eq_ok ho, createPermission_eq_ok ha⟩

lemma addsAccount_of_eq_ok {db1 : PermissionDatabase}
    {date : ℕ} (h1 : db.addAccount name date isPrivileged = .ok db1)
    (h : db1.addPermissions env name owner active time = .ok db') :
    db.AddsAccount name owner active db' := by
  simp only [addAccount, bind_eq_ok, sysAssert_eq_ok, pure_eq_ok] at h1
  obtain ⟨-, hnew, -, -, rfl⟩ := h1
  obtain ⟨db2, o, a, ho, ha⟩ := addPermissions_eq_ok h
  refine ⟨_, db2, o, a, date, hnew, ?_, ?_, ?_, ho, ha⟩ <;> rfl

lemma addsAccount_of_createNativeAccount {genesis : Genesis}
    (h : db.createNativeAccount env genesis name owner active isPrivileged = .ok db') :
    db.AddsAccount name owner active db' := by
  simp only [createNativeAccount, bind_eq_ok] at h
  obtain ⟨db1, h1, h⟩ := h
  exact addsAccount_of_eq_ok h1 h

lemma AddsAccount.links_eq (h : db.AddsAccount name owner active db') : db'.links = db.links := by
  obtain ⟨db1, db2, o, a, date, -, -, -, hlinks, ho, ha⟩ := h
  rw [ha.links_eq, ho.links_eq, hlinks]

/-! ### Stored authorities -/

/-- What is checked of an authority before it is stored, apart from the order of its factors and the
permissions that it refers to. -/
def Storable (db : PermissionDatabase) (auth : Authority) : Prop :=
  auth.WellFormed ∧ ∀ w ∈ auth.accounts,
    db.accounts.find? w.permission.actor ≠ none ∧ w.permission.permission ≠ Name.empty

lemma validateAccountPermission_eq_ok {a : PermissionLevelWeight}
    (h : db.validateAccountPermission a = .ok ()) :
    db.accounts.find? a.permission.actor ≠ none ∧ a.permission.permission ≠ Name.empty := by
  simp only [validateAccountPermission, bind_eq_ok, sysAssert_eq_ok] at h
  obtain ⟨-, haccount, h⟩ := h
  refine ⟨haccount, ?_⟩
  split_ifs at h with hname
  · -- the three names that are not looked up are not empty
    rcases hname with hname | hname | hname <;> rw [hname] <;> decide
  · split at h
    · split_ifs at h
    · next p hp => exact (getPermission_eq_ok.mp hp).1.2

lemma storable_of_validate (hvalidate : auth.validate = true)
    (h : db.validateAuthorityPrecondition env auth = .ok ()) : db.Storable auth := by
  simp only [validateAuthorityPrecondition, bind_eq_ok, sysAssert_eq_ok] at h
  obtain ⟨_, haccounts, _⟩ := h
  exact ⟨Authority.wellFormed_of_validate hvalidate, fun w hw =>
    validateAccountPermission_eq_ok (forM_eq_ok.mp haccounts _ hw)⟩

/-! ### Events -/

/-- What an event does to accounts, permissions and links. -/
inductive Change (codec : ActionCodec) (db : PermissionDatabase) :
    Event → PermissionDatabase → Prop
  | keep {e : Event} {db' : PermissionDatabase} (permissions_eq : db'.permissions = db.permissions)
    (accounts_eq : db'.accounts = db.accounts) (links_eq : db'.links = db.links) :
    Change codec db e db'
  | newaccount {env : PermissionEnv} {act : Action} {create : NewAccount}
    {db₁ db' : PermissionDatabase} (hname : create.name ≠ Name.empty)
    (hadds : db.AddsAccount create.name create.owner create.active db')
    (haccounts : db₁.accounts = db'.accounts) (howner : db₁.Storable create.owner)
    (hactive : db₁.Storable create.active) : Change codec db (.action env act) db'
  | create {env : PermissionEnv} {act : Action} {update : UpdateAuth} {p : PermissionObject}
    {parent : ℕ} {db' : PermissionDatabase} (hcall : codec.call act = some (.updateauth update))
    (haccount : db.accounts.find? update.account ≠ none)
    (hparent : update.permission ≠ ownerName → ∃ q ∈ db.permissions,
      q.level = ⟨update.account, update.parent⟩ ∧ q.id = parent)
    (hroot : update.permission = ownerName → parent = 0) (hauth : db.Storable update.auth)
    (hcreates : db.Creates update.account update.permission parent update.auth p db') :
    Change codec db (.action env act) db'
  | modify {env : PermissionEnv} {act : Action} {update : UpdateAuth} {p : PermissionObject}
    {db' : PermissionDatabase} (hcall : codec.call act = some (.updateauth update))
    (hlevel : p.level = ⟨update.account, update.permission⟩)
    (hparent : update.permission ≠ ownerName → ∃ q ∈ db.permissions,
      q.level = ⟨update.account, update.parent⟩ ∧ q.id = p.parent)
    (hauth : db.Storable update.auth) (hmodifies : db.Modifies p update.auth db') :
    Change codec db (.action env act) db'
  | remove {env : PermissionEnv} {act : Action} {remove : DeleteAuth} {p : PermissionObject}
    {db' : PermissionDatabase} (hcall : codec.call act = some (.deleteauth remove))
    (hlevel : p.level = ⟨remove.account, remove.permission⟩)
    (hnamed : p.level.Named) (hname : p.name ≠ ownerName ∧ p.name ≠ activeName)
    (hlinks : ∀ l ∈ db.links, l.account = p.owner → l.requiredPermission ≠ p.name)
    (hremoves : db.Removes p db') : Change codec db (.action env act) db'
  | link {env : PermissionEnv} {act : Action} {requirement : LinkAuth} {db' : PermissionDatabase}
    (hcall : codec.call act = some (.linkauth requirement))
    (permissions_eq : db'.permissions = db.permissions) (accounts_eq : db'.accounts = db.accounts)
    (htarget : requirement.requirement ≠ sysioAnyName → db.linkTarget env requirement ≠ none)
    (links_eq : db'.links = db.links.upsert
      ⟨requirement.account, requirement.code, requirement.type, requirement.requirement⟩) :
    Change codec db (.action env act) db'
  | unlink {env : PermissionEnv} {act : Action} {unlink : UnlinkAuth} {db' : PermissionDatabase}
    (hcall : codec.call act = some (.unlinkauth unlink))
    (permissions_eq : db'.permissions = db.permissions) (accounts_eq : db'.accounts = db.accounts)
    (links_eq : db'.links = db.links.erase (unlink.account, unlink.code, unlink.type)) :
    Change codec db (.action env act) db'

lemma change_of_newaccount {create : NewAccount}
    (h : db.applySysioNewaccount env act create = .ok db') :
    Change codec db (.action env act) db' := by
  simp only [applySysioNewaccount, bind_eq_ok, sysAssert_eq_ok] at h
  obtain ⟨-, -, -, howner, -, hactive, -, hname, -, -, -, -, -, -, -, -, db1, h1, _, howner', _,
    hactive', h⟩ := h
  have hadds := addsAccount_of_eq_ok h1 h
  obtain ⟨db2, o, a, ho, ha⟩ := addPermissions_eq_ok h
  exact .newaccount hname hadds (by rw [ha.accounts_eq, ho.accounts_eq])
    (storable_of_validate howner howner') (storable_of_validate hactive hactive')

lemma applySysioUpdateauth_eq_ok (h : db.applySysioUpdateauth env act update = .ok db') :
    db.accounts.find? update.account ≠ none ∧ db.Storable update.auth ∧
    ∃ parentId, (update.permission = ownerName → parentId = 0) ∧
      (update.permission ≠ ownerName → ∃ q ∈ db.permissions,
        q.level = ⟨update.account, update.parent⟩ ∧ q.id = parentId) ∧
      match db.permissions.find? ⟨update.account, update.permission⟩ with
      | some p => parentId = p.parent ∧ db.Modifies p update.auth db'
      | none => ∃ p, db.Creates update.account update.permission parentId update.auth p db' := by
  simp only [applySysioUpdateauth, updatePermission, bind_eq_ok, sysAssert_eq_ok,
    require_eq_ok, findPermission_eq_ok] at h
  obtain ⟨-, -, -, -, -, -, -, -, account, haccount, -, hvalidate, -, -, -, -, -, -, -, -, _, hpre,
    permission, ⟨-, hfind⟩, parentId, hparentId, h⟩ := h
  refine ⟨by rw [haccount]; simp, storable_of_validate hvalidate hpre, parentId, ?_, ?_, ?_⟩
  · intro heq
    rw [PermissionDatabase.parentId, if_neg (not_not.mpr heq), pure_eq_ok] at hparentId
    exact hparentId.symm
  · intro hne
    rw [PermissionDatabase.parentId, if_pos hne, map_eq_ok] at hparentId
    obtain ⟨q, hq, hid⟩ := hparentId
    obtain ⟨-, hmem, hlevel⟩ := getPermission_eq_ok.mp hq
    exact ⟨q, hmem, hlevel, hid⟩
  · rw [hfind]
    cases permission with
    | some p =>
      simp only [bind_eq_ok, sysAssert_eq_ok] at h
      obtain ⟨-, hparent, hmodify⟩ := h
      exact ⟨hparent, modifyPermission_eq_ok (find?_eq_some.mp hfind).1 hmodify⟩
    | none =>
      simp only [bind_eq_ok, pure_eq_ok] at h
      obtain ⟨p, hcreate, rfl⟩ := h
      exact ⟨p.1, createPermission_eq_ok hcreate⟩

lemma change_of_updateauth (hcall : codec.call act = some (.updateauth update))
    (h : db.applySysioUpdateauth env act update = .ok db') :
    Change codec db (.action env act) db' := by
  obtain ⟨haccount, hauth, parentId, hroot, hparent, h⟩ := applySysioUpdateauth_eq_ok h
  split at h
  · next p hfind =>
    obtain ⟨rfl, hmodifies⟩ := h
    exact .modify hcall (find?_eq_some.mp hfind).2 hparent hauth hmodifies
  · obtain ⟨p, hcreates⟩ := h
    exact .create hcall haccount hparent hroot hauth hcreates

lemma change_of_deleteauth {remove : DeleteAuth}
    (hcall : codec.call act = some (.deleteauth remove))
    (h : db.applySysioDeleteauth act remove = .ok db') : Change codec db (.action env act) db' := by
  simp only [applySysioDeleteauth, bind_eq_ok, sysAssert_eq_ok] at h
  obtain ⟨-, -, -, hactive, -, howner, -, hlinks, p, hp, h⟩ := h
  obtain ⟨hnamed, hmem, hlevel⟩ := getPermission_eq_ok.mp hp
  have hname : p.name = remove.permission := congrArg PermissionLevel.permission hlevel
  have hactor : p.owner = remove.account := congrArg PermissionLevel.actor hlevel
  refine .remove hcall hlevel (hlevel ▸ hnamed) (hname ▸ ⟨howner, hactive⟩) ?_
    (removePermission_eq_ok hmem h)
  rwa [hname, hactor]

lemma change_of_linkauth {requirement : LinkAuth}
    (hcall : codec.call act = some (.linkauth requirement))
    (h : db.applySysioLinkauth env act requirement = .ok db') :
    Change codec db (.action env act) db' := by
  simp only [applySysioLinkauth, bind_eq_ok, sysAssert_eq_ok] at h
  obtain ⟨-, -, -, -, -, -, -, -, -, htarget, h⟩ := h
  split at h
  · simp only [bind_eq_ok, pure_eq_ok] at h
    obtain ⟨-, -, rfl⟩ := h
    exact .link hcall rfl rfl htarget rfl
  · next hfind =>
    cases h
    refine .link hcall rfl rfl htarget ?_
    rw [Table.upsert, if_pos hfind]

lemma change_of_unlinkauth {unlink : UnlinkAuth}
    (hcall : codec.call act = some (.unlinkauth unlink))
    (h : db.applySysioUnlinkauth act unlink = .ok db') : Change codec db (.action env act) db' := by
  simp only [applySysioUnlinkauth, bind_eq_ok, require_eq_ok, pure_eq_ok] at h
  obtain ⟨-, -, link, hlink, rfl⟩ := h
  refine .unlink hcall rfl rfl ?_
  rw [← Table.key_eq_of_find? hlink]

/-- The handler of a native action. -/
def applyCall (env : PermissionEnv) (db : PermissionDatabase) (act : Action) :
    PermissionCall → Result PermissionDatabase
  | .newaccount create => db.applySysioNewaccount env act create
  | .updateauth update => db.applySysioUpdateauth env act update
  | .deleteauth remove => db.applySysioDeleteauth act remove
  | .linkauth requirement => db.applySysioLinkauth env act requirement
  | .unlinkauth unlink => db.applySysioUnlinkauth act unlink

/-- An action either is one of the native actions, and then its handler has run, or does nothing
here. -/
lemma applyAction_eq_ok (h : db.applyAction codec env act = .ok db') :
    codec.call act = none ∧ db' = db ∨
      ∃ call, codec.call act = some call ∧ db.applyCall env act call = .ok db' := by
  unfold applyAction at h
  unfold ActionCodec.call
  have hcalled {α : Type} {check : Result Unit} {data : Result α} {mk : α → PermissionCall}
      (h : (check >>= fun _ => data >>= fun d => db.applyCall env act (mk d)) = .ok db') :
      ∃ call, data.toOption.map mk = some call ∧ db.applyCall env act call = .ok db' := by
    simp only [bind_eq_ok] at h
    obtain ⟨-, -, d, rfl, h⟩ := h
    exact ⟨mk d, rfl, h⟩
  generalize NativeHandler.find act.account act.account act.name = found at h ⊢
  cases found with
  | none => exact .inl ⟨rfl, (pure_eq_ok.mp h).symm⟩
  | some handler =>
    cases handler with
    | newaccount | updateauth | deleteauth | linkauth | unlinkauth => exact .inr (hcalled h)
    | _ => exact .inl ⟨rfl, (pure_eq_ok.mp h).symm⟩

lemma applyCall_of_call {call : PermissionCall} (hcall : codec.call act = some call)
    (h : db.applyAction codec env act = .ok db') : db.applyCall env act call = .ok db' := by
  obtain ⟨hnone, -⟩ | ⟨call', hcall', h⟩ := applyAction_eq_ok h
  · rw [hnone] at hcall
    cases hcall
  · obtain rfl := Option.some.inj (hcall.symm.trans hcall')
    exact h

/-- **What an event can do.** -/
theorem change_of_apply {e : Event} (h : db.apply codec e = .ok db') : Change codec db e db' := by
  cases e with
  | setPrivileged =>
    simp only [apply, setPrivileged, bind_eq_ok, pure_eq_ok] at h
    obtain ⟨-, -, rfl⟩ := h
    exact .keep rfl rfl rfl
  | action =>
    rcases applyAction_eq_ok h with ⟨-, rfl⟩ | ⟨call, hcall, h⟩
    · exact .keep rfl rfl rfl
    · cases call with
      | newaccount create => exact change_of_newaccount h
      | updateauth update => exact change_of_updateauth hcall h
      | deleteauth remove => exact change_of_deleteauth hcall h
      | linkauth => exact change_of_linkauth hcall h
      | unlinkauth unlink => exact change_of_unlinkauth hcall h

end PermissionDatabase

end Sysio
