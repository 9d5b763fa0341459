import Sysio.Permission.Authorization

/-!
# What the authorization check is worth

`Entitled db call auth` says of a state what the check means to ensure: the declared permission is
one of the account, and is the permission to be changed or an ancestor of it.  The check establishes
it for the state before the transaction (`entitled_of_checkAuthorization`).

Until the action is executed, earlier actions of the transaction may have created, changed and
removed permissions.  Ancestors stay ancestors as long as permissions of the account are not
removed, because a parent is never changed; and a permission that was created in the meantime stands
under the parent that the handler asks for.  Removal is what breaks it: `active` may remove a
permission of its own and have it created again, in the same transaction, directly under `owner`.
-/

namespace Sysio.PermissionDatabase

open Result List PermissionLevel ObjectIndex PermissionObject

variable {minPermission r t : PermissionObject} {what : String} {level : PermissionLevel}
  {delay : ℤ} {e : Event} {code type : Name} {codec : ActionCodec} {env : PermissionEnv}
  {aenv : AuthorizationEnv} {db db' : PermissionDatabase}

/-! ### Entitlement -/

section

variable (db)

/-- The permission at the first level is the one at the second, or an ancestor of it. -/
def Dominates (auth level : PermissionLevel) : Prop :=
  ∃ p ∈ db.permissions, p.level = auth ∧ ∃ q ∈ db.permissions, q.level = level ∧
    Ancestor db.parentOf p.id q.id

/-- The permission that an `updateauth` changes, or the parent of the one that it creates. -/
def updateTarget (update : UpdateAuth) : PermissionLevel :=
  if db.permissions.find? ⟨update.account, update.permission⟩ = none then
    ⟨update.account, update.parent⟩
  else ⟨update.account, update.permission⟩

/-- The declared authorization suffices for the action in this state. -/
def Entitled (auth : PermissionLevel) : PermissionCall → Prop
  | .newaccount _ => True
  | .updateauth update =>
    if IsSpecial update.permission then auth.actor = sysioName
    else auth.actor = update.account ∧ db.Dominates auth (db.updateTarget update)
  | .deleteauth del =>
    auth.actor = del.account ∧ db.Dominates auth ⟨del.account, del.permission⟩
  | .linkauth link =>
    auth.actor = link.account ∧
      ∀ name, minimumOf (db.lookupLinkedPermission link.account link.code link.type) = some name →
        db.Dominates auth ⟨link.account, name⟩
  | .unlinkauth unlink =>
    auth.actor = unlink.account ∧
      ∀ name, minimumOf (db.lookupLinkedPermission unlink.account unlink.code unlink.type) =
        some name → db.Dominates auth ⟨unlink.account, name⟩

end

variable {p q : PermissionObject} {satisfied : List PermissionLevel} {db'' : PermissionDatabase}

/-- `satisfies` decides about `Dominates`. -/
lemma dominates_iff (hs : db.Shaped) (hp : p ∈ db.permissions)
    (hq : q ∈ db.permissions) (howner : p.owner = q.owner) :
    db.Dominates p.level q.level ↔ p.satisfies q db.permissions = .ok true := by
  obtain ⟨b, hb, hiff⟩ := satisfiesWithin_spec hs hp hq le_rfl
  constructor
  · rintro ⟨p', hp', hlevel, q', hq', hlevel', hancestor⟩
    obtain rfl := eq_of_key_eq hp' hp hlevel
    obtain rfl := eq_of_key_eq hq' hq hlevel'
    rw [satisfies, hb, hiff.mpr ⟨howner, hancestor⟩]
  · intro h
    rw [satisfies, hb, Except.ok.injEq] at h
    exact ⟨p, hp, rfl, q, hq, rfl, (hiff.mp h).2⟩

variable {auth : PermissionLevel} {auths : List PermissionLevel} {update : UpdateAuth}
  {act : Action} {call : PermissionCall} {account : Name}

lemma dominates_of_assertSatisfies (hs : db.Shaped) (hmin : minPermission ∈ db.permissions)
    (h : db.assertSatisfies auth minPermission what = .ok ()) :
    auth.actor = minPermission.owner ∧ db.Dominates auth minPermission.level := by
  simp only [assertSatisfies, bind_eq_ok, sysAssert_eq_ok] at h
  obtain ⟨p, hp, b, hb, rfl⟩ := h
  obtain ⟨-, hmem, rfl⟩ := getPermission_eq_ok.mp hp
  obtain ⟨b, hb', hiff⟩ := satisfiesWithin_spec hs hmem hmin le_rfl
  rw [satisfies, hb', Except.ok.injEq] at hb
  obtain ⟨howner, hancestor⟩ := hiff.mp hb
  exact ⟨howner, p, hmem, rfl, minPermission, hmin, rfl, hancestor⟩

lemma dominates_of_getPermission (hs : db.Shaped)
    (h : (db.getPermission level >>= (db.assertSatisfies auth · what)) = .ok ()) :
    db.Dominates auth level := by
  obtain ⟨p, hp, h⟩ := bind_eq_ok.mp h
  obtain ⟨-, hmem, hlevel⟩ := getPermission_eq_ok.mp hp
  exact hlevel ▸ (dominates_of_assertSatisfies hs hmem h).2

/-! ### The check -/

lemma singleAuthorization_eq_ok
    (h : singleAuthorization auths what = .ok auth) : auths = [auth] := by
  unfold singleAuthorization at h
  split at h
  · cases h
    rfl
  · cases h

lemma updateauthMinimum_eq_ok (h : db.updateauthMinimum update = .ok p) :
    p ∈ db.permissions ∧ p.level = db.updateTarget update := by
  simp only [updateauthMinimum, bind_eq_ok, findPermission_eq_ok] at h
  obtain ⟨found, ⟨-, hfind⟩, h⟩ := h
  unfold updateTarget
  cases found with
  | some q =>
    cases h
    rw [hfind, if_neg (by simp)]
    exact find?_eq_some.mp hfind
  | none =>
    rw [if_pos hfind]
    exact (getPermission_eq_ok.mp h).2

section

variable (hs : db.Shaped)
include hs

lemma entitled_of_checkUpdateauth (h : db.checkUpdateauthAuthorization update auths = .ok ()) :
    ∃ auth, auths = [auth] ∧ db.Entitled auth (.updateauth update) := by
  simp only [checkUpdateauthAuthorization, bind_eq_ok] at h
  obtain ⟨auth, hauth, -, -, h⟩ := h
  refine ⟨auth, singleAuthorization_eq_ok hauth, ?_⟩
  simp only [Entitled]
  split_ifs at h ⊢ with hspecial
  · exact sysAssert_eq_ok.mp h
  · simp only [bind_eq_ok] at h
    obtain ⟨p, hp, h⟩ := h
    obtain ⟨hmem, hlevel⟩ := updateauthMinimum_eq_ok hp
    obtain ⟨hactor, hdominates⟩ := dominates_of_assertSatisfies hs hmem h
    have howner : p.owner = update.account := by
      have hactor := congrArg actor hlevel
      unfold updateTarget at hactor
      split_ifs at hactor <;> exact hactor
    exact ⟨hactor.trans howner, hlevel ▸ hdominates⟩

lemma entitled_of_checkDeleteauth {del : DeleteAuth}
    (h : db.checkDeleteauthAuthorization del auths = .ok ()) :
    ∃ auth, auths = [auth] ∧ db.Entitled auth (.deleteauth del) := by
  simp only [checkDeleteauthAuthorization, bind_eq_ok, sysAssert_eq_ok] at h
  obtain ⟨auth, hauth, -, hactor, h⟩ := h
  exact ⟨auth, singleAuthorization_eq_ok hauth, hactor,
    dominates_of_getPermission hs (bind_eq_ok.mpr h)⟩

lemma entitled_of_checkLinkauth {link : LinkAuth}
    (h : db.checkLinkauthAuthorization aenv link auths = .ok ()) :
    ∃ auth, auths = [auth] ∧ db.Entitled auth (.linkauth link) := by
  simp only [checkLinkauthAuthorization, bind_eq_ok, sysAssert_eq_ok] at h
  obtain ⟨auth, hauth, -, hactor, _, _, r, hr, h⟩ := h
  refine ⟨auth, singleAuthorization_eq_ok hauth, hactor, fun name hname => ?_⟩
  have hlinkable : link.code = sysioName → ¬ Unlinkable link.type := by
    simp only [lookupMinimumPermission, bind_eq_ok, sysAssert_eq_ok] at hr
    obtain ⟨-, hlinkable, -⟩ := hr
    exact hlinkable
  rw [lookupMinimumPermission_eq hlinkable, hname, Except.ok.injEq] at hr
  subst hr
  exact dominates_of_getPermission hs h

lemma entitled_of_checkUnlinkauth {unlink : UnlinkAuth}
    (h : db.checkUnlinkauthAuthorization unlink auths = .ok ()) :
    ∃ auth, auths = [auth] ∧ db.Entitled auth (.unlinkauth unlink) := by
  simp only [checkUnlinkauthAuthorization, bind_eq_ok, sysAssert_eq_ok, require_eq_ok] at h
  obtain ⟨auth, hauth, -, hactor, linked, hlinked, h⟩ := h
  refine ⟨auth, singleAuthorization_eq_ok hauth, hactor, fun name hname => ?_⟩
  simp only [hlinked, minimumOf] at hname
  split_ifs at h hname with hany
  cases hname
  exact dominates_of_getPermission hs h

/-- Of every action that changes permissions or links, the check establishes that its one declared
authorization suffices in the state that is checked. -/
lemma entitled_of_checkAction {delays delays' : PermissionDelays}
    (hcall : aenv.codec.call act = some call) (hnew : ∀ create, call ≠ .newaccount create)
    (h : db.checkAction aenv delay satisfied delays act = .ok delays') :
    ∃ auth, act.authorization = [auth] ∧ db.Entitled auth call := by
  simp only [checkAction, bind_eq_ok] at h
  obtain ⟨special, hspecial, -⟩ := h
  -- the native action that is found is the special case of that name
  have hfind {handler : NativeHandler} (hne : handler ≠ .reducepolicy)
      (h : NativeHandler.find act.account act.account act.name = some handler) :
      act.account = sysioName ∧ act.name = handler.actionName := by
    have hfound := find?_some h
    rw [decide_eq_true_eq] at hfound
    obtain ⟨haccount, -, hname⟩ := hfound
    refine ⟨haccount.trans ?_, hname⟩
    cases handler with
    | reducepolicy => exact absurd rfl hne
    | _ => rfl
  have hchecked {α : Type} {data : Result α} {d : α} {check : α → Result Unit}
      {rest : α → Unit → Result (Option ℤ)} (hd : data.toOption = some d)
      (h : (data >>= fun d => check d >>= rest d) = .ok special) : check d = .ok () := by
    rw [eq_ok_of_toOption hd, ok_bind, bind_eq_ok] at h
    obtain ⟨_, hcheck, _⟩ := h
    exact hcheck
  unfold ActionCodec.call at hcall
  unfold checkSpecialCase at hspecial
  split at hcall <;> simp only [Option.map_eq_some_iff, reduceCtorEq] at hcall
  · obtain ⟨create, -, rfl⟩ := hcall
    exact absurd rfl (hnew create)
  · next hhandler =>
    obtain ⟨update, hupdate, rfl⟩ := hcall
    obtain ⟨haccount, hname⟩ := hfind (by decide) hhandler
    rw [if_pos haccount, if_pos hname] at hspecial
    have hcheck := hchecked hupdate hspecial
    exact entitled_of_checkUpdateauth hs hcheck
  · next hhandler =>
    obtain ⟨del, hdel, rfl⟩ := hcall
    obtain ⟨haccount, hname⟩ := hfind (by decide) hhandler
    rw [if_pos haccount, hname, if_neg (by decide), if_pos rfl] at hspecial
    have hcheck := hchecked hdel hspecial
    exact entitled_of_checkDeleteauth hs hcheck
  · next hhandler =>
    obtain ⟨link, hlink, rfl⟩ := hcall
    obtain ⟨haccount, hname⟩ := hfind (by decide) hhandler
    rw [if_pos haccount, hname, if_neg (by decide), if_neg (by decide), if_pos rfl] at hspecial
    have hcheck := hchecked hlink hspecial
    exact entitled_of_checkLinkauth hs hcheck
  · next hhandler =>
    obtain ⟨unlink, hunlink, rfl⟩ := hcall
    obtain ⟨haccount, hname⟩ := hfind (by decide) hhandler
    rw [if_pos haccount, hname, if_neg (by decide), if_neg (by decide), if_neg (by decide),
      if_pos rfl] at hspecial
    have hcheck := hchecked hunlink hspecial
    exact entitled_of_checkUnlinkauth hs hcheck

lemma entitled_of_checkAuthorization {actions : List Action}
    {keys : Finset PublicKey} {permissions : Finset PermissionLevel}
    {allowUnusedKeys checkButDontFail : Bool}
    (hact : act ∈ actions) (hcall : aenv.codec.call act = some call)
    (hnew : ∀ create, call ≠ .newaccount create)
    (h : db.checkAuthorization aenv actions keys permissions delay allowUnusedKeys
      checkButDontFail satisfied = .ok ()) :
    ∃ auth, act.authorization = [auth] ∧ db.Entitled auth call := by
  simp only [checkAuthorization, bind_eq_ok] at h
  obtain ⟨delays, hloop, -⟩ := h
  obtain ⟨_, _, hround⟩ := Result.of_foldlM_eq_ok hloop hact
  exact entitled_of_checkAction hs hcall hnew hround

/-! ### Until the action is executed -/

/-- Ancestors among the permissions of an account stay, while none of these is removed. -/
lemma ancestor_of_persists (h : Persists (fun p => p.owner = account) db db') {i : ℕ}
    (hq : q ∈ db.permissions) (howner : q.owner = account)
    (hancestor : Ancestor db.parentOf i q.id) : Ancestor db'.parentOf i q.id := by
  refine hancestor.of_kept (S := fun c => ∃ r ∈ db.permissions, r.id = c ∧ r.owner = account) ?_
    ⟨q, hq, rfl, howner⟩
  rintro _ p ⟨r, hr, rfl, hrowner⟩ hparent
  rw [parentOf_id hr] at hparent
  split_ifs at hparent with hroot
  cases hparent
  obtain ⟨s, hs', hsid, hsowner, -⟩ := hs.exists_parent hr hroot
  obtain ⟨r', hr', hsame⟩ := h r hr hrowner
  refine ⟨⟨s, hs', hsid, hsowner.trans hrowner⟩, ?_⟩
  rw [← hsame.id_eq, parentOf_id hr', hsame.parent_eq, if_neg hroot]

lemma Dominates.of_persists (h : Persists (fun p => p.owner = account) db db')
    (hauth : auth.actor = account) (hlevel : level.actor = account)
    (hd : db.Dominates auth level) : db'.Dominates auth level := by
  obtain ⟨p, hp, rfl, q, hq, rfl, hancestor⟩ := hd
  obtain ⟨p', hp', hsame⟩ := h p hp hauth
  obtain ⟨q', hq', hsame'⟩ := h q hq hlevel
  refine ⟨p', hp', hsame.level_eq, q', hq', hsame'.level_eq, ?_⟩
  rw [hsame.id_eq, hsame'.id_eq]
  exact ancestor_of_persists hs h hq hlevel hancestor

end

/-- The event removes a permission of the account. -/
def Deletes (codec : ActionCodec) (account : Name) (e : Event) : Prop :=
  ∃ env act del, e = .action env act ∧ codec.call act = some (.deleteauth del) ∧
    del.account = account

/-- The event changes a link of the account for the contract. -/
def Relinks (codec : ActionCodec) (account code : Name) (e : Event) : Prop :=
  ∃ env act, e = .action env act ∧
    ((∃ link, codec.call act = some (.linkauth link) ∧ link.account = account ∧ link.code = code) ∨
    ∃ unlink, codec.call act = some (.unlinkauth unlink) ∧ unlink.account = account ∧
      unlink.code = code)

/-- The event leaves alone what the check of the action has looked at. -/
def Undisturbed (codec : ActionCodec) (e : Event) : PermissionCall → Prop
  | .newaccount _ => True
  | .updateauth update => ¬ Deletes codec update.account e
  | .deleteauth del => ¬ Deletes codec del.account e
  | .linkauth link =>
    ¬ Deletes codec link.account e ∧ ¬ Relinks codec link.account link.code e
  | .unlinkauth unlink =>
    ¬ Deletes codec unlink.account e ∧ ¬ Relinks codec unlink.account unlink.code e

lemma spares_of_not_deletes (h : ¬ Deletes codec account e) :
    Spares codec (fun p => p.owner = account) e := by
  intro env act remove p he hcall hlevel _ howner
  exact h ⟨env, act, remove, he, hcall, (congrArg actor hlevel).symm.trans howner⟩

variable {tr : List (Transition PermissionDatabase Event)}

lemma persists_of_not_deletes (hrun : Run (Step codec) db tr db')
    (h : ∀ t ∈ tr, ¬ Deletes codec account t.event) :
    Persists (fun p => p.owner = account) db db' :=
  persists_of_run (fun _ _ hsame howner => hsame.owner_eq.trans howner)
    (fun t ht => spares_of_not_deletes (h t ht)) hrun

lemma find?_links_of_apply (he : ¬ Relinks codec account code e) (h : db.apply codec e = .ok db') :
    db'.links.find? (account, code, type) = db.links.find? (account, code, type) := by
  cases change_of_apply h with
  | keep _ _ hlinks => rw [hlinks]
  | newaccount _ hadds _ _ _ => rw [hadds.links_eq]
  | create _ _ _ _ _ hcreates => rw [hcreates.links_eq]
  | modify _ _ _ _ hmodifies => rw [hmodifies.links_eq]
  | remove _ _ _ _ _ hremoves => rw [hremoves.links_eq]
  | @link env act requirement _ hcall _ _ _ hlinks =>
    rw [hlinks, Table.find?_upsert, if_neg]
    intro hkey
    simp only [PermissionLinkObject.key, Prod.mk.injEq] at hkey
    exact he ⟨env, act, rfl, .inl ⟨requirement, hcall, hkey.1, hkey.2.1⟩⟩
  | @unlink env act unlink _ hcall _ _ hlinks =>
    rw [hlinks, Table.find?_erase, if_neg]
    intro hkey
    simp only [Prod.mk.injEq] at hkey
    exact he ⟨env, act, rfl, .inr ⟨unlink, hcall, hkey.1.symm, hkey.2.1.symm⟩⟩

lemma lookupLinkedPermission_of_run
    (hrun : Run (Step codec) db tr db') (h : ∀ t ∈ tr, ¬ Relinks codec account code t.event) :
    db'.lookupLinkedPermission account code type = db.lookupLinkedPermission account code type := by
  have hfind : ∀ type,
      db'.links.find? (account, code, type) = db.links.find? (account, code, type) := by
    induction hrun with
    | nil => exact fun _ => rfl
    | snoc _ hstep ih =>
      intro type
      have hlast := h _ (mem_append_right _ mem_cons_self)
      rw [find?_links_of_apply hlast hstep, ih fun t ht => h t (mem_append_left _ ht)]
  unfold lookupLinkedPermission
  rw [hfind, hfind]

/-- An `updateauth` that succeeds on an existing permission names the parent that it has. -/
lemma exists_parent_of_updateauth (hcall : codec.call act = some (.updateauth update))
    (hfind : db.permissions.find? ⟨update.account, update.permission⟩ = some q)
    (hname : update.permission ≠ ownerName) (h : db.apply codec (.action env act) = .ok db') :
    ∃ r ∈ db.permissions, r.level = ⟨update.account, update.parent⟩ ∧ r.id = q.parent := by
  obtain ⟨-, -, parentId, -, hparent, h⟩ := applySysioUpdateauth_eq_ok (applyCall_of_call hcall h)
  rw [hfind] at h
  exact h.1 ▸ hparent hname

lemma account_ne_empty_of_updateauth (hs : db.Shaped)
    (hcall : codec.call act = some (.updateauth update))
    (h : db.apply codec (.action env act) = .ok db') : update.account ≠ Name.empty := by
  intro hempty
  exact (applySysioUpdateauth_eq_ok (applyCall_of_call hcall h)).1 (hempty ▸ hs.named)

/-- An account that has any permission has its `owner` permission. -/
lemma find?_owner_ne_none (hs : db.Shaped) (hr : db.Rooted)
    (ht : t ∈ db.permissions) (howner : t.owner ≠ Name.empty) :
    db.permissions.find? ⟨t.owner, ownerName⟩ ≠ none := by
  obtain ⟨a, ha⟩ := Option.ne_none_iff_exists'.mp (hs.account t ht (hs.id_ne_zero ht howner))
  obtain ⟨hmem, hname⟩ := Table.find?_eq_some.mp ha
  obtain ⟨p, hp, hpowner, hpname⟩ := (hr a hmem).1
  rw [find?_eq_some.mpr ⟨hp, by rw [level, hpowner, hpname, hname]⟩]
  simp

lemma Dominates.of_parent
    (hq : q ∈ db.permissions) (hr : r ∈ db.permissions) (hid : r.id = q.parent) (hr0 : r.id ≠ 0)
    (h : db.Dominates auth r.level) : db.Dominates auth q.level := by
  obtain ⟨p, hp, hauth, r', hr', hlevel, hancestor⟩ := h
  obtain rfl := eq_of_key_eq hr' hr hlevel
  refine ⟨p, hp, hauth, q, hq, rfl, hancestor.of_parent ?_⟩
  rw [parentOf_id hq, ← hid, if_neg hr0]

lemma Entitled.updateauth_of_run (hs : db.Shaped) (hr : db.Rooted) (hs' : db'.Shaped)
    (hpersists : Persists (fun p => p.owner = update.account) db db')
    (hcall : codec.call act = some (.updateauth update))
    (hstep : db'.apply codec (.action env act) = .ok db'')
    (h : db.Entitled auth (.updateauth update)) : db'.Entitled auth (.updateauth update) := by
  simp only [Entitled] at h ⊢
  split_ifs at h ⊢
  · exact h
  · obtain ⟨hactor, hdominates⟩ := h
    refine ⟨hactor, ?_⟩
    have htarget : (db.updateTarget update).actor = update.account := by
      unfold updateTarget
      split_ifs <;> rfl
    have hd := hdominates.of_persists hs hpersists hactor htarget
    unfold updateTarget at hd ⊢
    cases hfind : db.permissions.find? ⟨update.account, update.permission⟩ with
    | some q =>
      -- the permission was there, and still is
      obtain ⟨hq, hlevel⟩ := find?_eq_some.mp hfind
      obtain ⟨q', hq', hsame⟩ := hpersists q hq (congrArg actor hlevel)
      have hfind' := find?_eq_some.mpr ⟨hq', hsame.level_eq.trans hlevel⟩
      rw [hfind, if_neg (by simp)] at hd
      rwa [hfind', if_neg (by simp)]
    | none =>
      rw [hfind, if_pos rfl] at hd
      cases hfind' : db'.permissions.find? ⟨update.account, update.permission⟩ with
      | none => rwa [if_pos rfl]
      | some q =>
        -- it was created in the meantime, under the parent that the action names
        rw [if_neg (by simp)]
        obtain ⟨hq, hlevel⟩ := find?_eq_some.mp hfind'
        obtain ⟨-, -, -, t, ht, htlevel, -⟩ := hdominates
        rw [updateTarget, hfind, if_pos rfl] at htlevel
        have htowner : t.owner = update.account := congrArg actor htlevel
        have haccount := account_ne_empty_of_updateauth hs' hcall hstep
        have howner : update.permission ≠ ownerName := by
          intro heq
          refine find?_owner_ne_none hs hr ht (htowner ▸ haccount) ?_
          rw [htowner, ← heq, hfind]
        obtain ⟨r, hr, hrlevel, hrid⟩ := exists_parent_of_updateauth hcall hfind' howner hstep
        rw [← hlevel]
        refine Dominates.of_parent hq hr hrid ?_ (hrlevel ▸ hd)
        have hrowner : r.owner = update.account := congrArg actor hrlevel
        exact hs'.id_ne_zero hr (hrowner ▸ haccount)

/-- **What the check has found stays true** until the action is executed, if what it has looked at
is left alone. -/
theorem Entitled.of_run (hs : db.Shaped) (hr : db.Rooted) (hrun : Run (Step codec) db tr db')
    (hundisturbed : ∀ t ∈ tr, Undisturbed codec t.event call)
    (hcall : codec.call act = some call) (hstep : db'.apply codec (.action env act) = .ok db'')
    (h : db.Entitled auth call) : db'.Entitled auth call := by
  cases call with
  | newaccount create => trivial
  | updateauth update =>
    obtain ⟨hs', -⟩ := hrun.invariant (P := fun db => db.Shaped ∧ db.Rooted) ⟨hs, hr⟩
      fun _ _ _ hs hstep => shaped_of_apply hs.1 hs.2 hstep
    exact h.updateauth_of_run hs hr hs' (persists_of_not_deletes hrun hundisturbed) hcall hstep
  | deleteauth del =>
    exact ⟨h.1, h.2.of_persists hs (persists_of_not_deletes hrun hundisturbed) h.1 rfl⟩
  | linkauth | unlinkauth =>
    refine ⟨h.1, fun name hname => ?_⟩
    rw [lookupLinkedPermission_of_run hrun fun t ht => (hundisturbed t ht).2] at hname
    exact (h.2 name hname).of_persists hs
      (persists_of_not_deletes hrun fun t ht => (hundisturbed t ht).1) h.1 rfl

/-! ### Transactions -/

/-- What happens to the permissions during a transaction. -/
inductive TrxEvent
  /-- The next action of the transaction. -/
  | input (env : PermissionEnv) (act : Action)
  /-- What contracts do: inline actions, and changes of privileges. -/
  | inline (e : Event)

/-- The event, whatever its origin. -/
def TrxEvent.event : TrxEvent → Event
  | .input env act => .action env act
  | .inline e => e

def TrxEvent.input? : TrxEvent → Option Action
  | .input _ act => some act
  | .inline _ => none

def TrxStep (codec : ActionCodec) (db : PermissionDatabase) (e : TrxEvent)
    (db' : PermissionDatabase) : Prop :=
  Step codec db e.event db'

/-- **Only a sufficient authority changes permissions.**  Take a transaction whose actions pass
`check_authorization` in a state of the chain, and is executed from there in order, with any inline
actions in between.  Of every input action that changes permissions or links, the one declared
authorization suffices in the state that was checked; and it suffices in the state in which the
action is executed, if no earlier event of the transaction has removed a permission of the account
or, for a link, changed a link of the account for that contract. -/
theorem entitled_of_transaction {genesis : Genesis} {db₀ : PermissionDatabase}
    {tr₀ : List (Transition PermissionDatabase Event)}
    (hinit : initializeDatabase env genesis = .ok db₀)
    (hrun₀ : Run (Step aenv.codec) db₀ tr₀ db) {actions : List Action} {keys : Finset PublicKey}
    {permissions : Finset PermissionLevel} {delay : ℤ} {allowUnusedKeys checkButDontFail : Bool}
    {satisfied : List PermissionLevel}
    (hcheck : db.checkAuthorization aenv actions keys permissions delay allowUnusedKeys
      checkButDontFail satisfied = .ok ()) {l₁ l₂ : List (Transition PermissionDatabase TrxEvent)}
    {t : Transition PermissionDatabase TrxEvent}
    (hrun : Run (TrxStep aenv.codec) db (l₁ ++ t :: l₂) db')
    (hinputs : (l₁ ++ t :: l₂).filterMap (fun t => t.event.input?) <+: actions)
    {env' : PermissionEnv} {act : Action} {call : PermissionCall}
    (hevent : t.event = .input env' act) (hcall : aenv.codec.call act = some call)
    (hnew : ∀ create, call ≠ .newaccount create) :
    ∃ auth, act.authorization = [auth] ∧ db.Entitled auth call ∧
      ((∀ u ∈ l₁, Undisturbed aenv.codec u.event.event call) → t.pre.Entitled auth call) := by
  obtain ⟨hs, hr⟩ := shaped_of_run hinit hrun₀
  have hact : act ∈ actions := by
    refine hinputs.subset (mem_filterMap.mpr ⟨t, by simp, ?_⟩)
    rw [hevent]
    rfl
  obtain ⟨auth, hauth, hentitled⟩ := entitled_of_checkAuthorization hs hact hcall hnew hcheck
  refine ⟨auth, hauth, hentitled, fun hundisturbed => ?_⟩
  obtain ⟨hbefore, hstep, -⟩ := hrun.of_append
  have hstep' : t.pre.apply aenv.codec (.action env' act) = .ok t.post := by
    rwa [TrxStep, hevent] at hstep
  have hbefore' : Run (Step aenv.codec) db _ t.pre := hbefore.map TrxEvent.event fun _ _ _ h => h
  refine hentitled.of_run hs hr hbefore' ?_ hcall hstep'
  intro u hu
  obtain ⟨u', hu', rfl⟩ := List.mem_map.mp hu
  exact hundisturbed u' hu'

/-- A chain without deferred transactions. -/
def demoAuthorizationEnv : AuthorizationEnv where
  codec := demoCodec
  canceldelay _ := .error ⟨.txNotFound, ""⟩
  fixLinkauthRestriction := true
  maxTransactionDelay := 3600
  maxAuthorityDepth := 6
  generated := .empty

/-- Transactions of an account's `active` permission, signed with its key, that can be checked and
carried out after the given events. -/
lemma exists_demoTransaction (events : List Event) (actions : List Action)
    {P : List (Transition PermissionDatabase TrxEvent) → Prop} [DecidablePred P]
    (h : ((initializeDatabase demoEnv ⟨⟨0, 1⟩, 500⟩).toOption.any fun db0 =>
      (carryOut (fun db e => (db.apply demoCodec e).toOption) db0 events).any fun r =>
        (r.2.checkAuthorization demoAuthorizationEnv actions {⟨0, 1⟩} ∅ 0 false false
          []).toOption = some () ∧
        (carryOut (fun db (e : TrxEvent) => (db.apply demoCodec e.event).toOption) r.2
          (actions.map (.input demoEnv))).any fun r => P r.1) = true) :
    ∃ db0 tr0 db tr db', initializeDatabase demoEnv ⟨⟨0, 1⟩, 500⟩ = .ok db0 ∧
      Run (Step demoAuthorizationEnv.codec) db0 tr0 db ∧
      db.checkAuthorization demoAuthorizationEnv actions {⟨0, 1⟩} ∅ 0 false false [] = .ok () ∧
      Run (TrxStep demoAuthorizationEnv.codec) db tr db' ∧
      tr.map Transition.event = actions.map (.input demoEnv) ∧ P tr := by
  obtain ⟨db0, tr0, db, h0, hrun0, hcheck, h⟩ := exists_demoRun events (P := fun _ db =>
    (db.checkAuthorization demoAuthorizationEnv actions {⟨0, 1⟩} ∅ 0 false false
      []).toOption = some () ∧
    (carryOut (fun db (e : TrxEvent) => (db.apply demoCodec e.event).toOption) db
      (actions.map (.input demoEnv))).any fun r => P r.1) h
  obtain ⟨⟨tr, db'⟩, hr, hP⟩ := (Option.any_eq_true _ _).mp h
  obtain ⟨hrun, hevents⟩ : Run (TrxStep demoAuthorizationEnv.codec) db tr db' ∧ _ :=
    Run.of_carryOut (fun _ _ _ hnext => eq_ok_of_toOption hnext) hr
  exact ⟨db0, tr0, db, tr, db', h0, hrun0, eq_ok_of_toOption hcheck, hrun, hevents,
    of_decide_eq_true hP⟩

/-- The theorem at the second action of a transaction that creates a permission under `active` and
then changes it. -/
theorem entitled_of_transaction_demo :
    ∃ db db', ∃ u t : Transition PermissionDatabase TrxEvent,
      Run (TrxStep demoAuthorizationEnv.codec) db ([u] ++ t :: []) db' ∧
      u.pre.permissions.find? ⟨demoAccount, demoPermission⟩ = none ∧
      t.pre.permissions.find? ⟨demoAccount, demoPermission⟩ ≠ none ∧
      t.event = .input demoEnv (demoAction .updateauth demoAccount activeName [0]) ∧
      ∃ auth, db.Entitled auth
          (.updateauth ⟨demoAccount, demoPermission, activeName, demoAuthority⟩) ∧
        t.pre.Entitled auth
          (.updateauth ⟨demoAccount, demoPermission, activeName, demoAuthority⟩) := by
  obtain ⟨db0, tr0, db, tr, db', h0, hrun0, hcheck, hrun, hevents, hP⟩ := exists_demoTransaction
    [.action demoEnv (demoAction .newaccount sysioName activeName [])]
    [demoAction .updateauth demoAccount activeName [0],
      demoAction .updateauth demoAccount activeName [0]]
    (P := fun tr => tr.map (fun t =>
      decide (t.pre.permissions.find? ⟨demoAccount, demoPermission⟩ = none)) = [true, false])
    (by decide +kernel)
  obtain ⟨u, tr, rfl, hevent', hevents⟩ := map_eq_cons_iff.mp hevents
  obtain ⟨t, rfl, hevent⟩ := map_eq_singleton_iff.mp hevents
  simp only [map_cons, map_nil, cons.injEq, and_true, decide_eq_true_iff,
    decide_eq_false_iff_not] at hP
  have hrun : Run (TrxStep demoAuthorizationEnv.codec) db ([u] ++ t :: []) db' := hrun
  obtain ⟨auth, -, hbefore, hpre⟩ := entitled_of_transaction h0 hrun0 hcheck hrun
    (by simp [hevent, hevent', TrxEvent.input?]) hevent rfl (by simp)
  refine ⟨db, db', u, t, hrun, hP.1, hP.2, hevent, auth, hbefore, hpre ?_⟩
  rw [forall_mem_singleton, hevent']
  rintro ⟨env, act, del, he, hcall, -⟩
  have hupdate : demoCodec.call act =
      some (.updateauth ⟨demoAccount, demoPermission, activeName, demoAuthority⟩) := by
    cases he
    rfl
  cases hupdate.symm.trans hcall

/-- What makes an authorization insufficient, in a form that can be computed. -/
lemma not_entitled_of_satisfies (hs : db.Shaped) (hspecial : ¬ IsSpecial update.permission)
    (h : db.permissions.find? ⟨update.account, update.permission⟩ = none ∧
      ∃ p ∈ db.permissions.table.rows, ∃ q ∈ db.permissions.table.rows, p.level = auth ∧
        q.level = ⟨update.account, update.parent⟩ ∧ p.owner = q.owner ∧
        (p.satisfies q db.permissions).toOption = some false) :
    ¬ db.Entitled auth (.updateauth update) := by
  obtain ⟨hfind, p, hp, q, hq, rfl, hlevel, howner, hsatisfies⟩ := h
  simp only [Entitled, if_neg hspecial, updateTarget, hfind, if_true, ← hlevel]
  rintro ⟨-, hdominates⟩
  rw [dominates_iff hs hp hq howner, eq_ok_of_toOption hsatisfies] at hdominates
  cases hdominates

/-- `active` removes a permission below it and has it created again directly under `owner`.  Both
actions pass the check, but the second is executed when `owner` is the permission to satisfy. -/
theorem exists_not_entitled :
    ∃ db₀ tr₀ db actions tr db', initializeDatabase demoEnv ⟨⟨0, 1⟩, 500⟩ = .ok db₀ ∧
      Run (Step demoAuthorizationEnv.codec) db₀ tr₀ db ∧
      db.checkAuthorization demoAuthorizationEnv actions {⟨0, 1⟩} ∅ 0 false false [] = .ok () ∧
      Run (TrxStep demoAuthorizationEnv.codec) db tr db' ∧
      tr.filterMap (fun t => t.event.input?) = actions ∧
      ∃ t ∈ tr, ∃ env act update auth, t.event = .input env act ∧
        demoAuthorizationEnv.codec.call act = some (.updateauth update) ∧
        ¬ IsSpecial update.permission ∧ act.authorization = [auth] ∧
        ¬ t.pre.Entitled auth (.updateauth update) := by
  obtain ⟨db₀, tr₀, db, tr, db', h0, hrun0, hcheck, hrun, hevents, hP⟩ := exists_demoTransaction
    [.action demoEnv (demoAction .newaccount sysioName activeName []),
      .action demoEnv (demoAction .updateauth demoAccount activeName [0])]
    [demoAction .deleteauth demoAccount activeName [],
      demoAction .updateauth demoAccount activeName [1]]
    (P := fun tr => ∃ t ∈ tr,
      t.event.input? = some (demoAction .updateauth demoAccount activeName [1]) ∧
        t.pre.permissions.find? ⟨demoAccount, demoPermission⟩ = none ∧
        ∃ p ∈ t.pre.permissions.table.rows, ∃ q ∈ t.pre.permissions.table.rows,
          p.level = ⟨demoAccount, activeName⟩ ∧ q.level = ⟨demoAccount, ownerName⟩ ∧
          p.owner = q.owner ∧ (p.satisfies q t.pre.permissions).toOption = some false)
    (by decide +kernel)
  obtain ⟨t, ht, hinput, hinsufficient⟩ := hP
  obtain ⟨hs, hr⟩ := shaped_of_run h0 hrun0
  obtain ⟨l1, l2, -, hbefore, -⟩ := hrun.split ht
  obtain ⟨hs', -⟩ := hbefore.invariant (P := fun db => db.Shaped ∧ db.Rooted) ⟨hs, hr⟩
    fun _ _ _ hs hstep => shaped_of_apply hs.1 hs.2 hstep
  have hinputs : tr.filterMap (fun t => t.event.input?) =
      (tr.map Transition.event).filterMap TrxEvent.input? := by
    rw [filterMap_map]
    rfl
  refine ⟨db₀, tr₀, db, _, tr, db', h0, hrun0, hcheck, hrun, ?_, t, ht, ?_⟩
  · rw [hinputs, hevents]
    rfl
  · cases hevent : t.event with
    | inline e =>
      rw [hevent] at hinput
      cases hinput
    | input env act =>
      rw [hevent] at hinput
      cases hinput
      exact ⟨env, _, _, _, rfl, rfl, by decide, rfl,
        not_entitled_of_satisfies hs' (by decide) hinsufficient⟩

end Sysio.PermissionDatabase
