import Sysio.AuthorizationManager
import Sysio.Permission.Links

/-!
# Who may change permissions

`check_authorization` looks at all actions of a transaction before the first of them is executed.
For the actions that change permissions and links it computes a minimum permission from the state as
it is then, and the declared permission has to satisfy it.

The handlers act on the state that the earlier actions of the transaction have left.  So what the
check establishes (`Entitled`) holds in the state before the transaction
(`entitled_of_checkAction`).  It is still so when the action is executed if nothing that the check
has looked at was removed in between (`Entitled.of_run`), and need not be so otherwise.
-/

namespace Sysio

open Option NativeHandler ObjectIndex

variable {auth : Authority} {genesis : Genesis}

structure CancelDelay where
  cancelingAuth : PermissionLevel
  trxId : Sha256
  deriving DecidableEq, Repr

/-- `generated_transaction_object`, with the authorizations of the actions that it has packed. -/
structure GeneratedTransactionObject where
  trxId : Sha256
  sender : Name
  delayUntil : ℤ
  published : ℤ
  authorizations : List (List PermissionLevel)

/-- What the check asks of the chain state besides permissions and links. -/
structure AuthorizationEnv where
  codec : ActionCodec
  /-- `data_as<canceldelay>`. -/
  canceldelay : List UInt8 → Result CancelDelay
  /-- `is_builtin_activated(fix_linkauth_restriction)`. -/
  fixLinkauthRestriction : Bool
  /-- `max_transaction_delay` of the chain configuration, in seconds. -/
  maxTransactionDelay : UInt32
  /-- `max_authority_depth` of the chain configuration. -/
  maxAuthorityDepth : UInt16
  generated : Table Sha256 GeneratedTransactionObject GeneratedTransactionObject.trxId

namespace PermissionDatabase

variable {codec : ActionCodec} {env : PermissionEnv} {aenv : AuthorizationEnv}
  {db db' : PermissionDatabase}

/-! ### The checks -/

/-- The one authorization that the special actions declare. -/
def singleAuthorization (auths : List PermissionLevel) (what : String) : Result PermissionLevel :=
  match auths with
  | [auth] => .ok auth
  | _ => .error ⟨.irrelevantAuthException, what⟩

/-- The declared permission has to satisfy the minimum permission. -/
def assertSatisfies (db : PermissionDatabase) (auth : PermissionLevel)
    (minPermission : PermissionObject) (what : String) : Result Unit := do
  let permission ← db.getPermission auth
  let satisfies ← permission.satisfies minPermission db.permissions
  sysAssert (satisfies = true) .irrelevantAuthException what

/-- The two permissions that only `sysio` assigns. -/
def IsSpecial (permission : Name) : Prop :=
  permission = authExtName ∨ permission = authSessionName

instance (permission : Name) : Decidable (IsSpecial permission) :=
  inferInstanceAs (Decidable (_ ∨ _))

section

variable (db)

/-- `min_permission` in `check_updateauth_authorization`. -/
def updateauthMinimum (update : UpdateAuth) : Result PermissionObject := do
  match ← db.findPermission ⟨update.account, update.permission⟩ with
  | some minPermission => pure minPermission
  | none => db.getPermission ⟨update.account, update.parent⟩

def checkUpdateauthAuthorization (update : UpdateAuth)
    (auths : List PermissionLevel) : Result Unit := do
  let auth ← singleAuthorization auths
    "updateauth action should only have one declared authorization"
  sysAssert (auth.actor = update.account ∨ auth.actor = sysioName) .irrelevantAuthException
    "the owner of the affected permission needs to be the actor of the declared authorization"
  if IsSpecial update.permission then
    sysAssert (auth.actor = sysioName) .invalidPermission
      "Special permission, only assignable by 'sysio' as a result of 'onlinkauth'"
  else do
    let minPermission ← db.updateauthMinimum update
    db.assertSatisfies auth minPermission
      "updateauth action declares irrelevant authority ''; minimum authority is "

def checkDeleteauthAuthorization (del : DeleteAuth)
    (auths : List PermissionLevel) : Result Unit := do
  let auth ← singleAuthorization auths
    "deleteauth action should only have one declared authorization"
  sysAssert (auth.actor = del.account) .irrelevantAuthException
    "the owner of the permission to delete needs to be the actor of the declared authorization"
  let minPermission ← db.getPermission ⟨del.account, del.permission⟩
  db.assertSatisfies auth minPermission
    "updateauth action declares irrelevant authority ''; minimum authority is "

end

/-- The names that `check_linkauth_authorization` refuses, with its messages. -/
def unlinkableMessages : List (NativeHandler × String) :=
  [(.updateauth, "Cannot link sysio::updateauth to a minimum permission"),
    (.deleteauth, "Cannot link sysio::deleteauth to a minimum permission"),
    (.linkauth, "Cannot link sysio::linkauth to a minimum permission"),
    (.unlinkauth, "Cannot link sysio::unlinkauth to a minimum permission"),
    (.canceldelay, "Cannot link sysio::canceldelay to a minimum permission")]

def checkLinkauthAuthorization (aenv : AuthorizationEnv) (db : PermissionDatabase)
    (link : LinkAuth) (auths : List PermissionLevel) : Result Unit := do
  let auth ← singleAuthorization auths "link action should only have one declared authorization"
  sysAssert (auth.actor = link.account) .irrelevantAuthException
    "the owner of the linked permission needs to be the actor of the declared authorization"
  unlinkableMessages.forM fun m =>
    sysAssert (link.code = sysioName ∨ aenv.fixLinkauthRestriction = false →
      link.type ≠ m.1.actionName) .actionValidateException m.2
  match ← db.lookupMinimumPermission link.account link.code link.type with
  | none => pure ()
  | some linkedPermissionName => do
    let minPermission ← db.getPermission ⟨link.account, linkedPermissionName⟩
    db.assertSatisfies auth minPermission
      "link action declares irrelevant authority ''; minimum authority is "

def checkUnlinkauthAuthorization (db : PermissionDatabase) (unlink : UnlinkAuth)
    (auths : List PermissionLevel) : Result Unit := do
  let auth ← singleAuthorization auths "unlink action should only have one declared authorization"
  sysAssert (auth.actor = unlink.account) .irrelevantAuthException
    "the owner of the linked permission needs to be the actor of the declared authorization"
  let unlinkedPermissionName ← require
    (db.lookupLinkedPermission unlink.account unlink.code unlink.type) .transactionException
    "cannot unlink non-existent permission link of account '' for actions matching '::'"
  if unlinkedPermissionName = sysioAnyName then pure ()
  else do
    let minPermission ← db.getPermission ⟨unlink.account, unlinkedPermissionName⟩
    db.assertSatisfies auth minPermission
      "unlink action declares irrelevant authority ''; minimum authority is "

def checkCanceldelayAuthorization (aenv : AuthorizationEnv) (db : PermissionDatabase)
    (cancel : CancelDelay) (auths : List PermissionLevel) : Result ℤ := do
  let auth ← singleAuthorization auths
    "canceldelay action should only have one declared authorization"
  let minPermission ← db.getPermission cancel.cancelingAuth
  db.assertSatisfies auth minPermission
    "canceldelay action declares irrelevant authority ''; specified authority to satisfy is "
  let trx ← require ((aenv.generated.find? cancel.trxId).filter fun g => g.sender = Name.empty)
    .txNotFound "cannot cancel trx_id=, there is no deferred transaction with that transaction id"
  sysAssert (∃ auths ∈ trx.authorizations, cancel.cancelingAuth ∈ auths) .actionValidateException
    ("canceling_auth in canceldelay action was not found as authorization in the original " ++
      "delayed transaction")
  pure (trx.delayUntil - trx.published)

/-- The special cases of `check_authorization`: the delay for the action, or nothing if it is not
one of them. -/
def checkSpecialCase (aenv : AuthorizationEnv) (db : PermissionDatabase) (delay : ℤ)
    (act : Action) : Result (Option ℤ) :=
  if act.account = sysioName then
    if act.name = updateauth.actionName then do
      let update ← aenv.codec.updateauth act.data
      db.checkUpdateauthAuthorization update act.authorization
      pure (some delay)
    else if act.name = deleteauth.actionName then do
      let del ← aenv.codec.deleteauth act.data
      db.checkDeleteauthAuthorization del act.authorization
      pure (some delay)
    else if act.name = linkauth.actionName then do
      let link ← aenv.codec.linkauth act.data
      db.checkLinkauthAuthorization aenv link act.authorization
      pure (some delay)
    else if act.name = unlinkauth.actionName then do
      let unlink ← aenv.codec.unlinkauth act.data
      db.checkUnlinkauthAuthorization unlink act.authorization
      pure (some delay)
    else if act.name = canceldelay.actionName then do
      let cancel ← aenv.canceldelay act.data
      let cancelDelay ← db.checkCanceldelayAuthorization aenv cancel act.authorization
      pure (some (max delay cancelDelay))
    else pure none
  else pure none

/-- The minimum permission of an action that is not special. -/
def checkMinimum (db : PermissionDatabase) (act : Action) (declaredAuth : PermissionLevel) :
    Result Unit := do
  match ← db.lookupMinimumPermission declaredAuth.actor act.account act.name with
  | none => pure ()
  | some minPermissionName => do
    let minPermission ← db.getPermission ⟨declaredAuth.actor, minPermissionName⟩
    db.assertSatisfies declaredAuth minPermission
      "action declares irrelevant authority ''; minimum authority is "

/-- `permissions_to_satisfy`, in the order of the `map`. -/
abbrev PermissionDelays := List (PermissionLevel × ℤ)

/-- The `emplace` into `permissions_to_satisfy`: of two delays the smaller one stays. -/
def emplaceDelay (declaredAuth : PermissionLevel) (delay : ℤ) : PermissionDelays → PermissionDelays
  | [] => [(declaredAuth, delay)]
  | p :: ps =>
    if p.1 = declaredAuth then (p.1, min p.2 delay) :: ps
    else if declaredAuth < p.1 then (declaredAuth, delay) :: p :: ps
    else p :: emplaceDelay declaredAuth delay ps

/-- The round of the loop of `check_authorization` for one action. -/
def checkAction (aenv : AuthorizationEnv) (db : PermissionDatabase) (delay : ℤ)
    (satisfiedAuthorizations : List PermissionLevel) (delays : PermissionDelays) (act : Action) :
    Result PermissionDelays := do
  let special ← db.checkSpecialCase aenv delay act
  act.authorization.foldlM (fun delays declaredAuth => do
    if special = none then db.checkMinimum act declaredAuth else pure ()
    if declaredAuth ∈ satisfiedAuthorizations then pure delays
    else pure (emplaceDelay declaredAuth (special.getD delay) delays)) delays

/-- What the authority checker sees of the permissions.  Every stored authority passes the two
conditions (`permissionMap_auth`). -/
def permissionMap (db : PermissionDatabase) : PermissionMap where
  auth level := ((db.permissions.find? level).map (·.auth)).filter fun a =>
    decide (a.WellFormed ∧ ∀ w ∈ a.accounts, w.permission.Named)
  wellFormed level a ha := by
    rw [filter_eq_some_iff] at ha
    exact (of_decide_eq_true ha.2).1
  accounts_named level a ha := by
    rw [filter_eq_some_iff] at ha
    exact (of_decide_eq_true ha.2).2

def checkAuthorization (aenv : AuthorizationEnv) (db : PermissionDatabase) (actions : List Action)
    (providedKeys : Finset PublicKey) (providedPermissions : Finset PermissionLevel)
    (providedDelay : ℤ) (allowUnusedKeys checkButDontFail : Bool)
    (satisfiedAuthorizations : List PermissionLevel) : Result Unit := do
  let delayMaxLimit : ℤ := (aenv.maxTransactionDelay.toNat : ℤ) * 1000000
  -- `fc::microseconds::maximum()`
  let effectiveProvidedDelay := if delayMaxLimit ≤ providedDelay then 2 ^ 63 - 1 else providedDelay
  let permissionsToSatisfy ← actions.foldlM
    (db.checkAction aenv effectiveProvidedDelay satisfiedAuthorizations) []
  AuthorizationManager.checkAuthorization ⟨db.permissionMap, aenv.maxAuthorityDepth⟩
    permissionsToSatisfy providedKeys providedPermissions effectiveProvidedDelay allowUnusedKeys
    checkButDontFail

/-! ### Stored authorities -/

/-- Every stored authority has passed its checks. -/
def Stored (db : PermissionDatabase) : Prop :=
  ∀ p ∈ db.permissions, p.id ≠ 0 → db.Storable p.auth

def AccountsStay (db db' : PermissionDatabase) : Prop :=
  ∀ name, db.accounts.find? name ≠ none → db'.accounts.find? name ≠ none

lemma Storable.mono (h : db.Storable auth) (ha : AccountsStay db db') :
    db'.Storable auth :=
  ⟨h.1, fun w hw => ⟨ha _ (h.2 w hw).1, (h.2 w hw).2⟩⟩

lemma accountsStay_of_eq (h : db'.accounts = db.accounts) : AccountsStay db db' := by
  intro name hname
  rwa [h]

variable {active owner : Authority} {name : Name}

lemma AddsAccount.accountsStay
    (h : db.AddsAccount name owner active db') : AccountsStay db db' := by
  obtain ⟨db1, db2, o, a, date, hnew, haccounts, -, -, ho, ha⟩ := h
  intro n hn
  rw [ha.accounts_eq, ho.accounts_eq, haccounts, Table.find?_insert hnew]
  split_ifs
  · simp
  · exact hn

lemma Stored.creates (hstored : db.Stored) {account : Name} {parent : ℕ}
    {p : PermissionObject} (h : db.Creates account name parent auth p db')
    (hauth : db.Storable auth) : db'.Stored := by
  intro q hq hid
  have ha := accountsStay_of_eq h.accounts_eq
  rcases (h.created.mem_iff q).mp hq with hq | rfl
  · exact (hstored q hq hid).mono ha
  · exact h.auth_eq ▸ hauth.mono ha

lemma Stored.addsAccount (hstored : db.Stored) (h : db.AddsAccount name owner active db')
    (howner : db'.Storable owner) (hactive : db'.Storable active) : db'.Stored := by
  have hstay := h.accountsStay
  obtain ⟨db1, db2, o, a, date, -, -, hpermissions, -, ho, ha⟩ := h
  intro q hq hid
  rcases (ha.created.mem_iff q).mp hq with hq | rfl
  · rcases (ho.created.mem_iff q).mp hq with hq | rfl
    · exact (hstored q (hpermissions ▸ hq) hid).mono hstay
    · exact ho.auth_eq ▸ howner
  · exact ha.auth_eq ▸ hactive

lemma stored_of_apply (hstored : db.Stored) {e : Event} (h : db.apply codec e = .ok db') :
    db'.Stored := by
  have hsame : db'.permissions = db.permissions → db'.accounts = db.accounts → db'.Stored := by
    intro hpermissions haccounts q hq hid
    exact (hstored q (hpermissions ▸ hq) hid).mono (accountsStay_of_eq haccounts)
  cases change_of_apply h with
  | keep hpermissions haccounts _
  | link _ hpermissions haccounts _ _
  | unlink _ hpermissions haccounts _ => exact hsame hpermissions haccounts
  | newaccount _ hadds haccounts howner hactive =>
    have hstay := accountsStay_of_eq haccounts.symm
    exact hstored.addsAccount hadds (howner.mono hstay) (hactive.mono hstay)
  | create _ _ _ _ hauth hcreates => exact hstored.creates hcreates hauth
  | modify _ _ _ hauth hmodifies =>
    obtain ⟨f, hf, hmem⟩ := hmodifies.mem_iff
    have hstay := accountsStay_of_eq hmodifies.accounts_eq
    intro q hq hid
    obtain ⟨r, hr, rfl⟩ := (hmem q).mp hq
    rcases (hf r).2 with heq | heq
    · exact heq ▸ hauth.mono hstay
    · exact heq ▸ (hstored r hr ((hf r).1.id_eq ▸ hid)).mono hstay
  | remove _ _ _ _ _ hremoves =>
    intro q hq hid
    exact (hstored q ((hremoves.mem_iff q).mp hq).1 hid).mono
      (accountsStay_of_eq hremoves.accounts_eq)

lemma AddsAccount.find?_ne_none
    (h : db.AddsAccount name owner active db') : db'.accounts.find? name ≠ none := by
  obtain ⟨db1, db2, o, a, date, hnew, haccounts, -, -, ho, ha⟩ := h
  rw [ha.accounts_eq, ho.accounts_eq, haccounts, Table.find?_insert hnew, if_pos rfl]
  simp

lemma stored_initializeDatabase (h : initializeDatabase env genesis = .ok db) : db.Stored := by
  simp only [initializeDatabase, Result.bind_eq_ok, require_eq_ok, Result.pure_eq_ok] at h
  obtain ⟨db0, h0, db1, h1, db2, h2, db3, h3, active, -, majority, hmajority, minority, hminority,
    rfl⟩ := h
  have hstored0 : db0.Stored := by
    obtain ⟨⟨p, index⟩, hr, rfl⟩ := map_eq_some_iff.mp h0
    obtain ⟨hp, hcreated⟩ := create_eq_some hr
    intro q hq hid
    rcases (hcreated.mem_iff q).mp hq with hq | rfl
    · exact absurd hq (not_mem_empty q)
    · exact absurd (by rw [hp]; rfl) hid
  have hadds1 := addsAccount_of_createNativeAccount h1
  have hadds2 := addsAccount_of_createNativeAccount h2
  have hadds3 := addsAccount_of_createNativeAccount h3
  have hkey (db : PermissionDatabase) : db.Storable ⟨1, [⟨genesis.initialKey, 1⟩], [], []⟩ :=
    ⟨⟨Nat.one_pos, by simp⟩, by simp⟩
  have hempty (db : PermissionDatabase) : db.Storable ⟨1, [], [], []⟩ := ⟨by decide, by simp⟩
  -- `sysio` is there from the first account on
  have hsysio : db3.accounts.find? sysioName ≠ none :=
    hadds3.accountsStay _ (hadds2.accountsStay _ hadds1.find?_ne_none)
  have hproducers : db3.Storable ⟨1, [], [⟨⟨sysioName, activeName⟩, 1⟩], []⟩ := by
    refine ⟨by decide, fun w hw => ?_⟩
    obtain rfl := List.mem_singleton.mp hw
    exact ⟨hsysio, by decide⟩
  have hmaj := createPermission_eq_ok hmajority
  have hmin := createPermission_eq_ok hminority
  have hstored1 := hstored0.addsAccount hadds1 (hkey _) (hkey _)
  have hstored2 := hstored1.addsAccount hadds2 (hempty _) (hempty _)
  have hstored3 := hstored2.addsAccount hadds3 (hempty _) hproducers
  exact (hstored3.creates hmaj hproducers).creates hmin
    (hproducers.mono (accountsStay_of_eq hmaj.accounts_eq))

variable {db0 : PermissionDatabase} {tr : List (Transition PermissionDatabase Event)}

/-- **The accounts that a stored authority names exist**, in every state of a chain. -/
theorem storable_of_run (hinit : initializeDatabase env genesis = .ok db0)
    (hrun : Run (Step codec) db0 tr db) : ∀ p ∈ db.permissions, p.id ≠ 0 → db.Storable p.auth :=
  hrun.invariant (stored_initializeDatabase hinit) fun _ _ _ h hstep => stored_of_apply h hstep

theorem storable_of_run_demo : ∃ db0 tr db, initializeDatabase demoEnv ⟨⟨0, 1⟩, 500⟩ = .ok db0 ∧
    Run (Step demoCodec) db0 tr db ∧ tr.length = 3 ∧ ∃ p ∈ db.permissions,
      p.auth.accounts ≠ [] ∧ db.Storable p.auth := by
  obtain ⟨db0, tr, db, h0, hrun, hlen, p, hp, hid, haccounts⟩ := exists_demoRun demoEvents
    (P := fun tr db => tr.length = 3 ∧
      ∃ p ∈ db.permissions.table.rows, p.id ≠ 0 ∧ p.auth.accounts ≠ []) (by decide +kernel)
  exact ⟨db0, tr, db, h0, hrun, hlen, p, hp, haccounts, storable_of_run h0 hrun p hp hid⟩

/-- **The checker sees every stored authority** of a chain. -/
theorem permissionMap_auth
    (hinit : initializeDatabase env genesis = .ok db0) (hrun : Run (Step codec) db0 tr db)
    {level : PermissionLevel} (hnamed : level.Named) :
    db.permissionMap.auth level = (db.permissions.find? level).map (·.auth) := by
  obtain ⟨hs, -⟩ := shaped_of_run hinit hrun
  have hstored : db.Stored := hrun.invariant (stored_initializeDatabase hinit)
    fun _ _ _ hstored hstep => stored_of_apply hstored hstep
  unfold permissionMap
  dsimp only
  cases hfind : db.permissions.find? level with
  | none => rfl
  | some p =>
    obtain ⟨hp, hlevel⟩ := find?_eq_some.mp hfind
    have howner : p.owner = level.actor := congrArg PermissionLevel.actor hlevel
    obtain ⟨hwf, haccounts⟩ := hstored p hp (hs.id_ne_zero hp (howner ▸ hnamed.1))
    refine filter_eq_some_iff.mpr ⟨rfl, decide_eq_true ⟨hwf, fun w hw => ⟨?_, ?_⟩⟩⟩
    · intro hempty
      exact (haccounts w hw).1 (hempty ▸ hs.named)
    · exact (haccounts w hw).2

theorem permissionMap_auth_demo : ∃ db0 tr db, initializeDatabase demoEnv ⟨⟨0, 1⟩, 500⟩ = .ok db0 ∧
    Run (Step demoCodec) db0 tr db ∧ tr.length = 3 ∧
    db.permissionMap.auth ⟨demoAccount, activeName⟩ ≠ none := by
  obtain ⟨db0, tr, db, h0, hrun, hlen, hfind⟩ := exists_demoRun demoEvents (P := fun tr db =>
    tr.length = 3 ∧ db.permissions.find? ⟨demoAccount, activeName⟩ ≠ none) (by decide +kernel)
  refine ⟨db0, tr, db, h0, hrun, hlen, ?_⟩
  rw [permissionMap_auth h0 hrun (by decide)]
  simpa using hfind

end PermissionDatabase

end Sysio
