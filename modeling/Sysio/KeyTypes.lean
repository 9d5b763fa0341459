import Sysio.Controller.ActivationHandlers
import Sysio.Errors
import Sysio.Permission.Forest

/-!
# Key types

Which types of keys may be used is one number, `num_supported_key_types`: a key is accepted in a
permission or in a proposed schedule if the index of its type is smaller.  The number is 2 at first,
and the handlers of `WEBAUTHN_KEY` and `EM_KEY` overwrite it with 3 and 4.

If `WEBAUTHN_KEY` comes first, the number stands for the types that have been activated, and it only
grows (`keyTypes_of_run`).  No dependency says that it has to: when `EM_KEY` comes first, WebAuthn
keys are accepted as well, and with `WEBAUTHN_KEY` the number goes down again, so that keys which
are in use are no longer accepted (`exists_key_rejected`).
-/

namespace Sysio

open Result List PermissionDatabase ApplyContext ObjectIndex Avoids

variable {account name : Name} {auth : Authority} {db db' : PermissionDatabase}
  {date parent time : ℕ} {p : PermissionObject} {active owner : Authority}
  {isPrivileged validateKeys : Bool} {create : NewAccount} {update : UpdateAuth}
  {producers : List ProducerAuthority}

/-- The index of WebAuthn keys among the types of keys. -/
def webauthnKeyType : ℕ := 2

def emKeyType : ℕ := 3

/-! ### Proposed schedules -/

/-- What the check of a schedule asks of the chain. -/
structure ScheduleEnv where
  isAccount : Name → Bool
  /-- `is_builtin_activated(disallow_empty_producer_schedule)`. -/
  disallowEmptyProducerSchedule : Bool
  /-- `public_key::valid`. -/
  valid : PublicKey → Bool

/-- The sum of the weights of an authority; it saturates. -/
def sumWeights (keys : List KeyWeight) : ℕ :=
  keys.foldl (fun sum kw =>
    if 2 ^ 32 - 1 - sum ≤ kw.weight.toNat then 2 ^ 32 - 1 else sum + kw.weight.toNat) 0

section

variable (env : ScheduleEnv) (numSupportedKeyTypes : ℕ)

def checkScheduleKey (validateKeys : Bool) (kw : KeyWeight) : Result Unit := do
  sysAssert (kw.key.which < numSupportedKeyTypes) .unactivatedKeyType
    "Unactivated key type used in proposed producer schedule"
  sysAssert (validateKeys = true → env.valid kw.key = true) .wasmExecutionError
    "producer schedule includes an invalid key"

def checkScheduleProducer (validateKeys : Bool) (p : ProducerAuthority) : Result Unit := do
  sysAssert (env.isAccount p.producerName = true) .wasmExecutionError
    "producer schedule includes a nonexisting account"
  p.authority.keys.forM (checkScheduleKey env numSupportedKeyTypes validateKeys)
  sysAssert (p.authority.keys.map (·.key)).Nodup .wasmExecutionError
    "producer schedule includes a duplicated key for "
  sysAssert (0 < p.authority.threshold) .wasmExecutionError
    "producer schedule includes an authority with a threshold of 0 for "
  sysAssert (p.authority.threshold.toNat ≤ sumWeights p.authority.keys) .wasmExecutionError
    "producer schedule includes an unsatisfiable authority for "

/-- `set_proposed_producers_common`, up to the call of the controller. -/
def setProposedProducersCommon (producers : List ProducerAuthority) (validateKeys : Bool) :
    Result Unit := do
  sysAssert (producers.length ≤ maxProducers) .wasmExecutionError
    "Producer schedule exceeds the maximum producer count for this chain"
  sysAssert (0 < producers.length ∨ env.disallowEmptyProducerSchedule = false) .wasmExecutionError
    "Producer schedule cannot be empty"
  producers.forM (checkScheduleProducer env numSupportedKeyTypes validateKeys)
  sysAssert (producers.map (·.producerName)).Nodup .wasmExecutionError
    "duplicate producer name in producer schedule"

end

/-! ### States and events -/

/-- What the acceptance of keys depends on. -/
structure KeyState where
  /-- The built-in features that have been activated, newest first. -/
  activated : List BuiltinProtocolFeature
  handlers : HandlerDatabase
  permissions : PermissionDatabase

namespace KeyState

def numSupportedKeyTypes (s : KeyState) : ℕ := s.handlers.numSupportedKeyTypes

/-- What happens to them. -/
inductive Event
  | activate (feature : BuiltinProtocolFeature)
  /-- An action, of a transaction or inline. -/
  | action (env : PermissionEnv) (act : Action)
  | setPrivileged (name : Name) (isPriv : Bool)
  | propose (env : ScheduleEnv) (producers : List ProducerAuthority) (validateKeys : Bool)
  /-- `update_producers_authority`, for one of the permissions of `sysio.prods`. -/
  | updateProducersAuthority (permission : PermissionObject) (threshold : UInt32)
      (accounts : List PermissionLevelWeight)
  /-- Whatever else happens to RAM, deferred transactions and intrinsics. -/
  | other (handlers : HandlerDatabase)

/-- What the handlers see, with the number of key types of the state. -/
def withKeyTypes (s : KeyState) (env : PermissionEnv) : PermissionEnv :=
  { env with numSupportedKeyTypes := s.numSupportedKeyTypes }

/-- `update_permission` in `update_producers_authority`: accounts, and no keys. -/
def setProducersAuthority (db : PermissionDatabase) (id : ℕ) (threshold : UInt32)
    (accounts : List PermissionLevelWeight) : PermissionDatabase :=
  { db with
    permissions := db.permissions.modify id
      (fun po => { po with auth := ⟨threshold, [], accounts, []⟩ }) (fun _ => rfl) fun _ => rfl }

def apply (codec : ActionCodec) (s : KeyState) : Event → Result KeyState
  | .activate feature => do
    let handlers ← s.handlers.triggerActivationHandler feature
    pure { s with activated := feature :: s.activated, handlers := handlers }
  | .action env act => do
    let db ← s.permissions.applyAction codec (s.withKeyTypes env) act
    pure { s with permissions := db }
  | .setPrivileged name isPriv => do
    let db ← s.permissions.setPrivileged name isPriv
    pure { s with permissions := db }
  | .propose env producers validateKeys => do
    setProposedProducersCommon env s.numSupportedKeyTypes producers validateKeys
    pure s
  | .updateProducersAuthority permission threshold accounts =>
    pure { s with
      permissions := setProducersAuthority s.permissions permission.id threshold accounts }
  | .other handlers =>
    pure { s with
      handlers := { handlers with numSupportedKeyTypes := s.handlers.numSupportedKeyTypes } }

/-- A feature is activated once, and after those that it depends on. -/
def Event.Allowed (s : KeyState) : Event → Prop
  | .activate feature =>
    feature ∉ s.activated ∧ ∀ d ∈ feature.builtinDependencies, d ∈ s.activated
  | _ => True

instance (s : KeyState) : DecidablePred (Event.Allowed s)
  | .activate _ => inferInstanceAs (Decidable (_ ∧ _))
  | .action .. | .setPrivileged .. | .propose .. | .updateProducersAuthority .. | .other _ =>
    .isTrue trivial

def Step (codec : ActionCodec) (s : KeyState) (e : Event) (s' : KeyState) : Prop :=
  e.Allowed s ∧ s.apply codec e = .ok s'

def actionKeys (codec : ActionCodec) (act : Action) : List PublicKey :=
  match codec.call act with
  | some (.newaccount create) => (create.owner.keys ++ create.active.keys).map (·.key)
  | some (.updateauth update) => update.auth.keys.map (·.key)
  | _ => []

def scheduleKeys (producers : List ProducerAuthority) : List PublicKey :=
  producers.flatMap fun p => p.authority.keys.map (·.key)

def Event.keys (codec : ActionCodec) : Event → List PublicKey
  | .action _ act => actionKeys codec act
  | .propose _ producers _ => scheduleKeys producers
  | _ => []

/-! ### What is accepted -/

section Accepted

variable {codec : ActionCodec} {env : PermissionEnv} {n : ℕ}

/-- The types of all keys are below a bound. -/
def KeysBelow (n : ℕ) (keys : List PublicKey) : Prop := ∀ k ∈ keys, k.which < n

/-- So are those of the stored authorities. -/
def StoredBelow (n : ℕ) (db : PermissionDatabase) : Prop :=
  ∀ p ∈ db.permissions, KeysBelow n (p.auth.keys.map (·.key))

lemma keysBelow_map {keys : List KeyWeight} :
    KeysBelow n (keys.map (·.key)) ↔ ∀ k ∈ keys, k.key.which < n := by
  simp [KeysBelow]

variable {act : Action}

lemma createPermission_below {r : PermissionObject × PermissionDatabase}
    (h : db.createPermission env account name parent auth time = .ok r)
    (hdb : StoredBelow env.numSupportedKeyTypes db) :
    KeysBelow env.numSupportedKeyTypes (auth.keys.map (·.key)) ∧
      StoredBelow env.numSupportedKeyTypes r.2 := by
  have hcreates := createPermission_eq_ok h
  simp only [createPermission, bind_eq_ok, sysAssert_eq_ok] at h
  obtain ⟨-, hkeys, -⟩ := h
  have hbelow := keysBelow_map.mpr hkeys
  refine ⟨hbelow, fun p hp => ?_⟩
  rcases (hcreates.created.mem_iff p).mp hp with hp | rfl
  · exact hdb p hp
  · rwa [hcreates.auth_eq]

lemma modifyPermission_below (hp : p ∈ db.permissions)
    (hdb : StoredBelow env.numSupportedKeyTypes db) (h : db.modifyPermission env p auth = .ok db') :
    KeysBelow env.numSupportedKeyTypes (auth.keys.map (·.key)) ∧
      StoredBelow env.numSupportedKeyTypes db' := by
  obtain ⟨f, hf, hmem⟩ := (modifyPermission_eq_ok hp h).mem_iff
  simp only [modifyPermission, bind_eq_ok, sysAssert_eq_ok] at h
  obtain ⟨-, hkeys, -⟩ := h
  have hbelow := keysBelow_map.mpr hkeys
  refine ⟨hbelow, fun r hr => ?_⟩
  obtain ⟨q, hq, rfl⟩ := (hmem r).mp hr
  rcases (hf q).2 with hauth | hauth <;> rw [hauth]
  · exact hbelow
  · exact hdb q hq

lemma addPermissions_below (h : db.addPermissions env name owner active time = .ok db')
    (hdb : StoredBelow env.numSupportedKeyTypes db) :
    KeysBelow env.numSupportedKeyTypes ((owner.keys ++ active.keys).map (·.key)) ∧
      StoredBelow env.numSupportedKeyTypes db' := by
  simp only [addPermissions, bind_eq_ok, pure_eq_ok] at h
  obtain ⟨o, ho, a, ha, rfl⟩ := h
  obtain ⟨hownerKeys, hdb1⟩ := createPermission_below ho hdb
  obtain ⟨hactiveKeys, hdb2⟩ := createPermission_below ha hdb1
  refine ⟨?_, hdb2⟩
  rw [map_append]
  intro k hk
  rcases mem_append.mp hk with hk | hk
  · exact hownerKeys k hk
  · exact hactiveKeys k hk

lemma addAccount_permissions
    (h : db.addAccount name date isPrivileged = .ok db') : db'.permissions = db.permissions := by
  simp only [addAccount, bind_eq_ok, pure_eq_ok] at h
  obtain ⟨-, -, -, -, rfl⟩ := h
  rfl

lemma StoredBelow.of_eq (hdb : StoredBelow n db) (h : db'.permissions = db.permissions) :
    StoredBelow n db' := by
  unfold StoredBelow
  rwa [h]

section

variable (hdb : StoredBelow env.numSupportedKeyTypes db)
include hdb

lemma applySysioNewaccount_below (h : db.applySysioNewaccount env act create = .ok db') :
    KeysBelow env.numSupportedKeyTypes ((create.owner.keys ++ create.active.keys).map (·.key)) ∧
      StoredBelow env.numSupportedKeyTypes db' := by
  simp only [applySysioNewaccount, bind_eq_ok] at h
  obtain ⟨-, -, -, -, -, -, -, -, -, -, creator, -, -, -, -, -, db1, h1, -, -, -, -, h⟩ := h
  exact addPermissions_below h (hdb.of_eq (addAccount_permissions h1))

lemma applySysioUpdateauth_below (h : db.applySysioUpdateauth env act update = .ok db') :
    KeysBelow env.numSupportedKeyTypes (update.auth.keys.map (·.key)) ∧
      StoredBelow env.numSupportedKeyTypes db' := by
  simp only [applySysioUpdateauth, updatePermission, bind_eq_ok, findPermission_eq_ok] at h
  obtain ⟨-, -, -, -, -, -, -, -, account, -, -, -, -, -, -, -, -, -, -, -, -, -, permission,
    ⟨-, hfind⟩, parentId, -, h⟩ := h
  cases permission with
  | some p =>
    simp only [bind_eq_ok] at h
    obtain ⟨-, -, hmodify⟩ := h
    exact modifyPermission_below (find?_eq_some.mp hfind).1 hdb hmodify
  | none =>
    simp only [bind_eq_ok, pure_eq_ok] at h
    obtain ⟨p, hcreate, rfl⟩ := h
    exact createPermission_below hcreate hdb

/-- **What an action submits has been checked**, and nothing else is stored. -/
theorem applyAction_below (h : db.applyAction codec env act = .ok db') :
    KeysBelow env.numSupportedKeyTypes (actionKeys codec act) ∧
      StoredBelow env.numSupportedKeyTypes db' := by
  have hnone : KeysBelow env.numSupportedKeyTypes [] := nofun
  unfold actionKeys
  rcases applyAction_eq_ok h with ⟨hcall, rfl⟩ | ⟨call, hcall, h⟩
  · rw [hcall]
    exact ⟨hnone, hdb⟩
  · rw [hcall]
    cases call with
    | newaccount create => exact applySysioNewaccount_below hdb h
    | updateauth update => exact applySysioUpdateauth_below hdb h
    | deleteauth remove =>
      simp only [applyCall, applySysioDeleteauth, bind_eq_ok] at h
      obtain ⟨-, -, -, -, -, -, -, -, p, hp, h⟩ := h
      have hremoves := removePermission_eq_ok (getPermission_eq_ok.mp hp).2.1 h
      exact ⟨hnone, fun r hr => hdb r ((hremoves.mem_iff r).mp hr).1⟩
    | linkauth =>
      simp only [applyCall, applySysioLinkauth, bind_eq_ok] at h
      obtain ⟨-, -, -, -, -, -, -, -, -, -, h⟩ := h
      split at h
      · simp only [bind_eq_ok, pure_eq_ok] at h
        obtain ⟨-, -, rfl⟩ := h
        exact ⟨hnone, hdb⟩
      · cases h
        exact ⟨hnone, hdb⟩
    | unlinkauth unlink =>
      simp only [applyCall, applySysioUnlinkauth, bind_eq_ok, pure_eq_ok] at h
      obtain ⟨-, -, _, -, rfl⟩ := h
      exact ⟨hnone, hdb⟩

end

lemma StoredBelow.setProducersAuthority (hdb : StoredBelow n db) (id : ℕ) (threshold : UInt32)
    (accounts : List PermissionLevelWeight) :
    StoredBelow n (KeyState.setProducersAuthority db id threshold accounts) := by
  intro p hp
  have hmem := mem_modify (x := db.permissions) (i := id)
    (f := fun po => { po with auth := ⟨threshold, [], accounts, []⟩ }) (fun _ => rfl)
    (fun _ => rfl) (r := p)
  obtain ⟨q, hq, rfl⟩ := hmem.mp hp
  split_ifs
  · nofun
  · exact hdb q hq

lemma setProposedProducersCommon_below {env : ScheduleEnv}
    (h : setProposedProducersCommon env n producers validateKeys = .ok ()) :
    KeysBelow n (scheduleKeys producers) := by
  simp only [setProposedProducersCommon, bind_eq_ok] at h
  obtain ⟨-, -, -, -, _, hproducers, -⟩ := h
  intro k hk
  obtain ⟨p, hp, hk⟩ := mem_flatMap.mp hk
  obtain ⟨kw, hkw, rfl⟩ := List.mem_map.mp hk
  have hproducer := forM_eq_ok.mp hproducers _ hp
  simp only [checkScheduleProducer, bind_eq_ok] at hproducer
  obtain ⟨-, -, _, hkeys, -⟩ := hproducer
  have hkey := forM_eq_ok.mp hkeys _ hkw
  simp only [checkScheduleKey, bind_eq_ok, sysAssert_eq_ok] at hkey
  obtain ⟨-, hwhich, -⟩ := hkey
  exact hwhich

end Accepted

/-! ### What is not rejected -/

section Rejected

variable {codec : ActionCodec} {env : PermissionEnv} {n : ℕ} {act : Action} {call : PermissionCall}

section

variable (hkeys : KeysBelow env.numSupportedKeyTypes (auth.keys.map (·.key)))
include hkeys

lemma avoids_createPermission :
    Avoids [.unactivatedKeyType] (db.createPermission env account name parent auth time) := by
  refine (avoids_sysAssert fun h => absurd (keysBelow_map.mp hkeys) h).bind fun _ _ => ?_
  refine (avoids_require).bind fun _ _ => ?_
  exact (avoids_require).bind fun _ _ => avoids_ok _

lemma avoids_modifyPermission :
    Avoids [.unactivatedKeyType] (db.modifyPermission env p auth) := by
  exact (avoids_sysAssert fun h => absurd (keysBelow_map.mp hkeys) h).bind fun _ _ => avoids_ok _

end

lemma avoids_getPermission {level : PermissionLevel} :
    Avoids [.unactivatedKeyType] (db.getPermission level) := by
  exact avoids_sysAssert_bind fun _ => avoids_require

lemma avoids_validateAuthorityPrecondition :
    Avoids [.unactivatedKeyType] (db.validateAuthorityPrecondition env auth) := by
  refine (avoids_forM fun a _ => ?_).bind fun _ _ => avoids_sysAssert fun _ => by decide
  refine avoids_sysAssert_bind fun _ => ?_
  split_ifs
  · exact avoids_ok _
  · split
    · next e he =>
      split_ifs
      · exact avoids_error (by decide)
      · exact avoids_error (avoids_getPermission e he)
    · exact avoids_ok _

lemma avoids_applySysioNewaccount (hkeys : KeysBelow env.numSupportedKeyTypes
      ((create.owner.keys ++ create.active.keys).map (·.key))) :
    Avoids [.unactivatedKeyType] (db.applySysioNewaccount env act create) := by
  rw [map_append] at hkeys
  iterate 5 refine avoids_sysAssert_bind fun _ => ?_
  refine (avoids_require).bind fun _ _ => ?_
  iterate 2 refine avoids_sysAssert_bind fun _ => ?_
  refine bind ?_ fun _ _ => ?_
  · unfold addAccount
    refine avoids_sysAssert_bind fun _ => ?_
    exact avoids_sysAssert_bind fun _ => avoids_ok _
  · refine avoids_validateAuthorityPrecondition.bind fun _ _ => ?_
    refine avoids_validateAuthorityPrecondition.bind fun _ _ => ?_
    refine (avoids_createPermission fun k hk => hkeys k ?_).bind fun _ _ => ?_
    · exact mem_append_left _ hk
    · refine (avoids_createPermission fun k hk => hkeys k ?_).bind fun _ _ => avoids_ok _
      exact mem_append_right _ hk

lemma avoids_applySysioUpdateauth
    (hkeys : KeysBelow env.numSupportedKeyTypes (update.auth.keys.map (·.key))) :
    Avoids [.unactivatedKeyType] (db.applySysioUpdateauth env act update) := by
  unfold applySysioUpdateauth requireUpdateAuthorization
  refine bind ?_ fun _ _ => ?_
  · unfold requireAuthorization
    split_ifs
    · exact avoids_sysAssert fun _ => by decide
    · exact avoids_ok _
  iterate 3 refine avoids_sysAssert_bind fun _ => ?_
  refine (avoids_require).bind fun _ _ => ?_
  iterate 5 refine avoids_sysAssert_bind fun _ => ?_
  refine avoids_validateAuthorityPrecondition.bind fun _ _ => ?_
  refine bind (avoids_sysAssert_bind fun _ => avoids_ok _) fun permission _ => ?_
  refine bind ?_ fun _ _ => ?_
  · unfold parentId
    split_ifs
    · exact avoids_getPermission.map
    · exact avoids_ok _
  · cases permission with
    | some p => exact avoids_sysAssert_bind fun _ => avoids_modifyPermission hkeys
    | none => exact (avoids_createPermission hkeys).bind fun _ _ => avoids_ok _

lemma avoids_applyCall (hcall : codec.call act = some call)
    (hkeys : KeysBelow env.numSupportedKeyTypes (actionKeys codec act)) :
    Avoids [.unactivatedKeyType] (db.applyCall env act call) := by
  unfold actionKeys at hkeys
  rw [hcall] at hkeys
  cases call with
  | newaccount create => exact avoids_applySysioNewaccount hkeys
  | updateauth update => exact avoids_applySysioUpdateauth hkeys
  | deleteauth remove =>
    unfold applyCall applySysioDeleteauth
    iterate 4 refine avoids_sysAssert_bind fun _ => ?_
    refine avoids_getPermission.bind fun _ _ => ?_
    unfold removePermission
    exact avoids_sysAssert_bind fun _ => avoids_ok _
  | linkauth =>
    unfold applyCall applySysioLinkauth
    unfold requireAuthorization
    iterate 5 refine avoids_sysAssert_bind fun _ => ?_
    dsimp only
    split
    · exact avoids_sysAssert_bind fun _ => avoids_ok _
    · exact avoids_ok _
  | unlinkauth unlink =>
    unfold applyCall applySysioUnlinkauth
    unfold requireAuthorization
    refine avoids_sysAssert_bind fun _ => ?_
    exact (avoids_require).bind fun _ _ => avoids_ok _

/-- An action whose keys are below the number of types is not rejected for its keys. -/
lemma avoids_applyAction (hcall : codec.call act = some call)
    (hkeys : KeysBelow env.numSupportedKeyTypes (actionKeys codec act)) :
    Avoids [.unactivatedKeyType] (db.applyAction codec env act) := by
  have hhandler : Avoids [.unactivatedKeyType] (db.applyCall env act call) :=
    avoids_applyCall hcall hkeys
  clear hkeys
  unfold applyAction
  unfold ActionCodec.call at hcall
  have hcalled {α : Type} {check : Result Unit} {data : Result α} {mk : α → PermissionCall}
      (hcheck : Avoids [.unactivatedKeyType] check) (h : data.toOption.map mk = some call) :
      Avoids [.unactivatedKeyType]
        (check >>= fun _ => data >>= fun d => db.applyCall env act (mk d)) := by
    obtain ⟨d, hd, rfl⟩ := Option.map_eq_some_iff.mp h
    rw [eq_ok_of_toOption hd]
    exact hcheck.bind fun _ _ => hhandler
  generalize NativeHandler.find act.account act.account act.name = found at hcall ⊢
  cases found with
  | none => cases hcall
  | some handler =>
    have hcheck {what : String} : Avoids [.unactivatedKeyType]
        (sysAssert (env.isReadOnly = false) .actionValidateException what) :=
      avoids_sysAssert fun _ => by decide
    cases handler with
    | newaccount | updateauth | deleteauth | linkauth | unlinkauth => exact hcalled hcheck hcall
    | _ => cases hcall

lemma avoids_setProposedProducersCommon {env : ScheduleEnv}
    (hkeys : KeysBelow n (scheduleKeys producers)) :
    Avoids [.unactivatedKeyType] (setProposedProducersCommon env n producers validateKeys) := by
  iterate 2 refine avoids_sysAssert_bind fun _ => ?_
  refine bind (avoids_forM fun p hp => ?_) fun _ _ => avoids_sysAssert fun _ => by decide
  refine avoids_sysAssert_bind fun _ => ?_
  refine bind (avoids_forM fun kw hkw => ?_) fun _ _ => ?_
  · have hwhich : kw.key.which < n := hkeys _ (mem_flatMap.mpr ⟨p, hp, List.mem_map_of_mem hkw⟩)
    refine (avoids_sysAssert fun h => absurd hwhich h).bind fun _ _ => ?_
    exact avoids_sysAssert fun _ => by decide
  · refine avoids_sysAssert_bind fun _ => ?_
    refine avoids_sysAssert_bind fun _ => ?_
    exact avoids_sysAssert fun _ => by decide

end Rejected

/-! ### Activation -/

/-- The number of key types stands for the activated ones. -/
def Counts (s : KeyState) : Prop :=
  s.numSupportedKeyTypes =
    if .emKey ∈ s.activated then 4 else if .webauthnKey ∈ s.activated then 3 else 2

/-- `EM_KEY` is activated after `WEBAUTHN_KEY`. -/
def Event.InOrder (s : KeyState) : Event → Prop
  | .activate feature => feature = .emKey → .webauthnKey ∈ s.activated
  | _ => True

instance (s : KeyState) : DecidablePred (Event.InOrder s)
  | .activate _ => inferInstanceAs (Decidable (_ → _))
  | .action .. | .setPrivileged .. | .propose .. | .updateProducersAuthority .. | .other _ =>
    .isTrue trivial

/-- What every state has: the count stands for the activated types, EM keys come last, and no
stored key is of a type beyond the count. -/
structure Inv (s : KeyState) : Prop where
  counts : s.Counts
  ordered : .emKey ∈ s.activated → .webauthnKey ∈ s.activated
  stored : StoredBelow s.numSupportedKeyTypes s.permissions

section Steps

variable {codec : ActionCodec} {s s' : KeyState} {e : Event}

lemma StoredBelow.mono {n m : ℕ} (h : StoredBelow n db) (hle : n ≤ m) :
    StoredBelow m db := fun p hp k hk => (h p hp k hk).trans_le hle

variable {feature : BuiltinProtocolFeature}

/-- Only two handlers touch the number of key types. -/
lemma triggerActivationHandler_numSupportedKeyTypes {db db' : HandlerDatabase}
    (h : db.triggerActivationHandler feature = .ok db') :
    db'.numSupportedKeyTypes = if feature = .webauthnKey then 3 else
      if feature = .emKey then 4 else db.numSupportedKeyTypes := by
  unfold HandlerDatabase.triggerActivationHandler at h
  split at h
  · cases h
    rfl
  · cases h
    rfl
  · simp only [bind_eq_ok, pure_eq_ok] at h
    obtain ⟨_, -, rfl⟩ := h
    rfl
  · simp only [bind_eq_ok, pure_eq_ok] at h
    obtain ⟨_, -, rfl⟩ := h
    rfl
  · next hwebauthn hem _ _ =>
    simp only [bind_eq_ok, pure_eq_ok] at h
    obtain ⟨_, -, rfl⟩ := h
    rw [if_neg hwebauthn, if_neg hem]

/-- An activation in order keeps the count right, and does not lower it. -/
lemma Inv.activate (hi : s.Inv)
    (hnew : feature ∉ s.activated) (horder : (Event.activate feature).InOrder s)
    {handlers : HandlerDatabase} (h : s.handlers.triggerActivationHandler feature = .ok handlers) :
    Inv { s with activated := feature :: s.activated, handlers := handlers } ∧
      s.numSupportedKeyTypes ≤ handlers.numSupportedKeyTypes := by
  have hhandler := triggerActivationHandler_numSupportedKeyTypes h
  have hc : s.numSupportedKeyTypes = _ := hi.counts
  by_cases hwebauthn : feature = .webauthnKey
  · subst hwebauthn
    have hem : .emKey ∉ s.activated := fun hem => hnew (hi.ordered hem)
    rw [if_neg hem, if_neg hnew] at hc
    rw [if_pos rfl] at hhandler
    have hle : s.numSupportedKeyTypes ≤ handlers.numSupportedKeyTypes := by omega
    refine ⟨⟨?_, fun _ => mem_cons_self, hi.stored.mono hle⟩, hle⟩
    show handlers.numSupportedKeyTypes = _
    rw [hhandler, if_neg (by simpa using hem), if_pos mem_cons_self]
  · by_cases hem : feature = .emKey
    · subst hem
      rw [if_neg hwebauthn, if_pos rfl] at hhandler
      have hle : s.numSupportedKeyTypes ≤ handlers.numSupportedKeyTypes := by
        rw [hc, hhandler]
        split_ifs <;> norm_num
      refine ⟨⟨?_, fun _ => mem_cons_of_mem _ (horder rfl), hi.stored.mono hle⟩, hle⟩
      show handlers.numSupportedKeyTypes = _
      rw [hhandler, if_pos mem_cons_self]
    · rw [if_neg hwebauthn, if_neg hem] at hhandler
      have hmem : ∀ f, f ≠ feature → (f ∈ feature :: s.activated ↔ f ∈ s.activated) := by
        intro f hf
        rw [mem_cons, or_iff_right hf]
      refine ⟨⟨?_, ?_, hi.stored.mono hhandler.ge⟩, hhandler.ge⟩
      · show handlers.numSupportedKeyTypes = _
        rw [hhandler]
        simp only [hmem _ (Ne.symm hem), hmem _ (Ne.symm hwebauthn)]
        exact hc
      · show .emKey ∈ feature :: s.activated → .webauthnKey ∈ feature :: s.activated
        rw [hmem _ (Ne.symm hem), hmem _ (Ne.symm hwebauthn)]
        exact hi.ordered

/-- **What one event does**: the keys that it submits are of accepted types, and the number of types
does not go down. -/
theorem Inv.step (hi : s.Inv) (horder : e.InOrder s) (h : Step codec s e s') :
    s'.Inv ∧ s.numSupportedKeyTypes ≤ s'.numSupportedKeyTypes ∧
      KeysBelow s.numSupportedKeyTypes (e.keys codec) := by
  obtain ⟨hallowed, h⟩ := h
  have hnone : KeysBelow s.numSupportedKeyTypes [] := nofun
  cases e with
  | activate =>
    simp only [apply, bind_eq_ok, pure_eq_ok] at h
    obtain ⟨handlers, hhandlers, rfl⟩ := h
    obtain ⟨hi', hle⟩ := hi.activate hallowed.1 horder hhandlers
    exact ⟨hi', hle, hnone⟩
  | action =>
    simp only [apply, bind_eq_ok, pure_eq_ok] at h
    obtain ⟨db, hdb, rfl⟩ := h
    obtain ⟨hkeys, hstored⟩ := applyAction_below hi.stored hdb
    exact ⟨⟨hi.counts, hi.ordered, hstored⟩, le_rfl, hkeys⟩
  | setPrivileged =>
    simp only [apply, setPrivileged, bind_eq_ok, pure_eq_ok] at h
    obtain ⟨db, ⟨_, -, rfl⟩, rfl⟩ := h
    exact ⟨{ hi with }, le_rfl, hnone⟩
  | propose =>
    simp only [apply, bind_eq_ok, pure_eq_ok] at h
    obtain ⟨_, hpropose, rfl⟩ := h
    exact ⟨hi, le_rfl, setProposedProducersCommon_below hpropose⟩
  | updateProducersAuthority =>
    cases h
    exact ⟨⟨hi.counts, hi.ordered, hi.stored.setProducersAuthority _ _ _⟩, le_rfl, hnone⟩
  | other =>
    cases h
    exact ⟨{ hi with }, le_rfl, hnone⟩

end Steps

/-! ### Histories -/

/-- The state after `initialize_database`. -/
def initial (handlers : HandlerDatabase) (db : PermissionDatabase) : KeyState :=
  ⟨[], { handlers with numSupportedKeyTypes := genesisNumSupportedKeyTypes }, db⟩

section Runs

variable {codec : ActionCodec} {env : PermissionEnv} {genesis : PermissionDatabase.Genesis}
  {db₀ : PermissionDatabase} {handlers : HandlerDatabase} {tr : List (Transition KeyState Event)}
  {s : KeyState}

lemma createNativeAccount_below
    (h : db.createNativeAccount env genesis name owner active isPrivileged = .ok db')
    (hdb : StoredBelow env.numSupportedKeyTypes db) : StoredBelow env.numSupportedKeyTypes db' := by
  simp only [createNativeAccount, bind_eq_ok] at h
  obtain ⟨db1, h1, h⟩ := h
  exact (addPermissions_below h (hdb.of_eq (addAccount_permissions h1))).2

lemma storedBelow_initializeDatabase (h : initializeDatabase env genesis = .ok db₀) :
    StoredBelow env.numSupportedKeyTypes db₀ := by
  simp only [initializeDatabase, bind_eq_ok, require_eq_ok, pure_eq_ok] at h
  obtain ⟨db, hreserve, db1, h1, db2, h2, db3, h3, active, -, majority, hmajority, minority,
    hminority, rfl⟩ := h
  have hdb : StoredBelow env.numSupportedKeyTypes db := by
    -- the reserved permission has no keys
    obtain ⟨⟨p, index⟩, hr, rfl⟩ := Option.map_eq_some_iff.mp hreserve
    obtain ⟨hp, hcreated⟩ := create_eq_some hr
    intro q hq
    rcases (hcreated.mem_iff q).mp hq with hq | rfl
    · exact absurd hq (Table.not_mem_empty _)
    · rw [hp]
      rintro _ ⟨⟩
  have hdb3 := createNativeAccount_below h3 (createNativeAccount_below h2
    (createNativeAccount_below h1 hdb))
  exact (createPermission_below hminority (createPermission_below hmajority hdb3).2).2

lemma inv_initial (henv : env.numSupportedKeyTypes = genesisNumSupportedKeyTypes)
    (h : initializeDatabase env genesis = .ok db₀) : (initial handlers db₀).Inv where
  counts := rfl
  ordered hem := absurd hem not_mem_nil
  stored := by
    have hstored := storedBelow_initializeDatabase h
    rwa [henv] at hstored

/-- In a history in order, keys that were submitted are below the number of types, then and now. -/
lemma inv_of_run {s0 : KeyState} (h0 : s0.Inv) (hr : Run (Step codec) s0 tr s)
    (horder : ∀ t ∈ tr, t.event.InOrder t.pre) :
    s.Inv ∧ ∀ t ∈ tr, t.pre.Inv ∧ KeysBelow t.pre.numSupportedKeyTypes (t.event.keys codec) ∧
      t.pre.numSupportedKeyTypes ≤ s.numSupportedKeyTypes := by
  induction hr with
  | nil => exact ⟨h0, fun _ ht => absurd ht not_mem_nil⟩
  | @snoc tr s s' e _ hs ih =>
    obtain ⟨hi, hall⟩ := ih fun t ht => horder t (mem_append_left _ ht)
    obtain ⟨hi', hle, hkeys⟩ := hi.step (horder ⟨s, e, s'⟩ (by simp)) hs
    refine ⟨hi', fun t ht => ?_⟩
    rcases mem_append.mp ht with ht | ht
    · obtain ⟨hpre, hkeys', hle'⟩ := hall t ht
      exact ⟨hpre, hkeys', hle'.trans hle⟩
    · obtain rfl := mem_singleton.mp ht
      exact ⟨hi, hkeys, hle⟩

/-- A key type below the count has been activated. -/
lemma Inv.activated_of_lt (hi : s.Inv) {k : PublicKey} (h : k.which < s.numSupportedKeyTypes) :
    (k.which = webauthnKeyType → .webauthnKey ∈ s.activated) ∧
      (k.which = emKeyType → .emKey ∈ s.activated) := by
  have hc : s.numSupportedKeyTypes = _ := hi.counts
  unfold webauthnKeyType emKeyType
  split_ifs at hc with hem hwebauthn
  · exact ⟨fun _ => hi.ordered hem, fun _ => hem⟩
  · exact ⟨fun _ => hwebauthn, fun _ => by omega⟩
  · exact ⟨fun _ => by omega, fun _ => by omega⟩

/-- **Keys are accepted once their type is activated, and for ever after**, in every history in
which `EM_KEY` is activated after `WEBAUTHN_KEY`: a WebAuthn key or an EM key is submitted with
success only after the activation of its type; all stored keys are of supported types; and neither
an action nor a schedule is rejected for a key that was once accepted, or is stored. -/
theorem keyTypes_of_run (henv : env.numSupportedKeyTypes = genesisNumSupportedKeyTypes)
    (hinit : initializeDatabase env genesis = .ok db₀)
    (hr : Run (Step codec) (initial handlers db₀) tr s) (horder : ∀ t ∈ tr, t.event.InOrder t.pre) :
    (∀ t ∈ tr, ∀ k ∈ t.event.keys codec,
      (k.which = webauthnKeyType → .webauthnKey ∈ t.pre.activated) ∧
        (k.which = emKeyType → .emKey ∈ t.pre.activated)) ∧
    (∀ p ∈ s.permissions.permissions, ∀ kw ∈ p.auth.keys, kw.key.which < s.numSupportedKeyTypes) ∧
    ∀ known : List PublicKey, (∀ k ∈ known, (∃ t ∈ tr, k ∈ t.event.keys codec) ∨
        ∃ p ∈ s.permissions.permissions, ∃ kw ∈ p.auth.keys, kw.key = k) →
      (∀ env act call, codec.call act = some call → actionKeys codec act ⊆ known →
        Avoids [.unactivatedKeyType] (s.apply codec (.action env act))) ∧
      ∀ env producers validateKeys, scheduleKeys producers ⊆ known →
        Avoids [.unactivatedKeyType] (s.apply codec (.propose env producers validateKeys)) := by
  obtain ⟨hi, hall⟩ := inv_of_run (inv_initial henv hinit) hr horder
  refine ⟨?_, fun p hp => keysBelow_map.mp (hi.stored p hp), fun known hknown => ?_⟩
  · intro t ht k hk
    obtain ⟨hpre, hkeys, -⟩ := hall t ht
    exact hpre.activated_of_lt (hkeys k hk)
  · have hbelow : KeysBelow s.numSupportedKeyTypes known := by
      intro k hk
      rcases hknown k hk with ⟨t, ht, hk⟩ | ⟨p, hp, kw, hkw, rfl⟩
      · obtain ⟨-, hkeys, hle⟩ := hall t ht
        exact (hkeys k hk).trans_le hle
      · exact keysBelow_map.mp (hi.stored p hp) kw hkw
    constructor
    · intro env act call hcall hsub
      have hsubmitted : KeysBelow (s.withKeyTypes env).numSupportedKeyTypes
          (actionKeys codec act) := fun k hk => hbelow k (hsub hk)
      exact (avoids_applyAction hcall hsubmitted).bind fun _ _ => avoids_ok _
    · intro env producers validateKeys hsub
      have hschedule : KeysBelow s.numSupportedKeyTypes (scheduleKeys producers) :=
        fun k hk => hbelow k (hsub hk)
      exact (avoids_setProposedProducersCommon hschedule).bind fun _ _ => avoids_ok _

end Runs

/-! ### Concrete histories -/

/-- A codec under which `updateauth` gives `sysio` a permission with one key, whose type is the
length of the data. -/
def demoKeyCodec : ActionCodec :=
  { demoCodec with
    updateauth := fun data => .ok ⟨sysioName, demoPermission, activeName,
      ⟨1, [⟨⟨data.length, 1⟩, 1⟩], [], []⟩⟩ }

def demoUpdate (keyType : ℕ) : Event :=
  .action demoEnv (demoAction .updateauth sysioName activeName (List.replicate keyType 0))

/-- The state after an event that is allowed and succeeds. -/
def next (s : KeyState) (e : Event) : Option KeyState :=
  if e.Allowed s then (s.apply demoKeyCodec e).toOption else none

lemma step_of_next {s s' : KeyState} {e : Event} (h : next s e = some s') :
    Step demoKeyCodec s e s' := by
  unfold next at h
  split_ifs at h with hallowed
  exact ⟨hallowed, eq_ok_of_toOption h⟩

/-- The genesis of both histories. -/
def demoGenesis : PermissionDatabase.Genesis := ⟨⟨0, 1⟩, 500⟩

/-- The initial state, with nothing else in the database. -/
def demoInitial (db : PermissionDatabase) : KeyState :=
  initial ⟨genesisIntrinsics, 0, RamWorld.demoWorld, Table.empty⟩ db

lemma exists_demoHistory (events : List Event)
    {P : List (Transition KeyState Event) → KeyState → Prop} [∀ tr s, Decidable (P tr s)]
    (h : ((initializeDatabase demoEnv demoGenesis).toOption.any fun db₀ =>
        (carryOut next (demoInitial db₀) events).any fun r => P r.1 r.2) = true) :
    ∃ db₀ tr s, initializeDatabase demoEnv demoGenesis =
      .ok db₀ ∧ Run (Step demoKeyCodec) (demoInitial db₀) tr s ∧ P tr s := by
  obtain ⟨db₀, h0, h⟩ := (Option.any_eq_true _ _).mp h
  obtain ⟨tr, s, hrun, hP⟩ := exists_run_of_carryOut next (demoInitial db₀) events
    (fun _ _ _ hnext => step_of_next hnext) h
  exact ⟨db₀, tr, s, eq_ok_of_toOption h0, hrun, hP⟩

/-- Both features are activated in order, and then an EM key is stored. -/
theorem keyTypes_of_run_demo : ∃ db₀ tr s, Run (Step demoKeyCodec) (demoInitial db₀) tr s ∧
    s.numSupportedKeyTypes = 4 ∧
    (∃ p ∈ s.permissions.permissions.table.rows, ∃ kw ∈ p.auth.keys, kw.key.which = emKeyType) ∧
    ∀ p ∈ s.permissions.permissions, ∀ kw ∈ p.auth.keys, kw.key.which < s.numSupportedKeyTypes := by
  obtain ⟨db₀, tr, s, h0, hr, hP⟩ := exists_demoHistory
    [.activate .webauthnKey, .activate .emKey, demoUpdate 3]
    (P := fun tr s => (∀ t ∈ tr, t.event.InOrder t.pre) ∧ s.numSupportedKeyTypes = 4 ∧
      ∃ p ∈ s.permissions.permissions.table.rows, ∃ kw ∈ p.auth.keys, kw.key.which = emKeyType)
    (by decide +kernel)
  obtain ⟨horder, hnum, hkey⟩ := hP
  exact ⟨db₀, tr, s, hr, hnum, hkey, (keyTypes_of_run rfl h0 hr horder).2.1⟩

/-- `EM_KEY` comes first: a WebAuthn key is accepted without its feature, an EM key is stored, and
then `WEBAUTHN_KEY` is activated, after which the action that stored the EM key is rejected. -/
theorem exists_key_rejected : ∃ db₀ tr s, Run (Step demoKeyCodec) (demoInitial db₀) tr s ∧
    (∃ t ∈ tr, ∃ k ∈ t.event.keys demoKeyCodec, k.which = webauthnKeyType ∧
      .webauthnKey ∉ t.pre.activated) ∧
    (∃ p ∈ s.permissions.permissions.table.rows, ∃ kw ∈ p.auth.keys,
      s.numSupportedKeyTypes ≤ kw.key.which) ∧
    ∃ t ∈ tr, ∃ e, s.apply demoKeyCodec t.event = .error e ∧ e.type = .unactivatedKeyType := by
  obtain ⟨db₀, tr, s, -, hr, hP⟩ := exists_demoHistory
    [.activate .emKey, demoUpdate 2, demoUpdate 3, .activate .webauthnKey]
    (P := fun tr s => (∃ t ∈ tr, ∃ k ∈ t.event.keys demoKeyCodec,
        k.which = webauthnKeyType ∧ .webauthnKey ∉ t.pre.activated) ∧
      (∃ p ∈ s.permissions.permissions.table.rows, ∃ kw ∈ p.auth.keys,
        s.numSupportedKeyTypes ≤ kw.key.which) ∧
      ∃ t ∈ tr, s.apply demoKeyCodec t.event =
        .error ⟨.unactivatedKeyType, "Unactivated key type used when modifying permission"⟩)
    (by decide +kernel)
  obtain ⟨haccepted, hstored, t, ht, hrejected⟩ := hP
  exact ⟨db₀, tr, s, hr, haccepted, hstored, t, ht, _, hrejected, rfl⟩

end KeyState

end Sysio
