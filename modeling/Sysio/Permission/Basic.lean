import Sysio.ApplyContext.Basic
import Sysio.Data.Forest
import Sysio.Data.ObjectIndex

/-!
# Permissions of accounts

The objects in which the database keeps accounts, permissions and links, the functions of the
authorization manager that create, change and remove permissions, and the handlers of the native
actions that call them.

A permission names its parent by number.  Number `0` belongs to an object that is no permission of
any account and stands for the absence of a parent.  `satisfies` walks up the parents of a
permission; the loop of the source has no bound of its own, so the model gives it one and ends in
undefined behaviour where the source would not end, or would dereference an iterator at the end.

RAM and resource limits, which the handlers also touch, are not part of the database here.
-/

namespace Sysio

open ApplyContext

/-! ### Names of the configuration -/

def ownerName : Name := Name.ofChars ['o', 'w', 'n', 'e', 'r']

def activeName : Name := Name.ofChars ['a', 'c', 't', 'i', 'v', 'e']

def sysioAnyName : Name := Name.ofChars ['s', 'y', 's', 'i', 'o', '.', 'a', 'n', 'y']

def sysioCodeName : Name := Name.ofChars ['s', 'y', 's', 'i', 'o', '.', 'c', 'o', 'd', 'e']

def nullAccountName : Name := Name.ofChars ['s', 'y', 's', 'i', 'o', '.', 'n', 'u', 'l', 'l']

def producersAccountName : Name :=
  Name.ofChars ['s', 'y', 's', 'i', 'o', '.', 'p', 'r', 'o', 'd', 's']

def majorityProducersPermissionName : Name :=
  Name.ofChars ['p', 'r', 'o', 'd', '.', 'm', 'a', 'j', 'o', 'r']

def minorityProducersPermissionName : Name :=
  Name.ofChars ['p', 'r', 'o', 'd', '.', 'm', 'i', 'n', 'o', 'r']

/-- The permissions `auth.ext` and `auth.session`, which `sysio` assigns. -/
def authExtName : Name := Name.ofChars ['a', 'u', 't', 'h', '.', 'e', 'x', 't']

@[inherit_doc authExtName]
def authSessionName : Name :=
  Name.ofChars ['a', 'u', 't', 'h', '.', 's', 'e', 's', 's', 'i', 'o', 'n']

/-! ### Objects -/

structure AccountObject where
  name : Name
  creationDate : ℕ
  deriving DecidableEq, Repr

/-- `account_metadata_object`, with the flag that the handlers read. -/
structure AccountMetadataObject where
  name : Name
  isPrivileged : Bool
  deriving DecidableEq, Repr

structure PermissionUsageObject where
  id : ℕ
  lastUsed : ℕ
  deriving DecidableEq, Repr

structure PermissionObject where
  id : ℕ
  usageId : ℕ
  /-- The number of the parent permission. -/
  parent : ℕ
  owner : Name
  name : Name
  lastUpdated : ℕ
  auth : Authority
  deriving DecidableEq, Repr

/-- The account and the name of a permission, which `by_owner` is unique on. -/
def PermissionObject.level (p : PermissionObject) : PermissionLevel := ⟨p.owner, p.name⟩

/-- What `modify_permission` changes. -/
def PermissionObject.setAuth (po : PermissionObject) (auth : Authority) (now : ℕ) :
    PermissionObject :=
  { po with auth := auth, lastUpdated := now }

structure PermissionLinkObject where
  account : Name
  code : Name
  messageType : Name
  requiredPermission : Name
  deriving DecidableEq, Repr

/-- What `by_action_name` is unique on. -/
def PermissionLinkObject.key (l : PermissionLinkObject) : Name × Name × Name :=
  (l.account, l.code, l.messageType)

abbrev PermissionIndex :=
  ObjectIndex PermissionLevel PermissionObject PermissionObject.id PermissionObject.level

/-- The part of the database that holds accounts and their permissions. -/
structure PermissionDatabase where
  accounts : Table Name AccountObject AccountObject.name
  metadata : Table Name AccountMetadataObject AccountMetadataObject.name
  permissions : PermissionIndex
  usages : ObjectIndex ℕ PermissionUsageObject PermissionUsageObject.id PermissionUsageObject.id
  links : Table (Name × Name × Name) PermissionLinkObject PermissionLinkObject.key

/-! ### The hierarchy -/

namespace PermissionObject

/-- The loop of `satisfies`, from the permission that `parent` points to, in at most `fuel` rounds.
-/
def satisfiesLoop (id : ℕ) (index : PermissionIndex) : ℕ → PermissionObject → Result Bool
  | 0, _ => .error ⟨.undefinedBehavior, "the walk does not end"⟩
  | fuel + 1, parent =>
    if id = parent.parent then .ok true
    else if parent.parent = 0 then .ok false
    else
      match index.findId? parent.parent with
      | none => .error ⟨.undefinedBehavior, "end iterator dereferenced"⟩
      | some parent => satisfiesLoop id index fuel parent

/-- `permission_object::satisfies`, with a bound for its loop. -/
def satisfiesWithin (fuel : ℕ) (this other : PermissionObject) (index : PermissionIndex) :
    Result Bool :=
  if this.owner ≠ other.owner then .ok false
  else if this.id = other.id ∨ this.id = other.parent then .ok true
  else
    match index.findId? other.parent with
    | none => .error ⟨.undefinedBehavior, "end iterator dereferenced"⟩
    | some parent => satisfiesLoop this.id index fuel parent

/-- `permission_object::satisfies`.  Every number is below `nextId`, which is bound enough. -/
def satisfies (this other : PermissionObject) (index : PermissionIndex) : Result Bool :=
  satisfiesWithin index.nextId this other index

end PermissionObject

/-! ### Data of actions -/

structure NewAccount where
  creator : Name
  name : Name
  owner : Authority
  active : Authority
  deriving DecidableEq, Repr

structure UpdateAuth where
  account : Name
  permission : Name
  parent : Name
  auth : Authority
  deriving DecidableEq, Repr

structure DeleteAuth where
  account : Name
  permission : Name
  deriving DecidableEq, Repr

structure LinkAuth where
  account : Name
  code : Name
  type : Name
  requirement : Name
  deriving DecidableEq, Repr

structure UnlinkAuth where
  account : Name
  code : Name
  type : Name
  deriving DecidableEq, Repr

/-- `action::data_as`, for the data of each native action. -/
structure ActionCodec where
  newaccount : List UInt8 → Result NewAccount
  updateauth : List UInt8 → Result UpdateAuth
  deleteauth : List UInt8 → Result DeleteAuth
  linkauth : List UInt8 → Result LinkAuth
  unlinkauth : List UInt8 → Result UnlinkAuth

/-- What the handlers ask of the transaction, the node and the rest of the chain state. -/
structure PermissionEnv where
  isReadOnly : Bool
  enforceWhiteblacklist : Bool
  isSpeculativeBlock : Bool
  /-- `key_blacklist` of the node's configuration. -/
  keyBlacklist : List PublicKey
  /-- `num_supported_key_types` of the protocol state. -/
  numSupportedKeyTypes : ℕ
  /-- `pending_block_time`. -/
  pendingBlockTime : ℕ
  /-- `max_transaction_delay` of the chain configuration, in seconds. -/
  maxTransactionDelay : UInt32
  /-- `is_builtin_activated(only_link_to_existing_permission)`. -/
  onlyLinkToExistingPermission : Bool

namespace PermissionDatabase

/-! ### The authorization manager -/

section

variable (db : PermissionDatabase)

def findPermission (level : PermissionLevel) : Result (Option PermissionObject) := do
  sysAssert level.Named .invalidPermission "Invalid permission"
  pure (db.permissions.find? level)

def getPermission (level : PermissionLevel) : Result PermissionObject := do
  sysAssert level.Named .invalidPermission "Invalid permission"
  require (db.permissions.find? level) .permissionQueryException "Failed to retrieve permission: "

/-- The message of a failed `create`. -/
def notInserted : String :=
  "could not insert object, most likely a uniqueness constraint was violated"

def createPermission (env : PermissionEnv) (db : PermissionDatabase) (account name : Name)
    (parent : ℕ) (auth : Authority) (initialCreationTime : ℕ) :
    Result (PermissionObject × PermissionDatabase) := do
  sysAssert (∀ k ∈ auth.keys, k.key.which < env.numSupportedKeyTypes) .unactivatedKeyType
    "Unactivated key type used when creating permission"
  let creationTime := if initialCreationTime = 0 then env.pendingBlockTime else initialCreationTime
  let usage ← require (db.usages.create (fun id => ⟨id, creationTime⟩) fun _ => rfl) .logicError
    notInserted
  let perm ← require (db.permissions.create
    (fun id => ⟨id, usage.1.id, parent, account, name, creationTime, auth⟩) fun _ => rfl)
    .logicError notInserted
  pure (perm.1, { db with usages := usage.2, permissions := perm.2 })

def modifyPermission (env : PermissionEnv) (db : PermissionDatabase)
    (permission : PermissionObject) (auth : Authority) : Result PermissionDatabase := do
  sysAssert (∀ k ∈ auth.keys, k.key.which < env.numSupportedKeyTypes) .unactivatedKeyType
    "Unactivated key type used when modifying permission"
  pure { db with
    permissions := db.permissions.modify permission.id (·.setAuth auth env.pendingBlockTime)
      (fun _ => rfl) (fun _ => rfl) }

def removePermission (permission : PermissionObject) : Result PermissionDatabase := do
  sysAssert (∀ p ∈ db.permissions.table.rows, p.parent ≠ permission.id) .actionValidateException
    "Cannot remove a permission which has children. Remove the children first."
  pure { db with
    usages := db.usages.remove permission.usageId
    permissions := db.permissions.remove permission.id }

/-! ### Handlers -/

/-- One round of the first loop of `validate_authority_precondition`. -/
def validateAccountPermission (a : PermissionLevelWeight) : Result Unit := do
  sysAssert (db.accounts.find? a.permission.actor ≠ none) .actionValidateException
    "account '' does not exist"
  if a.permission.permission = ownerName ∨ a.permission.permission = activeName ∨
      a.permission.permission = sysioCodeName then pure ()
  else
    match db.getPermission a.permission with
    | .error e =>
      if e.type = .permissionQueryException then
        .error ⟨.actionValidateException, "permission '' does not exist"⟩
      else .error e
    | .ok _ => pure ()

def validateAuthorityPrecondition (env : PermissionEnv) (db : PermissionDatabase)
    (auth : Authority) : Result Unit := do
  auth.accounts.forM db.validateAccountPermission
  sysAssert (env.enforceWhiteblacklist = true → env.isSpeculativeBlock = true →
    ∀ p ∈ auth.keys, p.key ∉ env.keyBlacklist) .keyBlacklistException
    "public key '' is on the key blacklist"

/-- The two objects that every account has. -/
def addAccount (name : Name) (creationDate : ℕ) (isPrivileged : Bool) :
    Result PermissionDatabase := do
  sysAssert (db.accounts.find? name = none) .logicError notInserted
  sysAssert (db.metadata.find? name = none) .logicError notInserted
  pure { db with
    accounts := db.accounts.insert ⟨name, creationDate⟩
    metadata := db.metadata.insert ⟨name, isPrivileged⟩ }

/-- The permissions that every account starts with. -/
def addPermissions (env : PermissionEnv) (db : PermissionDatabase) (name : Name)
    (owner active : Authority) (initialCreationTime : ℕ) : Result PermissionDatabase := do
  let ownerPermission ← db.createPermission env name ownerName 0 owner initialCreationTime
  let activePermission ← ownerPermission.2.createPermission env name activeName
    ownerPermission.1.id active initialCreationTime
  pure activePermission.2

def applySysioNewaccount (env : PermissionEnv) (db : PermissionDatabase) (act : Action)
    (create : NewAccount) : Result PermissionDatabase := do
  requireAuthorization act create.creator
  sysAssert (create.owner.validate = true) .actionValidateException "Invalid owner authority"
  sysAssert (create.active.validate = true) .actionValidateException "Invalid active authority"
  sysAssert (create.name ≠ Name.empty) .actionValidateException "account name cannot be empty"
  sysAssert (create.name.toChars.length ≤ 12) .actionValidateException
    "account names can only be 12 chars long"
  let creator ← require (db.metadata.find? create.creator) .logicError "unknown key"
  sysAssert (creator.isPrivileged = true) .actionValidateException
    "Only privileged accounts can create new accounts"
  sysAssert (db.accounts.find? create.name = none) .accountNameExistsException
    "Cannot create account named , as that name is already taken"
  let db ← db.addAccount create.name env.pendingBlockTime false
  db.validateAuthorityPrecondition env create.owner
  db.validateAuthorityPrecondition env create.active
  db.addPermissions env create.name create.owner create.active 0

/-- The first check of `apply_sysio_updateauth`, which the two special permissions do without. -/
def requireUpdateAuthorization (act : Action) (update : UpdateAuth) : Result Unit :=
  if update.permission ≠ authExtName ∧ update.permission ≠ authSessionName then
    requireAuthorization act update.account
  else pure ()

/-- `parent_id` in `apply_sysio_updateauth`. -/
def parentId (update : UpdateAuth) : Result ℕ :=
  if update.permission ≠ ownerName then
    PermissionObject.id <$> db.getPermission ⟨update.account, update.parent⟩
  else pure 0

/-- The end of `apply_sysio_updateauth`, from the lookup of the permission on. -/
def updatePermission (env : PermissionEnv) (db : PermissionDatabase) (update : UpdateAuth) :
    Result PermissionDatabase := do
  let permission ← db.findPermission ⟨update.account, update.permission⟩
  let parentId ← db.parentId update
  match permission with
  | some permission => do
    sysAssert (parentId = permission.parent) .actionValidateException
      "Changing parent authority is not currently supported"
    db.modifyPermission env permission update.auth
  | none => do
    let p ← db.createPermission env update.account update.permission parentId update.auth 0
    pure p.2

def applySysioUpdateauth (env : PermissionEnv) (db : PermissionDatabase) (act : Action)
    (update : UpdateAuth) : Result PermissionDatabase := do
  requireUpdateAuthorization act update
  sysAssert (update.permission ≠ Name.empty) .actionValidateException
    "Cannot create authority with empty name"
  sysAssert (¬ ['s', 'y', 's', 'i', 'o', '.'] <+: update.permission.toChars)
    .actionValidateException "Permission names that start with 'sysio.' are reserved"
  sysAssert (update.permission ≠ update.parent) .actionValidateException
    "Cannot set an authority as its own parent"
  let _ ← require (db.accounts.find? update.account) .logicError "unknown key"
  sysAssert (update.auth.validate = true) .actionValidateException "Invalid authority: "
  sysAssert (update.permission = activeName → update.parent = ownerName) .actionValidateException
    "Cannot change active authority's parent from owner"
  sysAssert (update.permission = ownerName → update.parent = Name.empty) .actionValidateException
    "Cannot change owner authority's parent"
  sysAssert (update.permission ≠ ownerName → update.parent ≠ Name.empty) .actionValidateException
    "Only owner permission can have empty parent"
  sysAssert (∀ w ∈ update.auth.waits.getLast?, w.waitSec ≤ env.maxTransactionDelay)
    .actionValidateException
    "Cannot set delay longer than max_transacton_delay, which is  seconds"
  db.validateAuthorityPrecondition env update.auth
  db.updatePermission env update

def applySysioDeleteauth (act : Action) (remove : DeleteAuth) : Result PermissionDatabase := do
  requireAuthorization act remove.account
  sysAssert (remove.permission ≠ activeName) .actionValidateException
    "Cannot delete active authority"
  sysAssert (remove.permission ≠ ownerName) .actionValidateException "Cannot delete owner authority"
  sysAssert (∀ l ∈ db.links.rows, l.account = remove.account →
      l.requiredPermission ≠ remove.permission) .actionValidateException
    ("Cannot delete a linked authority. Unlink the authority first. " ++
      "This authority is linked to ::.")
  let permission ← db.getPermission ⟨remove.account, remove.permission⟩
  db.removePermission permission

/-- The permission that a new link names.  Before `only_link_to_existing_permission`, a permission
of that name of another account was enough. -/
def linkTarget (env : PermissionEnv) (db : PermissionDatabase) (requirement : LinkAuth) :
    Option PermissionObject :=
  if env.onlyLinkToExistingPermission then
    db.permissions.find? ⟨requirement.account, requirement.requirement⟩
  else db.permissions.table.rows.find? fun p => decide (p.name = requirement.requirement)

def applySysioLinkauth (env : PermissionEnv) (db : PermissionDatabase) (act : Action)
    (requirement : LinkAuth) : Result PermissionDatabase := do
  sysAssert (requirement.requirement ≠ Name.empty) .actionValidateException
    "Required permission cannot be empty"
  requireAuthorization act requirement.account
  sysAssert (db.accounts.find? requirement.account ≠ none) .accountQueryException
    "Failed to retrieve account: "
  sysAssert (db.accounts.find? requirement.code ≠ none) .accountQueryException
    "Failed to retrieve code for account: "
  sysAssert (requirement.requirement ≠ sysioAnyName → db.linkTarget env requirement ≠ none)
    .permissionQueryException "Failed to retrieve permission: "
  let link : PermissionLinkObject :=
    ⟨requirement.account, requirement.code, requirement.type, requirement.requirement⟩
  match db.links.find? link.key with
  | some old => do
    sysAssert (old.requiredPermission ≠ requirement.requirement) .actionValidateException
      "Attempting to update required authority, but new requirement is same as old"
    pure { db with links := db.links.upsert link }
  | none => pure { db with links := db.links.insert link }

def applySysioUnlinkauth (act : Action) (unlink : UnlinkAuth) : Result PermissionDatabase := do
  requireAuthorization act unlink.account
  let link ← require (db.links.find? (unlink.account, unlink.code, unlink.type))
    .actionValidateException "Attempting to unlink authority, but no link found"
  pure { db with links := db.links.erase link.key }

/-- The native handler of an action, as far as it changes this part of the database. -/
def applyAction (codec : ActionCodec) (env : PermissionEnv) (db : PermissionDatabase)
    (act : Action) : Result PermissionDatabase :=
  match NativeHandler.find act.account act.account act.name with
  | some .newaccount => do
    sysAssert (env.isReadOnly = false) .actionValidateException
      "newaccount not allowed in read-only transaction"
    let create ← codec.newaccount act.data
    db.applySysioNewaccount env act create
  | some .updateauth => do
    sysAssert (env.isReadOnly = false) .actionValidateException
      "updateauth not allowed in read-only transaction"
    let update ← codec.updateauth act.data
    db.applySysioUpdateauth env act update
  | some .deleteauth => do
    sysAssert (env.isReadOnly = false) .actionValidateException
      "deleteauth not allowed in read-only transaction"
    let remove ← codec.deleteauth act.data
    db.applySysioDeleteauth act remove
  | some .linkauth => do
    sysAssert (env.isReadOnly = false) .actionValidateException
      "linkauth not allowed in read-only transaction"
    let requirement ← codec.linkauth act.data
    db.applySysioLinkauth env act requirement
  | some .unlinkauth => do
    sysAssert (env.isReadOnly = false) .actionValidateException
      "unlinkauth not allowed in read-only transaction"
    let unlink ← codec.unlinkauth act.data
    db.applySysioUnlinkauth act unlink
  | _ => pure db

/-- The intrinsic `set_privileged`. -/
def setPrivileged (name : Name) (isPriv : Bool) : Result PermissionDatabase := do
  let a ← require (db.metadata.find? name) .logicError "unknown key"
  pure { db with metadata := db.metadata.upsert { a with isPrivileged := isPriv } }

end

/-! ### The initial database -/

/-- The genesis parameters that the permissions depend on. -/
structure Genesis where
  initialKey : PublicKey
  initialTimestamp : ℕ

def createNativeAccount (env : PermissionEnv) (genesis : Genesis) (db : PermissionDatabase)
    (name : Name) (owner active : Authority) (isPrivileged : Bool) :
    Result PermissionDatabase := do
  let db ← db.addAccount name genesis.initialTimestamp isPrivileged
  db.addPermissions env name owner active genesis.initialTimestamp

/-- `authorization_manager::initialize_database`, on an empty database: permission `0` is
reserved. -/
def reservePermission : Option PermissionDatabase :=
  ((ObjectIndex.empty : PermissionIndex).create
    (fun id => ⟨id, 0, 0, Name.empty, Name.empty, 0, ⟨0, [], [], []⟩⟩) fun _ => rfl).map
    fun r => ⟨.empty, .empty, r.2, .empty, .empty⟩

def initializeDatabase (env : PermissionEnv) (genesis : Genesis) : Result PermissionDatabase := do
  let db ← require reservePermission .logicError notInserted
  let systemAuth : Authority := ⟨1, [⟨genesis.initialKey, 1⟩], [], []⟩
  let emptyAuthority : Authority := ⟨1, [], [], []⟩
  let activeProducersAuthority : Authority := ⟨1, [], [⟨⟨sysioName, activeName⟩, 1⟩], []⟩
  let db ← db.createNativeAccount env genesis sysioName systemAuth systemAuth true
  let db ← db.createNativeAccount env genesis nullAccountName emptyAuthority emptyAuthority false
  let db ← db.createNativeAccount env genesis producersAccountName emptyAuthority
    activeProducersAuthority false
  let activePermission ← db.getPermission ⟨producersAccountName, activeName⟩
  let majorityPermission ← db.createPermission env producersAccountName
    majorityProducersPermissionName activePermission.id activeProducersAuthority
    genesis.initialTimestamp
  let minorityPermission ← majorityPermission.2.createPermission env producersAccountName
    minorityProducersPermissionName majorityPermission.1.id activeProducersAuthority
    genesis.initialTimestamp
  pure minorityPermission.2

/-! ### Runs -/

inductive Event
  /-- An action, of a transaction or inline. -/
  | action (env : PermissionEnv) (act : Action)
  | setPrivileged (name : Name) (isPriv : Bool)

def apply (codec : ActionCodec) (db : PermissionDatabase) : Event → Result PermissionDatabase
  | .action env act => db.applyAction codec env act
  | .setPrivileged name isPriv => db.setPrivileged name isPriv

def Step (codec : ActionCodec) (db : PermissionDatabase) (e : Event) (db' : PermissionDatabase) :
    Prop :=
  db.apply codec e = .ok db'

end PermissionDatabase

end Sysio
