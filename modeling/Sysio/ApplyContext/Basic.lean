import Sysio.Controller.Basic
import Sysio.Data.Command
import Sysio.Ram.Objects

/-!
# Executing actions

A transaction schedules its actions, and each action that runs may schedule more: notifications of
the same action to other accounts, and inline actions, which run when the action and its
notifications are done, one level deeper.  After the code of an action has run, sequence numbers are
drawn for its receipt.

The chain database is a parameter `Db` with the questions that the execution asks of it.  What a
contract does is any list of calls that depends on the database and on the action.  Every create,
modify or remove is recorded, and what is recorded stays so when the transaction throws: a read-only
transaction has no undo session.

Left out are the checks that touch neither the database nor the course of the execution (deadlines,
white lists and black lists, sizes of inline actions, RAM restrictions): all they can do is to make
a transaction fail.
-/

namespace Sysio

/-! ### What a transaction can do -/

/-- A create, modify or remove on the chain database. -/
inductive DatabaseWrite
  /-- `++dgp.global_action_sequence`. -/
  | globalSequence
  /-- `++ra.recv_sequence`. -/
  | recvSequence (receiver : Name)
  /-- `++am.auth_sequence`. -/
  | authSequence (actor : Name)
  /-- `set_account_limits`. -/
  | accountLimits
  /-- `record_transaction`. -/
  | transactionObject
  /-- Whatever else a handler writes. -/
  | object (id : ℕ)
  deriving DecidableEq, Repr

/-- The intrinsics that write. -/
inductive GuardedCall
  | dbStoreI64
  | dbUpdateI64
  | dbRemoveI64
  | indexStore (index : SecondaryIndex)
  | indexUpdate (index : SecondaryIndex)
  | indexRemove (index : SecondaryIndex)
  | sendDeferred
  | cancelDeferred
  | preactivateFeature
  | setResourceLimits
  | setWasmParametersPacked
  | setProposedProducers
  | setProposedProducersEx
  | setBlockchainParametersPacked
  | setParametersPacked
  | setPrivileged
  deriving DecidableEq, Repr

namespace GuardedCall

/-- What the call throws in a read-only transaction. -/
def guard : GuardedCall → ChainException
  | .dbStoreI64 | .indexStore _ => ⟨.tableOperationNotPermitted,
    "cannot store a db record when executing a readonly transaction"⟩
  | .dbUpdateI64 | .indexUpdate _ => ⟨.tableOperationNotPermitted,
    "cannot update a db record when executing a readonly transaction"⟩
  | .dbRemoveI64 | .indexRemove _ => ⟨.tableOperationNotPermitted,
    "cannot remove a db record when executing a readonly transaction"⟩
  | .sendDeferred => ⟨.transactionException,
    "cannot schedule a deferred transaction from within a readonly transaction"⟩
  | .cancelDeferred => ⟨.transactionException,
    "cannot cancel a deferred transaction from within a readonly transaction"⟩
  | .preactivateFeature => ⟨.wasmExecutionError,
    "preactivate_feature not allowed in a readonly transaction"⟩
  | .setResourceLimits => ⟨.wasmExecutionError,
    "set_resource_limits not allowed in a readonly transaction"⟩
  | .setWasmParametersPacked => ⟨.wasmExecutionError,
    "set_wasm_parameters_packed not allowed in a readonly transaction"⟩
  | .setProposedProducers => ⟨.wasmExecutionError,
    "set_proposed_producers not allowed in a readonly transaction"⟩
  | .setProposedProducersEx => ⟨.wasmExecutionError,
    "set_proposed_producers_ex not allowed in a readonly transaction"⟩
  | .setBlockchainParametersPacked => ⟨.wasmExecutionError,
    "set_blockchain_parameters_packed not allowed in a readonly transaction"⟩
  | .setParametersPacked => ⟨.wasmExecutionError,
    "set_parameters_packed not allowed in a readonly transaction"⟩
  | .setPrivileged => ⟨.wasmExecutionError,
    "set_privileged not allowed in a readonly transaction"⟩

/-- Only privileged accounts may make the call. -/
def isPrivileged : GuardedCall → Bool
  | .preactivateFeature | .setResourceLimits | .setWasmParametersPacked | .setProposedProducers
  | .setProposedProducersEx | .setBlockchainParametersPacked | .setParametersPacked
  | .setPrivileged => true
  | _ => false

/-- The call does nothing once deferred transactions are disabled. -/
def isDeferred : GuardedCall → Bool
  | .sendDeferred | .cancelDeferred => true
  | _ => false

end GuardedCall

/-- A call of a contract. -/
inductive HostCall
  /-- Any intrinsic that only reads. -/
  | query
  /-- A failed assertion, or any other way to throw. -/
  | fail (e : ChainException)
  | guarded (call : GuardedCall)
  | requireRecipient (recipient : Name)
  | sendInline (act : Action)
  | sendContextFreeInline (act : Action)
  deriving DecidableEq, Repr

/-- The actions with a handler in the node. -/
inductive NativeHandler
  | newaccount
  | setcode
  | setabi
  | updateauth
  | deleteauth
  | linkauth
  | unlinkauth
  | canceldelay
  | reducepolicy
  deriving DecidableEq, Repr

namespace NativeHandler

def actionName : NativeHandler → Name
  | .newaccount => Name.ofChars ['n', 'e', 'w', 'a', 'c', 'c', 'o', 'u', 'n', 't']
  | .setcode => Name.ofChars ['s', 'e', 't', 'c', 'o', 'd', 'e']
  | .setabi => Name.ofChars ['s', 'e', 't', 'a', 'b', 'i']
  | .updateauth => Name.ofChars ['u', 'p', 'd', 'a', 't', 'e', 'a', 'u', 't', 'h']
  | .deleteauth => Name.ofChars ['d', 'e', 'l', 'e', 't', 'e', 'a', 'u', 't', 'h']
  | .linkauth => Name.ofChars ['l', 'i', 'n', 'k', 'a', 'u', 't', 'h']
  | .unlinkauth => Name.ofChars ['u', 'n', 'l', 'i', 'n', 'k', 'a', 'u', 't', 'h']
  | .canceldelay => Name.ofChars ['c', 'a', 'n', 'c', 'e', 'l', 'd', 'e', 'l', 'a', 'y']
  | .reducepolicy => Name.ofChars ['r', 'e', 'd', 'u', 'c', 'e', 'p', 'o', 'l', 'i', 'c', 'y']

def contract : NativeHandler → Name
  | .reducepolicy => Roa.sysioRoaName
  | _ => sysioName

/-- What the handler throws first in a read-only transaction.  `apply_roa_reducepolicy` has no such
check. -/
def guard : NativeHandler → Option ChainException
  | .newaccount => some ⟨.actionValidateException,
    "newaccount not allowed in read-only transaction"⟩
  | .setcode => some ⟨.actionValidateException, "setcode not allowed in read-only transaction"⟩
  | .setabi => some ⟨.actionValidateException, "setabi ot allowed in read-only transaction"⟩
  | .updateauth => some ⟨.actionValidateException,
    "updateauth not allowed in read-only transaction"⟩
  | .deleteauth => some ⟨.actionValidateException,
    "deleteauth not allowed in read-only transaction"⟩
  | .linkauth => some ⟨.actionValidateException, "linkauth not allowed in read-only transaction"⟩
  | .unlinkauth => some ⟨.actionValidateException,
    "unlinkauth not allowed in read-only transaction"⟩
  | .canceldelay => some ⟨.actionValidateException,
    "canceldelay not allowed in read-only transaction"⟩
  | .reducepolicy => none

def all : List NativeHandler :=
  [.newaccount, .setcode, .setabi, .updateauth, .deleteauth, .linkauth, .unlinkauth, .canceldelay,
    .reducepolicy]

/-- `find_apply_handler`. -/
def find (receiver account name : Name) : Option NativeHandler :=
  all.find? fun h => decide (receiver = h.contract ∧ account = h.contract ∧ name = h.actionName)

end NativeHandler

/-! ### The state -/

/-- What `schedule_action` puts into a trace. -/
structure ScheduledAction where
  act : Action
  receiver : Name
  contextFree : Bool
  creatorActionOrdinal : ℕ
  deriving DecidableEq, Repr

/-- `action_trace`, with the fields that steer the execution. -/
structure ActionTrace extends ScheduledAction where
  /-- The code has run to its end. -/
  hasReceipt : Bool
  deriving DecidableEq, Repr

/-- What the execution asks of the chain, and what the contracts do. -/
structure ApplyEnv (Db : Type) where
  /-- The account has its objects in the database. -/
  isAccount : Db → Name → Bool
  hasPermission : Db → PermissionLevel → Bool
  isPrivileged : Db → Name → Bool
  hasCode : Db → Name → Bool
  maxInlineActionDepth : Db → ℕ
  isBuiltinActivated : Db → BuiltinProtocolFeature → Bool
  skipTrxChecks : Bool
  skipAuthCheck : Bool
  /-- `check_authorization`, for an inline action sent by the receiver. -/
  checkAuthorization : Db → Name → Action → Result Unit
  /-- What the code of the receiver does. -/
  code : Db → ScheduledAction → List HostCall
  /-- What an intrinsic writes, once it is past its guard. -/
  callBody : Db → Name → GuardedCall → Result (List DatabaseWrite)
  /-- What a handler writes, once it is past its guard. -/
  handlerBody : Db → NativeHandler → Action → Result (List DatabaseWrite)
  /-- The issuer in the data of `reducepolicy`. -/
  reducepolicyIssuer : List UInt8 → Result Name
  /-- The checks of `reducepolicy` between the authorization and the new limits. -/
  checkReduction : Db → Action → Result Unit
  /-- What `init` writes for a transaction that is not read-only. -/
  initBody : Db → Transaction → Result (List DatabaseWrite)
  /-- What `schedule_transaction` writes for a delayed transaction. -/
  scheduleBody : Db → Transaction → Result (List DatabaseWrite)
  /-- What `finalize` writes for a transaction that is not read-only. -/
  finalizeBody : Db → Transaction → Result (List DatabaseWrite)
  /-- What a write does to the database. -/
  write : DatabaseWrite → Db → Db
  /-- What a transaction that is not read-only adds to the pending block. -/
  pushReceipt : BuildingBlock → BuildingBlock

/-- The state of a transaction that is being executed. -/
structure Execution (Db : Type) where
  db : Db
  /-- The writes so far. -/
  writes : List DatabaseWrite
  actionTraces : List ActionTrace
  block : BuildingBlock

/-- A part of the execution. -/
abbrev ExecM (Db : Type) := Command (Execution Db) ChainException

structure ApplyContext where
  receiver : Name
  actionOrdinal : ℕ
  contextFree : Bool
  privileged : Bool
  recurseDepth : ℕ
  /-- The accounts that the action is for, with the ordinals of their traces. -/
  notified : List (Name × ℕ)
  inlineActions : List ℕ
  cfaInlineActions : List ℕ

namespace ApplyContext

variable {Db α : Type} (env : ApplyEnv Db) (isReadOnly : Bool)

/-! ### What the execution is made of -/

/-- A computation that does not touch the state. -/
def lift : Result α → ExecM Db α
  | .ok a => pure a
  | .error e => throw e

def perform (ws : List DatabaseWrite) : ExecM Db Unit :=
  modify fun s => { s with
    db := ws.foldl (fun db w => env.write w db) s.db
    writes := s.writes ++ ws }

/-- A check that the transaction is not read-only. -/
def guardReadOnly (e : ChainException) : ExecM Db Unit :=
  lift (if isReadOnly then .error e else .ok ())

def getActionTrace (ordinal : ℕ) : ExecM Db ActionTrace := do
  let s ← get
  lift (require (if ordinal = 0 then none else s.actionTraces[ordinal - 1]?) .transactionException
    "action_ordinal is outside allowed range")

/-- `schedule_action`: the ordinal of the new trace. -/
def scheduleAction (act : Action) (receiver : Name) (contextFree : Bool) (creator : ℕ) :
    ExecM Db ℕ := do
  let s ← get
  modify fun s => { s with
    actionTraces := s.actionTraces ++ [⟨⟨act, receiver, contextFree, creator⟩, false⟩] }
  pure (s.actionTraces.length + 1)

/-! ### The calls of a contract -/

/-- An intrinsic that writes. -/
def guardedCall (ctx : ApplyContext) (call : GuardedCall) : ExecM Db Unit := do
  lift (sysAssert (call.isPrivileged = true → ctx.privileged = true) .unaccessibleApi
    "account does not have permission to call this API")
  let s ← get
  if call.isDeferred && env.isBuiltinActivated s.db .disableDeferredTrxsStage1 then pure ()
  else do
    guardReadOnly isReadOnly call.guard
    let ws ← lift (env.callBody s.db ctx.receiver call)
    perform env ws

def requireRecipient (ctx : ApplyContext) (recipient : Name) : ExecM Db ApplyContext :=
  if ctx.notified.any (fun p => decide (p.1 = recipient)) then pure ctx
  else do
    let trace ← getActionTrace ctx.actionOrdinal
    let ordinal ← scheduleAction trace.act recipient false ctx.actionOrdinal
    pure { ctx with notified := ctx.notified ++ [(recipient, ordinal)] }

/-- The checks of `execute_inline` for one authorization. -/
def checkInlineLevel (db : Db) (auth : PermissionLevel) : Result Unit := do
  sysAssert (env.isAccount db auth.actor = true) .actionValidateException
    "inline action's authorizing actor does not exist"
  sysAssert (env.hasPermission db auth = true) .actionValidateException
    "inline action's authorizations include a non-existent permission"

section

variable (ctx : ApplyContext)

/-- `execute_inline`.  In a read-only transaction the authorizations are not checked. -/
def executeInline (a : Action) : ExecM Db ApplyContext := do
  let s ← get
  lift (sysAssert (env.isAccount s.db a.account = true) .actionValidateException
    "inline action's code account does not exist")
  lift (a.authorization.forM (checkInlineLevel env s.db))
  lift (if env.skipAuthCheck || ctx.privileged || isReadOnly then .ok ()
    else env.checkAuthorization s.db ctx.receiver a)
  let ordinal ← scheduleAction a a.account false ctx.actionOrdinal
  pure { ctx with inlineActions := ctx.inlineActions ++ [ordinal] }

def executeContextFreeInline (a : Action) : ExecM Db ApplyContext := do
  let s ← get
  lift (sysAssert (env.isAccount s.db a.account = true) .actionValidateException
    "inline action's code account does not exist")
  lift (sysAssert (a.authorization = []) .actionValidateException
    "context-free actions cannot have authorizations")
  let ordinal ← scheduleAction a a.account true ctx.actionOrdinal
  pure { ctx with cfaInlineActions := ctx.cfaInlineActions ++ [ordinal] }

/-- One call of a contract that needs a context. -/
def contextAwareCall : HostCall → ExecM Db ApplyContext
  | .guarded call => do
    guardedCall env isReadOnly ctx call
    pure ctx
  | .requireRecipient recipient => requireRecipient ctx recipient
  | .sendInline a => executeInline env isReadOnly ctx a
  | .sendContextFreeInline a => executeContextFreeInline env ctx a
  | .query => pure ctx
  | .fail e => throw e

/-- One call of a contract; those that write or schedule need a context. -/
def hostCall (call : HostCall) : ExecM Db ApplyContext :=
  match call with
  | .query => pure ctx
  | .fail e => throw e
  | call => do
    lift (sysAssert (ctx.contextFree = false) .unaccessibleApi
      "only context free api's can be used in this context")
    contextAwareCall env isReadOnly ctx call

end

/-! ### Native handlers -/

def requireAuthorization (act : Action) (account : Name) : Result Unit :=
  sysAssert (∃ auth ∈ act.authorization, auth.actor = account) .missingAuthException
    "missing authority"

/-- `apply_roa_reducepolicy`: the limits are set before the rows of the contract are updated. -/
def reducepolicy (act : Action) : ExecM Db Unit := do
  let issuer ← lift (env.reducepolicyIssuer act.data)
  lift (requireAuthorization act issuer)
  let s ← get
  lift (env.checkReduction s.db act)
  perform env [.accountLimits]
  guardReadOnly isReadOnly GuardedCall.dbUpdateI64.guard
  let s ← get
  let ws ← lift (env.handlerBody s.db .reducepolicy act)
  perform env ws

def runHandler (act : Action) (h : NativeHandler) : ExecM Db Unit :=
  match h.guard with
  | some e => do
    guardReadOnly isReadOnly e
    let s ← get
    let ws ← lift (env.handlerBody s.db h act)
    perform env ws
  | none => reducepolicy env isReadOnly act

/-! ### One action -/

/-- The code of the receiver is not run for `setcode` on the system account, unless the feature
`FORWARD_SETCODE` is active. -/
def forwardsTo (db : Db) (act : Action) (receiver : Name) : Bool :=
  env.hasCode db receiver &&
    (!decide (act.account = sysioName ∧ act.name = NativeHandler.setcode.actionName ∧
      receiver = sysioName) || env.isBuiltinActivated db .forwardSetcode)

def runCode (ctx : ApplyContext) (trace : ScheduledAction) : ExecM Db ApplyContext := do
  let s ← get
  if forwardsTo env s.db trace.act ctx.receiver then
    (env.code s.db trace).foldlM (hostCall env isReadOnly) ctx
  else pure ctx

/-- The native handler and the code. -/
def runAction (ctx : ApplyContext) (trace : ScheduledAction) : ExecM Db ApplyContext :=
  if ctx.contextFree && env.skipTrxChecks then pure ctx
  else do
    let s ← get
    (NativeHandler.find ctx.receiver trace.act.account trace.act.name).toList.forM
      (runHandler env isReadOnly trace.act)
    runCode env isReadOnly { ctx with privileged := env.isPrivileged s.db ctx.receiver } trace

def nextGlobalSequence : ExecM Db Unit :=
  if isReadOnly then pure () else perform env [.globalSequence]

def nextRecvSequence (receiver : Name) : ExecM Db Unit :=
  if isReadOnly then pure () else perform env [.recvSequence receiver]

/-- `next_auth_sequence`: the only sequence that is drawn in a read-only transaction, too. -/
def nextAuthSequence (actor : Name) : ExecM Db Unit := do
  let s ← get
  lift (sysAssert (env.isAccount s.db actor = true) .logicError "unknown key")
  perform env [.authSequence actor]

/-- The trace gets its receipt. -/
def addReceipt (ordinal : ℕ) : ExecM Db Unit :=
  modify fun s => { s with
    actionTraces := s.actionTraces.modify (ordinal - 1) fun t => { t with hasReceipt := true } }

/-- The end of `exec_one`: the sequences of the receipt. -/
def makeReceipt (ctx : ApplyContext) (act : Action) : ExecM Db Unit := do
  nextGlobalSequence env isReadOnly
  nextRecvSequence env isReadOnly ctx.receiver
  let s ← get
  lift (sysAssert (env.isAccount s.db act.account = true) .logicError "unknown key")
  act.authorization.forM fun auth => nextAuthSequence env auth.actor
  addReceipt ctx.actionOrdinal

def execOne (ctx : ApplyContext) : ExecM Db ApplyContext := do
  let trace ← getActionTrace ctx.actionOrdinal
  let s ← get
  lift (sysAssert (env.isAccount s.db ctx.receiver = true) .logicError "unknown key")
  let ctx ← runAction env isReadOnly ctx trace.toScheduledAction
  makeReceipt env isReadOnly ctx trace.act
  pure ctx

/-! ### Actions and what they schedule -/

/-- What is thrown when the model runs out of fuel. -/
def outOfFuel : ChainException := ⟨.undefinedBehavior, "a loop that does not end"⟩

/-- The loop of `exec` over the accounts to be notified, which grows while it runs. -/
def execNotified : ℕ → ℕ → ApplyContext → ExecM Db ApplyContext
  | 0, _, _ => throw outOfFuel
  | fuel + 1, i, ctx =>
    match ctx.notified[i]? with
    | none => pure ctx
    | some (receiver, ordinal) => do
      let ctx ← execOne env isReadOnly { ctx with receiver := receiver, actionOrdinal := ordinal }
      execNotified fuel (i + 1) ctx

def executeAction : ℕ → ℕ → ℕ → ExecM Db Unit
  | 0, _, _ => throw outOfFuel
  | fuel + 1, ordinal, recurseDepth => do
    let trace ← getActionTrace ordinal
    let ctx ← execNotified env isReadOnly fuel 0
      { receiver := trace.receiver
        actionOrdinal := ordinal
        contextFree := trace.contextFree
        privileged := false
        recurseDepth := recurseDepth
        notified := [(trace.receiver, ordinal)]
        inlineActions := []
        cfaInlineActions := [] }
    let s ← get
    lift (sysAssert (ctx.cfaInlineActions = [] ∧ ctx.inlineActions = [] ∨
      recurseDepth < env.maxInlineActionDepth s.db) .transactionException
      "max inline action depth per transaction reached")
    ctx.cfaInlineActions.forM fun o => executeAction fuel o (recurseDepth + 1)
    ctx.inlineActions.forM fun o => executeAction fuel o (recurseDepth + 1)

/-! ### Transactions -/

/-- The checks of `validate_referenced_accounts` for one action. -/
def checkReferencedAccounts (db : Db) (a : Action) : Result Unit := do
  sysAssert (env.isAccount db a.account = true) .transactionException
    "action's code account does not exist"
  sysAssert (isReadOnly = true → a.authorization = []) .transactionException
    "read-only action cannot have authorizations"
  a.authorization.forM fun auth => do
    sysAssert (env.isAccount db auth.actor = true) .transactionException
      "action's authorizing actor does not exist"
    sysAssert (env.hasPermission db auth = true) .transactionException
      "action's authorizations include a non-existent permission"

def validateReferencedAccounts (db : Db) (trx : Transaction) : Result Unit := do
  trx.contextFreeActions.forM fun a => do
    sysAssert (env.isAccount db a.account = true) .transactionException
      "action's code account does not exist"
    sysAssert (a.authorization = []) .transactionException
      "context-free actions cannot have authorizations"
  trx.actions.forM (checkReferencedAccounts env isReadOnly db)
  sysAssert ((∃ a ∈ trx.actions, a.authorization ≠ []) ∨ isReadOnly = true) .txNoAuths
    "transaction must have at least one authorization"

def initForInputTrx (trx : Transaction) : ExecM Db Unit := do
  let s ← get
  lift (sysAssert (env.isBuiltinActivated s.db .disableDeferredTrxsStage1 = true ∨
    isReadOnly = true → trx.delaySec = 0) .transactionException "transaction cannot be delayed")
  lift (if env.skipTrxChecks then .ok () else validateReferencedAccounts env isReadOnly s.db trx)
  if isReadOnly then pure ()
  else do
    let ws ← lift (env.initBody s.db trx)
    perform env ws

/-- The actions of a transaction that is not delayed. -/
def scheduledActions (trx : Transaction) : List Action :=
  if trx.delaySec = 0 then trx.actions else []

def exec (fuel : ℕ) (trx : Transaction) : ExecM Db Unit := do
  trx.contextFreeActions.forM fun a => do
    let _ ← scheduleAction a a.account true 0
    pure ()
  (scheduledActions trx).forM fun a => do
    let _ ← scheduleAction a a.account false 0
    pure ()
  let s ← get
  (List.range s.actionTraces.length).forM fun i => executeAction env isReadOnly fuel (i + 1) 0
  let s ← get
  if trx.delaySec = 0 then pure ()
  else do
    let ws ← lift (env.scheduleBody s.db trx)
    perform env ws

def finalize (trx : Transaction) : ExecM Db Unit := do
  let s ← get
  if isReadOnly then pure ()
  else do
    let ws ← lift (env.finalizeBody s.db trx)
    perform env ws

/-- The calls that `push_transaction` makes. -/
def pushTransaction (fuel : ℕ) (trx : Transaction) : ExecM Db Unit := do
  initForInputTrx env isReadOnly trx
  exec env isReadOnly fuel trx
  finalize env isReadOnly trx
  if isReadOnly then pure () else modify fun s => { s with block := env.pushReceipt s.block }

end ApplyContext

end Sysio
