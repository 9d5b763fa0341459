import Sysio.Authority.Satisfaction

/-!
# Authorization of transactions

The two functions of the authorization manager that run the authority checker over the permissions
of a transaction: `get_required_keys`, which tells a wallet what to sign with, and the end of
`check_authorization`, which accepts or rejects a signed transaction.  Both use one checker for all
permissions, with a new cache for each but with the marks of `_used_keys` kept throughout.

`check_authorization` first goes through the actions and collects the permissions to satisfy, each
with its delay.  That part does not look at the keys; the model starts from its result.
-/

namespace Sysio

namespace AuthorityChecker

/-- The checker with another provided delay, as in the overload of `satisfied` that overrides it. -/
def withDelay (c : AuthorityChecker) (delay : ℤ) : AuthorityChecker :=
  { c with providedDelay := delay }

/-- `satisfied`, asserted of one permission after the other, from the keys marked so far. -/
def assertSatisfied (c : AuthorityChecker) (checkButDontFail : Bool) (what : String) :
    List (PermissionLevel × ℤ) → Finset PublicKey → Result (Finset PublicKey)
  | [], usedKeys => .ok usedKeys
  | (permission, delay) :: ps, usedKeys => do
    let (r, usedKeys) ← (c.withDelay delay).satisfied permission usedKeys
    sysAssert (r = true ∨ checkButDontFail = true) .unsatisfiedAuthorization what
    assertSatisfied c checkButDontFail what ps usedKeys

end AuthorityChecker

/-- `authorization_manager`: the stored permissions and the limit of the configuration. -/
structure AuthorizationManager where
  permissions : PermissionMap
  /-- `max_authority_depth`. -/
  maxAuthorityDepth : UInt16

namespace AuthorizationManager

section

variable (am : AuthorizationManager)

/-- `make_auth_checker`, over the stored permissions. -/
def makeAuthChecker (providedKeys : Finset PublicKey)
    (providedPermissions : Finset PermissionLevel) (providedDelay : ℤ) : AuthorityChecker :=
  ⟨am.permissions, am.maxAuthorityDepth, providedKeys, providedPermissions, providedDelay⟩

/-- The loop of `check_authorization` over `permissions_to_satisfy`: the keys marked in the end. -/
def satisfyDeclared (permissionsToSatisfy : List (PermissionLevel × ℤ))
    (providedKeys : Finset PublicKey)
    (providedPermissions : Finset PermissionLevel) (providedDelay : ℤ)
    (checkButDontFail : Bool) : Result (Finset PublicKey) :=
  (am.makeAuthChecker providedKeys providedPermissions providedDelay).assertSatisfied
    checkButDontFail
    ("transaction declares authority '', but does not have signatures for it under a provided " ++
      "delay of  ms, provided permissions , provided keys , and a delay max limit of  ms")
    permissionsToSatisfy ∅

/-- `check_authorization` from the point where `permissions_to_satisfy` is complete, with
`provided_delay` already replaced by the effective one. -/
def checkAuthorization (permissionsToSatisfy : List (PermissionLevel × ℤ))
    (providedKeys : Finset PublicKey)
    (providedPermissions : Finset PermissionLevel) (providedDelay : ℤ)
    (allowUnusedKeys checkButDontFail : Bool) : Result Unit := do
  let usedKeys ← am.satisfyDeclared permissionsToSatisfy providedKeys providedPermissions
    providedDelay checkButDontFail
  if allowUnusedKeys then pure ()
  else
    -- `all_keys_used`
    sysAssert (providedKeys \ usedKeys = ∅ ∨ checkButDontFail = true) .txIrrelevantSig
      "transaction bears irrelevant signatures from these keys: "

/-- `get_required_keys`, given the authorizations that each action of the transaction declares. -/
def getRequiredKeys (authorizations : List (List PermissionLevel))
    (candidateKeys : Finset PublicKey) (providedDelay : ℤ) : Result (Finset PublicKey) :=
  (am.makeAuthChecker candidateKeys ∅ providedDelay).assertSatisfied false
    "transaction declares authority '', but does not have signatures for it."
    (authorizations.flatten.map fun declaredAuth => (declaredAuth, providedDelay)) ∅

end

end AuthorizationManager

end Sysio
