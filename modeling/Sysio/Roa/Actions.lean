import Sysio.Roa.Basic

/-!
# The actions of the resource ownership contract

Six actions run in the contract, `reducepolicy` is native.  Each takes the actors that authorize it
(`auth`) and its arguments, and gives the new state or throws; an action that throws leaves no
trace.
-/

namespace Sysio.Roa

/-- The account of the contract, `get_self()`. -/
def sysioRoaName : Name := Name.ofChars ['s', 'y', 's', 'i', 'o', '.', 'r', 'o', 'a']

/-- `check` in a contract. -/
def check (cond : Prop) [Decidable cond] (what : String) : Result Unit :=
  sysAssert cond .sysioAssertMessageException what

@[simp]
lemma check_eq_ok {cond : Prop} [Decidable cond] {what : String} {u : Unit} :
    check cond what = .ok u ↔ cond :=
  sysAssert_eq_ok

/-- `require_auth`, and `require_authorization` in native code. -/
def requireAuth (auth : List Name) (account : Name) : Result Unit :=
  sysAssert (account ∈ auth) .missingAuthException "missing authority of "

def isSysioAccount (account : Name) : Bool :=
  let accStr := account.toChars
  accStr = ['s', 'y', 's', 'i', 'o'] ||
    (5 < accStr.length && accStr.take 6 = ['s', 'y', 's', 'i', 'o', '.'])

namespace World

variable (w : World)

/-- `roastate.get()`. -/
def getRoastate : Result RoaState :=
  require w.roastate .sysioAssertMessageException "singleton does not exist"

/-- Passes a row of `reslimit` on to the chain, with unlimited NET and CPU for some accounts. -/
def applyLimits (row : ResLimit) (unlimited : Bool) : Result World :=
  if unlimited then w.setResourceLimits row.owner (toI64 row.ramBytes) (-1) (-1)
  else w.setResourceLimits row.owner (toI64 row.ramBytes) row.netWeight.amount row.cpuWeight.amount

end World

/-! ### Rows -/

/-- Adds to the amounts of a row of `reslimit`. -/
def ResLimit.addAmounts (row : ResLimit) (net cpu ramBytes : ℤ) : Result ResLimit := do
  let net ← i64 (row.netWeight.amount + net)
  let cpu ← i64 (row.cpuWeight.amount + cpu)
  let ramBytes ← u64 (row.ramBytes + ramBytes)
  pure { row with
    netWeight := { row.netWeight with amount := net }
    cpuWeight := { row.cpuWeight with amount := cpu }
    ramBytes := ramBytes }

/-- Adds to the amounts of a row of `policies`. -/
def Policy.addAmounts (row : Policy) (net cpu ram : ℤ) : Result Policy := do
  let net ← i64 (row.netWeight.amount + net)
  let cpu ← i64 (row.cpuWeight.amount + cpu)
  let ram ← i64 (row.ramWeight.amount + ram)
  pure { row with
    netWeight := { row.netWeight with amount := net }
    cpuWeight := { row.cpuWeight with amount := cpu }
    ramWeight := { row.ramWeight with amount := ram } }

/-- Adds to the allocations in a row of `nodeowners`. -/
def NodeOwner.addAllocation (row : NodeOwner) (net cpu ram total : ℤ) : Result NodeOwner := do
  let sys ← i64 (row.allocatedSys.amount + total)
  let added ← i64 (net + cpu)
  let bw ← i64 (row.allocatedBw.amount + added)
  let ram ← i64 (row.allocatedRam.amount + ram)
  pure { row with
    allocatedSys := { row.allocatedSys with amount := sys }
    allocatedBw := { row.allocatedBw with amount := bw }
    allocatedRam := { row.allocatedRam with amount := ram } }

/-! ### Activation -/

/-- A rounded fraction `numerator / denominator` of an amount, as the contract computes it. -/
def roundedFraction (totalAmount numerator rounding denominator : ℤ) : Result ℤ := do
  let scaled ← i64 (totalAmount * numerator)
  let rounded ← i64 (scaled + rounding)
  pure (rounded.tdiv denominator)

section

variable (totalAmount : ℤ)

/-- The SYS of a node of tier 1: 4%. -/
def t1PerNode : Result ℤ := roundedFraction totalAmount 4 50 100

/-- The SYS of a node of tier 2: 0.15%. -/
def t2PerNode : Result ℤ := roundedFraction totalAmount 15 5000 10000

/-- The SYS of a node of tier 3: 0.003%. -/
def t3PerNode : Result ℤ := roundedFraction totalAmount 3 50000 100000

/-- The RAM that activation gives to `sysio.roa` and to `sysio`: half each of what all nodes of all
tiers would leave over. -/
def activationGrants (bytesPerUnit : ℕ) : Result (ℤ × ℤ) := do
  let t1Total ← i64 ((← t1PerNode totalAmount) * 21)
  let t2Total ← i64 ((← t2PerNode totalAmount) * 84)
  let t3Total ← i64 ((← t3PerNode totalAmount) * 1000)
  let allocated ← i64 ((← i64 (t1Total + t2Total)) + t3Total)
  let leftover ← i64 (totalAmount - allocated)
  let halfLeftover := leftover.tdiv 2
  let otherHalf ← i64 (leftover - halfLeftover)
  let roaRamBytes ← u64 (halfLeftover * bytesPerUnit)
  let sysioRamBytes ← u64 (otherHalf * bytesPerUnit)
  pure (roaRamBytes, sysioRamBytes)

end

def activateroa (w : World) (auth : List Name) (totalSys : Asset) (bytesPerUnit : ℕ) :
    Result World := do
  requireAuth auth sysioRoaName
  check ((w.roastate.map RoaState.isActive).getD false = false) "Contract already activated."
  let (roaRamBytes, sysioRamBytes) ← activationGrants totalSys.amount bytesPerUnit
  let zero : Asset := ⟨0, totalSys.symbol⟩
  check (w.reslimit.find? sysioRoaName = none) "roa reslimit already exists."
  let reslimit ← emplace w.reslimit ⟨sysioRoaName, zero, zero, roaRamBytes⟩
  let w ← { w with
    roastate := some ⟨true, totalSys, bytesPerUnit, 0⟩
    reslimit := reslimit }.setResourceLimits sysioRoaName (toI64 roaRamBytes) (-1) (-1)
  check (w.reslimit.find? sysioName = none) "sysio reslimit already exists."
  let reslimit ← emplace w.reslimit ⟨sysioName, zero, zero, sysioRamBytes⟩
  { w with reslimit := reslimit }.setResourceLimits sysioName (toI64 sysioRamBytes) (-1) (-1)

def setbyteprice (w : World) (auth : List Name) (bytesPerUnit : ℕ) : Result World := do
  requireAuth auth sysioRoaName
  let state ← w.getRoastate
  check (state.isActive = true) "ROA is not currently active"
  pure { w with roastate := some { state with bytesPerUnit := bytesPerUnit } }

/-! ### Registration -/

def getAllocationForTier (state : RoaState) (tier : ℕ) : Result Asset := do
  check (state.isActive = true) "Contract not active yet."
  let amount ←
    match tier with
    | 1 => t1PerNode state.totalSys.amount
    | 2 => t2PerNode state.totalSys.amount
    | 3 => t3PerNode state.totalSys.amount
    | _ => .error ⟨.sysioAssertMessageException, "Invalid tier"⟩
  pure ⟨amount, state.totalSys.symbol⟩

/-- The two policies that a new node owner gets. -/
def registrationPolicies (w : World) (owner : Name) (state : RoaState)
    (netCpuWeight personalRamWeight sysioAllocation : Asset) : Result Policies :=
  if w.policies.find? (owner, owner) = none then do
    let policies ← emplace w.policies
      ⟨owner, owner, netCpuWeight, netCpuWeight, personalRamWeight, state.bytesPerUnit, 1⟩
    let zero : Asset := ⟨0, state.totalSys.symbol⟩
    emplace policies ⟨sysioName, owner, zero, zero, sysioAllocation, state.bytesPerUnit, 1⟩
  else pure w.policies

/-- The row of `reslimit` of a new node owner. -/
def registrationLimit (w : World) (owner : Name) (netCpuWeight : Asset) (personalRamBytes : ℤ) :
    Result ResLimit :=
  match w.reslimit.find? owner with
  | none => pure ⟨owner, netCpuWeight, netCpuWeight, personalRamBytes⟩
  | some row => do
    let net ← row.netWeight.add netCpuWeight
    let cpu ← row.cpuWeight.add netCpuWeight
    let ramBytes ← u64 (row.ramBytes + personalRamBytes)
    pure { row with netWeight := net, cpuWeight := cpu, ramBytes := ramBytes }

def regnodeowner (w : World) (auth : List Name) (owner : Name) (tier : ℕ) : Result World := do
  requireAuth auth sysioRoaName
  let state ← w.getRoastate
  check (state.isActive = true) "ROA is not active yet"
  check (w.nodeowners.find? (state.networkGen, owner) = none) "This account is already registered."
  let totalSysAllocation ← getAllocationForTier state tier
  let sym := state.totalSys.symbol
  -- 0.0080 SYS of RAM for the owner, 10% of its SYS as RAM for `sysio`, 0.0500 SYS of NET and CPU
  let personalRamWeight : Asset := ⟨80, sym⟩
  let personalRamBytes ← u64 (80 * state.bytesPerUnit)
  let sysioAllocation : Asset := ⟨totalSysAllocation.amount.tdiv 10, totalSysAllocation.symbol⟩
  let netCpuWeight : Asset := ⟨500, sym⟩
  let allocatedRam ← personalRamWeight.add sysioAllocation
  let allocatedBw ← netCpuWeight.add netCpuWeight
  let allocatedSys ← allocatedRam.add allocatedBw
  let policies ← registrationPolicies w owner state netCpuWeight personalRamWeight sysioAllocation
  let row ← registrationLimit w owner netCpuWeight personalRamBytes
  let w ← { w with policies := policies, reslimit := w.reslimit.upsert row }.applyLimits row false
  let sysioRow ← require (w.reslimit.find? sysioName) .sysioAssertMessageException
    "sysio reslimit does not exist."
  let sysioBytes ← u64 (sysioAllocation.amount * state.bytesPerUnit)
  let ramBytes ← u64 (sysioRow.ramBytes + sysioBytes)
  let sysioRow := { sysioRow with ramBytes := ramBytes }
  let w ← { w with reslimit := w.reslimit.upsert sysioRow }.applyLimits sysioRow true
  let nodeowners ← emplace w.nodeowners
    ⟨owner, tier, totalSysAllocation, allocatedSys, allocatedBw, allocatedRam, state.networkGen⟩
  pure { w with nodeowners := nodeowners }

/-! ### Policies -/

/-- The weights of a new policy or of an expansion are not negative. -/
def checkNotNegative (netWeight cpuWeight ramWeight : Asset) : Result Unit := do
  check (0 ≤ netWeight.amount) "NET weight cannot be negative"
  check (0 ≤ cpuWeight.amount) "CPU weight cannot be negative"
  check (0 ≤ ramWeight.amount) "RAM weight cannot be negative"

/-- An account of the system gets no NET and CPU. -/
def checkSysioWeights (owner : Name) (netWeight cpuWeight : Asset) : Result Unit :=
  check (isSysioAccount owner = true → netWeight.amount = 0 ∧ cpuWeight.amount = 0)
    "Cannot allocate CPU/NET to sysio accounts."

/-- The row of `reslimit` of an account that gets a new policy. -/
def policyLimit (w : World) (owner : Name) (state : RoaState) (netWeight cpuWeight : Asset)
    (ramBytes : ℤ) : Result ResLimit :=
  let sysioAcct := isSysioAccount owner
  match w.reslimit.find? owner with
  | none =>
    let zero : Asset := ⟨0, state.totalSys.symbol⟩
    pure ⟨owner, if sysioAcct then zero else netWeight, if sysioAcct then zero else cpuWeight,
      ramBytes⟩
  | some row =>
    row.addAmounts (if sysioAcct then 0 else netWeight.amount)
      (if sysioAcct then 0 else cpuWeight.amount) ramBytes

def addpolicy (w : World) (auth : List Name) (owner issuer : Name)
    (netWeight cpuWeight ramWeight : Asset) (timeBlock networkGen : ℕ) : Result World := do
  requireAuth auth issuer
  let state ← w.getRoastate
  check (state.isActive = true) "ROA is not currently active"
  check (networkGen ≤ state.networkGen) "Invalid network generation."
  let node ← require (w.nodeowners.find? (networkGen, issuer)) .sysioAssertMessageException
    "Only Node Owners can issue policies for this generation."
  checkNotNegative netWeight cpuWeight ramWeight
  checkSysioWeights owner netWeight cpuWeight
  check (¬ (netWeight.amount = 0 ∧ cpuWeight.amount = 0 ∧ ramWeight.amount = 0))
    "At least one of NET, CPU, or RAM must be allocated."
  let totalNewAllocation ← (← netWeight.add cpuWeight).add ramWeight
  let freeSys ← node.totalSys.sub node.allocatedSys
  check (totalNewAllocation.amount ≤ freeSys.amount) "Not enough unallocated SYS for this policy."
  let ramBytes ← i64 (ramWeight.amount * state.bytesPerUnit)
  check (w.policies.find? (issuer, owner) = none)
    "A policy for this owner already exists from this issuer. Use expandpolicy instead."
  let row ← policyLimit w owner state netWeight cpuWeight ramBytes
  let w ← { w with reslimit := w.reslimit.upsert row }.applyLimits row (isSysioAccount owner)
  let policies ← emplace w.policies
    ⟨owner, issuer, netWeight, cpuWeight, ramWeight, state.bytesPerUnit, timeBlock⟩
  let node ← node.addAllocation netWeight.amount cpuWeight.amount ramWeight.amount
    totalNewAllocation.amount
  pure { w with policies := policies, nodeowners := w.nodeowners.upsert node }

def expandpolicy (w : World) (auth : List Name) (owner issuer : Name)
    (netWeight cpuWeight ramWeight : Asset) (networkGen : ℕ) : Result World := do
  requireAuth auth issuer
  let node ← require (w.nodeowners.find? (networkGen, issuer)) .sysioAssertMessageException
    "Only Node Owners can manage policies."
  let policy ← require (w.policies.find? (issuer, owner)) .sysioAssertMessageException
    "You have no policy for this owner."
  checkNotNegative netWeight cpuWeight ramWeight
  check (¬ (netWeight.amount = 0 ∧ cpuWeight.amount = 0 ∧ ramWeight.amount = 0))
    "At least one of NET, CPU, or RAM must be increased."
  checkSysioWeights owner netWeight cpuWeight
  let sysioAcct := isSysioAccount owner
  let totalNewAllocation ← (← netWeight.add cpuWeight).add ramWeight
  let freeSys ← node.totalSys.sub node.allocatedSys
  check (totalNewAllocation.amount ≤ freeSys.amount)
    "Issuer does not have enough unallocated SYS for this policy expansion."
  let ramBytes ← i64 (ramWeight.amount * policy.bytesPerUnit)
  let netAdded := if sysioAcct then 0 else netWeight.amount
  let cpuAdded := if sysioAcct then 0 else cpuWeight.amount
  let policy ← policy.addAmounts netAdded cpuAdded ramWeight.amount
  let node ← node.addAllocation netWeight.amount cpuWeight.amount ramWeight.amount
    totalNewAllocation.amount
  let row ← require (w.reslimit.find? owner) .sysioAssertMessageException
    "No reslimit found for user."
  let row ← row.addAmounts netAdded cpuAdded ramBytes
  { w with
    policies := w.policies.upsert policy
    nodeowners := w.nodeowners.upsert node
    reslimit := w.reslimit.upsert row }.applyLimits row sysioAcct

/-- `roa::extendpolicy`; `current_block_number()` is the block being made. -/
def extendpolicy (w : World) (auth : List Name) (owner issuer : Name) (newTimeBlock : ℕ) :
    Result World := do
  requireAuth auth issuer
  let policy ← require (w.policies.find? (issuer, owner)) .sysioAssertMessageException
    "Policy does not exist under this issuer for this owner"
  check (policy.timeBlock < newTimeBlock) "Cannot reduce a policies existing time_block"
  check (w.headBlockNum + 1 < newTimeBlock)
    "You cannot set a time_block lower than the current block"
  pure { w with policies := w.policies.upsert { policy with timeBlock := newTimeBlock } }

/-! ### The native action -/

/-- Reads a row of `nodeowners` from its bytes. -/
def NodeOwner.unpack (row : NodeOwner) : Result NodeOwner := do
  row.totalSys.reflectorInit
  row.allocatedSys.reflectorInit
  row.allocatedBw.reflectorInit
  row.allocatedRam.reflectorInit
  pure row

/-- Reads a row of `policies` from its bytes. -/
def Policy.unpack (row : Policy) : Result Policy := do
  row.netWeight.reflectorInit
  row.cpuWeight.reflectorInit
  row.ramWeight.reflectorInit
  pure row

/-- Reads a row of `reslimit` from its bytes. -/
def ResLimit.unpack (row : ResLimit) : Result ResLimit := do
  row.netWeight.reflectorInit
  row.cpuWeight.reflectorInit
  pure row

/-- What `reducepolicy` takes back of the RAM: the bytes, in whole units of the policy's price and
no more than the account has unused, and the weight. -/
def reclaimRam (ramWeight : Asset) (bytesPerUnit : ℕ) (ramBytes ramUsage : ℤ) :
    Result (ℤ × Asset) :=
  if 0 < ramWeight.amount then do
    let ramUnused ← i64 (ramBytes - ramUsage)
    let requestedRamBytes ← i64 (ramWeight.amount * bytesPerUnit)
    let ramToReclaim := min ramUnused requestedRamBytes
    sysAssert (0 ≤ ramToReclaim) .actionValidateException "Invalid RAM reclaim calculation"
    -- a remainder by zero has no defined result
    sysAssert (bytesPerUnit ≠ 0) .undefinedBehavior "remainder by zero"
    let remainder := ramToReclaim.tmod bytesPerUnit
    let divisibleRamToReclaim := ramToReclaim - remainder
    let reclaimedUnits := divisibleRamToReclaim.tdiv bytesPerUnit
    let reclaimedRamWeight ← Asset.make reclaimedUnits ramWeight.symbol
    sysAssert (reclaimedRamWeight.amount ≤ ramWeight.amount) .actionValidateException
      "Cannot reclaim more RAM than requested"
    pure (divisibleRamToReclaim, reclaimedRamWeight)
  else pure (0, ⟨0, ramWeight.symbol⟩)

/-- The checks of `reducepolicy` that come after the three rows are found. -/
def checkReduction (policy : Policy) (netWeight cpuWeight ramWeight : Asset) : Result Unit := do
  sysAssert (0 ≤ netWeight.amount) .actionValidateException "NET weight cannot be negative"
  sysAssert (0 ≤ cpuWeight.amount) .actionValidateException "CPU weight cannot be negative"
  sysAssert (0 ≤ ramWeight.amount) .actionValidateException "RAM weight cannot be negative"
  sysAssert (0 < netWeight.amount ∨ 0 < cpuWeight.amount ∨ 0 < ramWeight.amount)
    .actionValidateException "All weights are 0, nothing to reduce."
  sysAssert (netWeight.amount ≤ policy.netWeight.amount) .actionValidateException
    "Cannot reduce NET below zero"
  sysAssert (cpuWeight.amount ≤ policy.cpuWeight.amount) .actionValidateException
    "Cannot reduce CPU below zero"
  sysAssert (ramWeight.amount ≤ policy.ramWeight.amount) .actionValidateException
    "Cannot reduce RAM below zero"

/-- The three rows after a reduction, in the order `reslimit`, `policies`, `nodeowners`. -/
def reducedRows (node : NodeOwner) (policy : Policy) (row : ResLimit)
    (netWeight cpuWeight reclaimedRamWeight : Asset) (divisibleRamToReclaim : ℤ) :
    Result (ResLimit × Policy × NodeOwner) := do
  let rowNet ← row.netWeight.chainSubAssign netWeight
  let rowCpu ← row.cpuWeight.chainSubAssign cpuWeight
  let rowRam ← u64 (row.ramBytes - divisibleRamToReclaim)
  let polNet ← policy.netWeight.chainSubAssign netWeight
  let polCpu ← policy.cpuWeight.chainSubAssign cpuWeight
  let polRam ← policy.ramWeight.chainSubAssign reclaimedRamWeight
  let bw ← netWeight.chainAdd cpuWeight
  let totalReclaimedSys ← bw.chainAdd reclaimedRamWeight
  let allocatedSys ← node.allocatedSys.chainSubAssign totalReclaimedSys
  let allocatedBw ← node.allocatedBw.chainSubAssign bw
  let allocatedRam ← node.allocatedRam.chainSubAssign reclaimedRamWeight
  pure ({ row with netWeight := rowNet, cpuWeight := rowCpu, ramBytes := rowRam },
    { policy with netWeight := polNet, cpuWeight := polCpu, ramWeight := polRam },
    { node with allocatedSys := allocatedSys, allocatedBw := allocatedBw,
                allocatedRam := allocatedRam })

/-- Whether nothing is left of a policy. -/
def Policy.AllZero (p : Policy) : Prop :=
  p.netWeight.amount = 0 ∧ p.cpuWeight.amount = 0 ∧ p.ramWeight.amount = 0

instance (p : Policy) : Decidable p.AllZero := inferInstanceAs (Decidable (_ ∧ _ ∧ _))

/-- Writes a changed policy back, or removes it when nothing is left of it. -/
def storePolicy (policies : Policies) (p : Policy) : Policies :=
  if p.AllZero then policies.erase (p.issuer, p.owner) else policies.upsert p

/-- `apply_roa_reducepolicy`. -/
def reducepolicy (w : World) (auth : List Name) (owner issuer : Name)
    (netWeight cpuWeight ramWeight : Asset) (networkGen : ℕ) : Result World := do
  netWeight.reflectorInit
  cpuWeight.reflectorInit
  ramWeight.reflectorInit
  requireAuth auth issuer
  let node ← require (w.nodeowners.find? (networkGen, issuer)) .actionValidateException
    "Issuer is not a registered Node Owner"
  let node ← node.unpack
  sysAssert (node.owner = issuer) .actionValidateException
    "Mismatched nodeowner row: stored owner != issuer"
  let policy ← require (w.policies.find? (issuer, owner)) .actionValidateException
    "Policy does not exist under this issuer for the owner"
  let policy ← policy.unpack
  sysAssert (policy.timeBlock ≤ w.headBlockNum) .actionValidateException
    "Cannot reduce policy before time_block"
  sysAssert (¬ (isSysioAccount owner = true ∧ policy.timeBlock = 1 ∧ policy.issuer = issuer))
    .actionValidateException "Cannot reduce the sysio policies created at node registration"
  let row ← require (w.reslimit.find? owner) .actionValidateException
    "reslimit row does not exist for this owner"
  let row ← row.unpack
  checkReduction policy netWeight cpuWeight ramWeight
  let limits ← require (w.limits owner) .logicError "unknown key"
  let (divisibleRamToReclaim, reclaimedRamWeight) ←
    reclaimRam ramWeight policy.bytesPerUnit limits.ramBytes (w.ramUsage owner)
  let ramBytes ← i64 (limits.ramBytes - divisibleRamToReclaim)
  let netLimit ← i64 (limits.netWeight - netWeight.amount)
  let cpuLimit ← i64 (limits.cpuWeight - cpuWeight.amount)
  let w ← w.setAccountLimits owner ⟨ramBytes, netLimit, cpuLimit⟩
  let (row, policy, node) ← reducedRows node policy row netWeight cpuWeight reclaimedRamWeight
    divisibleRamToReclaim
  pure { w with
    reslimit := w.reslimit.upsert row
    policies := storePolicy w.policies policy
    nodeowners := w.nodeowners.upsert node }

/-! ### Steps -/

/-- An action of the contract, with its arguments. -/
inductive Action
  | activateroa (totalSys : Asset) (bytesPerUnit : ℕ)
  | setbyteprice (bytesPerUnit : ℕ)
  | regnodeowner (owner : Name) (tier : ℕ)
  | addpolicy (owner issuer : Name) (netWeight cpuWeight ramWeight : Asset)
      (timeBlock networkGen : ℕ)
  | expandpolicy (owner issuer : Name) (netWeight cpuWeight ramWeight : Asset) (networkGen : ℕ)
  | extendpolicy (owner issuer : Name) (newTimeBlock : ℕ)
  | reducepolicy (owner issuer : Name) (netWeight cpuWeight ramWeight : Asset) (networkGen : ℕ)

/-- An action, authorized by any actors, or whatever else happens on the chain in between: account
limits and RAM usage change, and blocks are made. -/
inductive Event
  | act (auth : List Name) (action : Action)
  | chain (limits : Name → Option AccountLimits) (ramUsage : Name → ℤ) (headBlockNum : ℕ)

def applyAction (w : World) (auth : List Name) : Action → Result World
  | .activateroa totalSys bytesPerUnit => activateroa w auth totalSys bytesPerUnit
  | .setbyteprice bytesPerUnit => setbyteprice w auth bytesPerUnit
  | .regnodeowner owner tier => regnodeowner w auth owner tier
  | .addpolicy owner issuer net cpu ram timeBlock networkGen =>
    addpolicy w auth owner issuer net cpu ram timeBlock networkGen
  | .expandpolicy owner issuer net cpu ram networkGen =>
    expandpolicy w auth owner issuer net cpu ram networkGen
  | .extendpolicy owner issuer newTimeBlock => extendpolicy w auth owner issuer newTimeBlock
  | .reducepolicy owner issuer net cpu ram networkGen =>
    reducepolicy w auth owner issuer net cpu ram networkGen

def applyEvent (w : World) : Event → Result World
  | .act auth action => applyAction w auth action
  | .chain limits ramUsage headBlockNum =>
    .ok { w with limits := limits, ramUsage := ramUsage, headBlockNum := headBlockNum }

/-- A successful event leads from one state to the next. -/
def Step (w : World) (e : Event) (w' : World) : Prop := applyEvent w e = .ok w'

end Sysio.Roa
