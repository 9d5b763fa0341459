import Sysio.Data.Table
import Sysio.Types

/-!
# Resource ownership: tables, assets and account limits

The `sysio.roa` contract hands out network, CPU and RAM by *policies*: a node owner (`issuer`) gives
some of its SYS to an account (`owner`).  The contract keeps what follows from the policies in two
more tables, the allocations of each node owner and the limits of each account, and passes the
limits on to the chain.

`World` is the contract's tables together with what it shares with the rest of the chain: the
limits and the RAM usage of accounts, and the block number.  Arithmetic in 64 bits is checked
(`i64`, `u64`): a result that does not fit is an error of its own class.
-/

namespace Sysio.Roa

open Result

variable {amount cpuWeight m n netWeight ramBytes : ℤ}

/-! ### Arithmetic -/

/-- The value, if it fits `int64_t`. -/
def i64 (n : ℤ) : Result ℤ :=
  if -2 ^ 63 ≤ n ∧ n < 2 ^ 63 then .ok n else .error ⟨.outOfRange, "int64_t"⟩

/-- The value, if it fits `uint64_t`. -/
def u64 (n : ℤ) : Result ℤ :=
  if 0 ≤ n ∧ n < 2 ^ 64 then .ok n else .error ⟨.outOfRange, "uint64_t"⟩

@[simp]
lemma i64_eq_ok : i64 n = .ok m ↔ (-2 ^ 63 ≤ n ∧ n < 2 ^ 63) ∧ n = m := by
  unfold i64
  split_ifs with h
  · exact ⟨fun hok => ⟨h, Except.ok.inj hok⟩, fun hm => congrArg _ hm.2⟩
  · exact ⟨nofun, fun hm => absurd hm.1 h⟩

@[simp]
lemma u64_eq_ok : u64 n = .ok m ↔ (0 ≤ n ∧ n < 2 ^ 64) ∧ n = m := by
  unfold u64
  split_ifs with h
  · exact ⟨fun hok => ⟨h, Except.ok.inj hok⟩, fun hm => congrArg _ hm.2⟩
  · exact ⟨nofun, fun hm => absurd hm.1 h⟩

/-- The conversion from `uint64_t` to `int64_t`. -/
def toI64 (n : ℤ) : ℤ := if n < 2 ^ 63 then n else n - 2 ^ 64

/-! ### Assets -/

/-- `symbol`: a precision and up to seven letters. -/
structure Symbol where
  value : UInt64
  deriving DecidableEq, Repr

namespace Symbol

def decimals (s : Symbol) : ℕ := (s.value &&& 0xFF).toNat

/-- The loop of `name` that reads the letters, one byte each. -/
def letters : ℕ → UInt64 → List ℕ
  | 0, _ => []
  | k + 1, v => if v = 0 then [] else (v &&& 0xFF).toNat :: letters k (v >>> 8)

/-- `valid_name` of `name`: only capital letters. -/
def validName (s : Symbol) : Bool := (letters 7 (s.value >>> 8)).all fun c => 65 ≤ c && c ≤ 90

end Symbol

structure Asset where
  amount : ℤ
  symbol : Symbol
  deriving DecidableEq, Repr

namespace Asset

/-- `reflector_init` of a symbol and an asset, which runs when the chain reads one from bytes. -/
def reflectorInit (a : Asset) : Result Unit := do
  sysAssert (a.symbol.decimals ≤ 18) .symbolTypeException "precision  should be <= 18"
  sysAssert (a.symbol.validName = true) .symbolTypeException "invalid symbol: "
  sysAssert (-(2 ^ 62 - 1) ≤ a.amount ∧ a.amount ≤ 2 ^ 62 - 1) .assetTypeException
    "magnitude of asset amount must be less than 2^62"

/-- The constructor of the chain's assets. -/
def make (amount : ℤ) (symbol : Symbol) : Result Asset := do
  sysAssert (-(2 ^ 62 - 1) ≤ amount ∧ amount ≤ 2 ^ 62 - 1) .assetTypeException
    "magnitude of asset amount must be less than 2^62"
  sysAssert (symbol.decimals ≤ 18 ∧ symbol.validName = true) .assetTypeException "invalid symbol"
  pure ⟨amount, symbol⟩

/-- Addition of assets in a contract. -/
def add (a b : Asset) : Result Asset := do
  sysAssert (a.symbol = b.symbol) .sysioAssertMessageException
    "attempt to add asset with different symbol"
  let amount ← i64 (a.amount + b.amount)
  pure ⟨amount, a.symbol⟩

/-- Subtraction of assets in a contract. -/
def sub (a b : Asset) : Result Asset := do
  sysAssert (a.symbol = b.symbol) .sysioAssertMessageException
    "attempt to subtract asset with different symbol"
  let amount ← i64 (a.amount - b.amount)
  pure ⟨amount, a.symbol⟩

/-- `operator +` of the chain's assets. -/
def chainAdd (a b : Asset) : Result Asset := do
  sysAssert (a.symbol = b.symbol) .assetTypeException
    "addition between two different asset is not allowed"
  let amount ← i64 (a.amount + b.amount)
  make amount a.symbol

/-- `operator -=` of the chain's assets. -/
def chainSubAssign (a b : Asset) : Result Asset := do
  sysAssert (a.symbol = b.symbol) .assetTypeException
    "subtraction between two different asset is not allowed"
  let amount ← i64 (a.amount - b.amount)
  pure ⟨amount, a.symbol⟩

variable {a b r : Asset}

lemma amount_add (h : a.add b = .ok r) : r.amount = a.amount + b.amount := by
  simp only [add, bind_eq_ok, sysAssert_eq_ok, i64_eq_ok, pure_eq_ok] at h
  obtain ⟨-, -, -, ⟨-, rfl⟩, rfl⟩ := h
  rfl

lemma make_eq_ok {symbol : Symbol} (h : make amount symbol = .ok r) :
    r = ⟨amount, symbol⟩ := by
  simp only [make, bind_eq_ok, sysAssert_eq_ok, pure_eq_ok] at h
  obtain ⟨-, -, -, -, rfl⟩ := h
  rfl

lemma amount_chainAdd (h : a.chainAdd b = .ok r) : r.amount = a.amount + b.amount := by
  simp only [chainAdd, bind_eq_ok, sysAssert_eq_ok, i64_eq_ok] at h
  obtain ⟨-, -, -, ⟨-, rfl⟩, hmake⟩ := h
  rw [make_eq_ok hmake]

lemma amount_chainSubAssign (h : a.chainSubAssign b = .ok r) :
    r.amount = a.amount - b.amount := by
  simp only [chainSubAssign, bind_eq_ok, sysAssert_eq_ok, i64_eq_ok, pure_eq_ok] at h
  obtain ⟨-, -, -, ⟨-, rfl⟩, rfl⟩ := h
  rfl

end Asset

/-! ### Tables -/

structure RoaState where
  isActive : Bool
  totalSys : Asset
  bytesPerUnit : ℕ
  networkGen : ℕ
  deriving DecidableEq, Repr

/-- A row of `nodeowners`. -/
structure NodeOwner where
  owner : Name
  tier : ℕ
  totalSys : Asset
  allocatedSys : Asset
  allocatedBw : Asset
  allocatedRam : Asset
  networkGen : ℕ
  deriving DecidableEq, Repr

/-- A row of `policies`. -/
structure Policy where
  owner : Name
  issuer : Name
  netWeight : Asset
  cpuWeight : Asset
  ramWeight : Asset
  bytesPerUnit : ℕ
  timeBlock : ℕ
  deriving DecidableEq, Repr

/-- A row of `reslimit`. -/
structure ResLimit where
  owner : Name
  netWeight : Asset
  cpuWeight : Asset
  ramBytes : ℤ
  deriving DecidableEq, Repr

/-- The table `nodeowners`: the scope is the generation, the primary key the owner. -/
abbrev NodeOwners := Table (ℕ × Name) NodeOwner fun row => (row.networkGen, row.owner)

/-- The table `policies`: the scope is the issuer, the primary key the owner. -/
abbrev Policies := Table (Name × Name) Policy fun row => (row.issuer, row.owner)

/-- The table `reslimit`: both the scope and the primary key are the owner. -/
abbrev ResLimits := Table Name ResLimit ResLimit.owner

/-- Adds a row whose primary key is not in use. -/
def emplace {κ ρ : Type} {key : ρ → κ} [DecidableEq κ] (t : Table κ ρ key) (row : ρ) :
    Result (Table κ ρ key) :=
  if t.find? (key row) = none then .ok (t.insert row)
  else .error ⟨.logicError,
    "could not insert object, most likely a uniqueness constraint was violated"⟩

@[simp]
lemma emplace_eq_ok {κ ρ : Type} {key : ρ → κ} [DecidableEq κ] {t t' : Table κ ρ key} {row : ρ} :
    emplace t row = .ok t' ↔ t.find? (key row) = none ∧ t.insert row = t' := by
  unfold emplace
  split_ifs with h <;> simp [h]

/-! ### The state of the chain -/

/-- What the resource manager keeps for an account; -1 means no limit. -/
structure AccountLimits where
  ramBytes : ℤ
  netWeight : ℤ
  cpuWeight : ℤ
  deriving DecidableEq, Repr

/-- The state that the actions read and write. -/
structure World where
  /-- The singleton `roastate`. -/
  roastate : Option RoaState
  nodeowners : NodeOwners
  policies : Policies
  reslimit : ResLimits
  /-- The limits of each existing account, pending ones included. -/
  limits : Name → Option AccountLimits
  /-- The RAM that each account uses. -/
  ramUsage : Name → ℤ
  headBlockNum : ℕ

namespace World

/-- No table has a row. -/
def initial (limits : Name → Option AccountLimits) (ramUsage : Name → ℤ) (headBlockNum : ℕ) :
    World :=
  ⟨none, .empty, .empty, .empty, limits, ramUsage, headBlockNum⟩

def setAccountLimits (w : World) (account : Name) (l : AccountLimits) : Result World := do
  let _ ← require (w.limits account) .logicError "unknown key"
  pure { w with limits := Function.update w.limits account (some l) }

/-- The intrinsic `set_resource_limits`. -/
def setResourceLimits (w : World) (account : Name) (ramBytes netWeight cpuWeight : ℤ) :
    Result World := do
  sysAssert (-1 ≤ ramBytes) .wasmExecutionError
    "invalid value for ram resource limit expected [-1,INT64_MAX]"
  sysAssert (-1 ≤ netWeight) .wasmExecutionError
    "invalid value for net resource weight expected [-1,INT64_MAX]"
  sysAssert (-1 ≤ cpuWeight) .wasmExecutionError
    "invalid value for cpu resource weight expected [-1,INT64_MAX]"
  w.setAccountLimits account ⟨ramBytes, netWeight, cpuWeight⟩

/-- The two states have the same tables. -/
structure SameTables (w w' : World) : Prop where
  roastate_eq : w'.roastate = w.roastate
  nodeowners_eq : w'.nodeowners = w.nodeowners
  policies_eq : w'.policies = w.policies
  reslimit_eq : w'.reslimit = w.reslimit

variable {w w' : World} {account : Name} {l : AccountLimits}

lemma sameTables_setAccountLimits (h : w.setAccountLimits account l = .ok w') :
    SameTables w w' := by
  obtain ⟨-, -, h⟩ := bind_eq_ok.mp h
  cases h
  exact ⟨rfl, rfl, rfl, rfl⟩

lemma sameTables_setResourceLimits
    (h : w.setResourceLimits account ramBytes netWeight cpuWeight = .ok w') : SameTables w w' := by
  simp only [setResourceLimits, bind_eq_ok, sysAssert_eq_ok] at h
  obtain ⟨-, -, -, -, -, -, h⟩ := h
  exact sameTables_setAccountLimits h

end World

end Sysio.Roa
