import Mathlib.Data.List.Forall2
import Mathlib.Data.Prod.Lex
import Mathlib.Order.Lattice
import Mathlib.Tactic.NormNum

/-!
# Basic chain types

The types that every part of the model shares: exceptions and the assertion that throws them,
account and permission names, digests and block ids, keys and signatures.

Fixed-width fields that come in from outside (names, digests, header fields) have the fixed-width
type of the source.  Numbers that the chain computes are natural numbers, with the wrap-around
written out (`u32`) where the source can reach it.
-/

namespace Sysio

open List

/-! ### Exceptions -/

/-- The exception classes thrown by the modelled functions. -/
inductive ExceptionType
  | blockValidateException
  | unlinkableBlockException
  | wrongProducer
  | wrongSigningKey
  | producerScheduleException
  | producerDoubleConfirm
  | invalidBlockHeaderExtension
  | illFormedProtocolFeatureActivation
  | illFormedAdditionalBlockSignaturesExtension
  | invalidBlockExtension
  | noBlockSignatures
  | protocolFeatureException
  | protocolFeatureBadBlockException
  | protocolFeatureValidationException
  | subjectiveBlockProductionException
  | databaseException
  | miscException
  | transactionException
  | expiredTxException
  | txExpTooFarException
  | txDuplicate
  | invalidRefBlockException
  | disallowedTransactionExtensionsBadBlockException
  | rateLimitingStateInconsistent
  | resourceLimitException
  | txCpuUsageExceeded
  | txNetUsageExceeded
  | blockResourceExhausted
  | ramUsageExceeded
  | resourceExhaustedException
  | invalidTablePayer
  | invalidContractVmType
  | invalidContractVmVersion
  | setExactCode
  | snapshotFinalizationException
  | snapshotExecutionException
  | pluginException
  | txResourceExhaustion
  | deferredTxDuplicate
  | tableOperationNotPermitted
  | unaccessibleApi
  | txNoAuths
  | producerException
  | missingPendingBlockState
  | producerPrivKeyNotFound
  | blockLogException
  | blockLogAppendFail
  /-- `std::ios_base::failure`, thrown when a file cannot be read or written. -/
  | iosBaseFailure
  /-- `fc::overflow_exception`. -/
  | overflowException
  | forkDatabaseException
  | forkDbBlockNotFound
  /-- `fc::assert_exception`, thrown by `FC_ASSERT`. -/
  | assertException
  | actionValidateException
  | assetTypeException
  | symbolTypeException
  | accountNameExistsException
  | accountQueryException
  | permissionQueryException
  | invalidPermission
  | unactivatedKeyType
  | keyBlacklistException
  | actorWhitelistException
  | actorBlacklistException
  | unlinkableMinPermissionAction
  | txNotFound
  | unsatisfiedAuthorization
  | irrelevantAuthException
  | txIrrelevantSig
  /-- `sysio_assert_message_exception`, thrown by `check` in a contract. -/
  | sysioAssertMessageException
  | missingAuthException
  | wasmExecutionError
  /-- A failed `chainbase` insertion (`std::logic_error`). -/
  | logicError
  /-- A result that does not fit the 64-bit type it is computed in. -/
  | outOfRange
  /-- An operation that has no defined result in C++ (a null pointer dereferenced, a remainder
  by zero, an index out of bounds), or a loop that does not end. -/
  | undefinedBehavior
  deriving DecidableEq, Repr

/-- An exception: its class and its message. -/
structure ChainException where
  /-- The exception class. -/
  type : ExceptionType
  /-- The message text, without the values that are interpolated into it. -/
  what : String
  deriving DecidableEq, Repr

/-- The result of a function that may throw. -/
abbrev Result (α : Type) := Except ChainException α

/-- `SYS_ASSERT`: throws unless the condition holds. -/
def sysAssert (cond : Prop) [Decidable cond] (type : ExceptionType) (what : String) :
    Result Unit :=
  if cond then .ok () else .error ⟨type, what⟩

namespace Result

variable {α β : Type} {f : α → Result β} {x : Result α} {a : α} {l : List α}

lemma bind_eq_ok {b : β} : (x >>= f) = .ok b ↔ ∃ a, x = .ok a ∧ f a = .ok b := by
  cases x with
  | error | ok => simp [bind, Except.bind]

/-- Whether a computation throws a certain exception can be decided, whatever it returns. -/
instance (x : Result α) (e : ChainException) : Decidable (x = .error e) :=
  match x with
  | .error e' => decidable_of_iff (e' = e) (Except.error.injEq e' e).symm.to_iff
  | .ok _ => .isFalse nofun

/-- What a computation returns or throws can be tested. -/
instance (x : Result α) (p : α → Prop) [DecidablePred p] : Decidable (∃ a, x = .ok a ∧ p a) :=
  match x with
  | .error _ => .isFalse (by simp)
  | .ok a => decidable_of_iff (p a) (by simp)

instance (x : Result α) (p : ChainException → Prop) [DecidablePred p] :
    Decidable (∃ e, x = .error e ∧ p e) :=
  match x with
  | .error e => decidable_of_iff (p e) (by simp)
  | .ok _ => .isFalse (by simp)

lemma ok_bind (a : α) (f : α → Result β) : ((.ok a : Result α) >>= f) = f a := rfl

lemma map_eq_ok {f : α → β} {b : β} : (f <$> x) = .ok b ↔ ∃ a, x = .ok a ∧ f a = b := by
  cases x with
  | error | ok => simp [Functor.map, Except.map]

@[simp]
lemma pure_eq_ok {b : α} : (pure a : Result α) = .ok b ↔ a = b := by
  simp [pure, Except.pure]

lemma eq_ok_of_toOption (h : x.toOption = some a) : x = .ok a := by
  cases x with
  | error e => cases h
  | ok b => exact congrArg _ (Option.some.inj h)

/-- What every step of a loop does, the loop does: for a relation that composes. -/
lemma foldlM_induction {σ : Type} {f : σ → α → Result σ} {R : σ → σ → Prop} (hrefl : ∀ s, R s s)
    (htrans : ∀ s1 s2 s3, R s1 s2 → R s2 s3 → R s1 s3) (hstep : ∀ s a s', f s a = .ok s' → R s s')
    {s s' : σ} (h : l.foldlM f s = .ok s') : R s s' := by
  induction l generalizing s with
  | nil =>
    rw [foldlM_nil, pure_eq_ok] at h
    exact h ▸ hrefl s
  | cons a l ih =>
    rw [foldlM_cons, bind_eq_ok] at h
    obtain ⟨s1, h1, h2⟩ := h
    exact htrans s s1 s' (hstep s a s1 h1) (ih h2)

lemma of_foldlM_eq_ok {σ : Type} {f : σ → α → Result σ} {s s' : σ}
    (h : l.foldlM f s = .ok s') (ha : a ∈ l) : ∃ s1 s2, f s1 a = .ok s2 := by
  induction l generalizing s with
  | nil => cases ha
  | cons b l ih =>
    rw [foldlM_cons, bind_eq_ok] at h
    obtain ⟨s1, h1, h2⟩ := h
    rcases mem_cons.mp ha with rfl | ha
    · exact ⟨s, s1, h1⟩
    · exact ih h2 ha

lemma forM_eq_ok {f : α → Result Unit} : l.forM f = .ok () ↔ ∀ a ∈ l, f a = .ok () := by
  induction l with
  | nil => simp
  | cons b l ih =>
    rw [forall_mem_cons, ← ih, List.forM, bind_eq_ok]
    exact ⟨fun ⟨_, hb, hl⟩ => ⟨hb, hl⟩, fun ⟨hb, hl⟩ => ⟨(), hb, hl⟩⟩

lemma mapM_eq_ok {r : List β} : l.mapM f = .ok r ↔ Forall₂ (fun a b => f a = .ok b) l r := by
  induction l generalizing r with
  | nil => rw [mapM_nil, pure_eq_ok, forall₂_nil_left_iff, eq_comm]
  | cons a l ih =>
    simp only [mapM_cons, bind_eq_ok, pure_eq_ok, forall₂_cons_left_iff, ih]
    constructor
    · rintro ⟨b, hb, bs, hbs, rfl⟩
      exact ⟨b, bs, hb, hbs, rfl⟩
    · rintro ⟨b, bs, hb, hbs, rfl⟩
      exact ⟨b, hb, bs, hbs, rfl⟩

/-- The computation may throw, but it has no undefined behaviour. -/
def Defined (x : Result α) : Prop := ∀ e, x = .error e → e.type ≠ .undefinedBehavior

lemma defined_ok (a : α) : Defined (.ok a : Result α) := nofun

lemma defined_error {e : ChainException} (h : e.type ≠ .undefinedBehavior) :
    Defined (.error e : Result α) := by
  rintro _ ⟨⟩
  exact h

lemma Defined.bind (hx : Defined x) (hf : ∀ a, x = .ok a → Defined (f a)) : Defined (x >>= f) := by
  cases x with
  | error e =>
    rintro _ ⟨⟩
    exact hx e rfl
  | ok a => exact hf a rfl

end Result

variable {type : ExceptionType} {what : String}

lemma defined_sysAssert {cond : Prop} [Decidable cond]
    (h : type ≠ .undefinedBehavior) : Result.Defined (sysAssert cond type what) := by
  unfold sysAssert
  split_ifs
  · exact Result.defined_ok _
  · exact Result.defined_error h

@[simp]
lemma sysAssert_eq_ok {cond : Prop} [Decidable cond]
    {u : Unit} : sysAssert cond type what = .ok u ↔ cond := by
  unfold sysAssert
  split_ifs with h <;> simp [h]

/-- The value of an optional result, which must be there. -/
def require {α : Type} (a : Option α) (type : ExceptionType) (what : String) : Result α :=
  match a with
  | some a => .ok a
  | none => .error ⟨type, what⟩

@[simp]
lemma require_eq_ok {α : Type} {o : Option α} {a : α} :
    require o type what = .ok a ↔ o = some a := by
  cases o <;> simp [require]

/-! ### Numbers -/

/-- Truncation to `uint32_t`. -/
def u32 (n : ℕ) : ℕ := n % 2 ^ 32

lemma u32_lt (n : ℕ) : u32 n < 2 ^ 32 := Nat.mod_lt _ (by norm_num)

lemma u32_of_lt {n : ℕ} (h : n < 2 ^ 32) : u32 n = n := Nat.mod_eq_of_lt h

/-- Truncation to `uint64_t`. -/
def wrap64 (n : ℕ) : ℕ := n % 2 ^ 64

/-- Truncation to `uint128_t`. -/
def wrap128 (n : ℕ) : ℕ := n % 2 ^ 128

/-- Subtraction in `uint32_t`. -/
def subU32 (a b : ℕ) : ℕ := u32 (a + 2 ^ 32 - u32 b)

lemma subU32_of_le {a b : ℕ} (ha : a < 2 ^ 32) (h : b ≤ a) : subU32 a b = a - b := by
  unfold subU32
  rw [u32_of_lt (h.trans_lt ha), show a + 2 ^ 32 - b = (a - b) + 2 ^ 32 by omega, u32,
    Nat.add_mod_right, Nat.mod_eq_of_lt (by omega)]

/-! ### Names -/

/-- `name`: an account, permission, table or action name. -/
structure Name where
  /-- The packed characters. -/
  value : UInt64
  deriving DecidableEq, Repr

namespace Name

/-- The default name, `name()`. -/
def empty : Name := ⟨0⟩

instance : LinearOrder Name :=
  LinearOrder.lift' (fun n : Name => n.value.toNat) fun a b h => by
    cases a
    cases b
    exact congrArg Name.mk (UInt64.toNat_inj.mp h)

def charToSymbol (c : Char) : UInt64 :=
  if 'a' ≤ c ∧ c ≤ 'z' then UInt64.ofNat (c.toNat - 'a'.toNat) + 6
  else if '1' ≤ c ∧ c ≤ '5' then UInt64.ofNat (c.toNat - '1'.toNat) + 1
  else 0

/-- The loop of `string_to_uint64_t` from character `i` on. -/
def packChars : ℕ → List Char → UInt64 → UInt64
  | _, [], n => n
  | i, c :: cs, n =>
    if i < 12 then
      packChars (i + 1) cs (n ||| (charToSymbol c &&& 0x1f) <<< UInt64.ofNat (64 - 5 * (i + 1)))
    else n ||| (charToSymbol c &&& 0x0f)

/-- `string_to_uint64_t`, as the name literal `"..."_n`. -/
def ofChars (cs : List Char) : Name := ⟨packChars 0 cs 0⟩

/-- `charmap` of `name::to_string`. -/
def charmap : List Char :=
  ['.', '1', '2', '3', '4', '5', 'a', 'b', 'c', 'd', 'e', 'f', 'g', 'h', 'i', 'j', 'k', 'l', 'm',
    'n', 'o', 'p', 'q', 'r', 's', 't', 'u', 'v', 'w', 'x', 'y', 'z']

/-- The loop of `name::to_string`: the characters of positions `12 - i` and before, in front of
those already written. -/
def unpackChars : ℕ → UInt64 → List Char → List Char
  | 0, _, acc => acc
  | k + 1, tmp, acc =>
    unpackChars k (tmp >>> 5) ((charmap[(tmp &&& 0x1f).toNat]?).getD '.' :: acc)

/-- `name::to_string`, as a list of characters: the last position holds four bits, the others
five, and trailing dots are dropped. -/
def toChars (n : Name) : List Char :=
  let last := (charmap[(n.value &&& 0x0f).toNat]?).getD '.'
  ((unpackChars 12 (n.value >>> 4) [last]).reverse.dropWhile (· = '.')).reverse

end Name

/-- `config::system_account_name`. -/
def sysioName : Name := Name.ofChars ['s', 'y', 's', 'i', 'o']

example : sysioName.toChars = ['s', 'y', 's', 'i', 'o'] := by decide

/-! ### Digests -/

/-- `fc::sha256`: four 64-bit words. -/
structure Sha256 where
  h0 : UInt64
  h1 : UInt64
  h2 : UInt64
  h3 : UInt64
  deriving DecidableEq, Repr

namespace Sha256

/-- The default digest, all zero. -/
def zero : Sha256 := ⟨0, 0, 0, 0⟩

/-- The order of `sha256_less`: the words compared from the first on. -/
instance : LinearOrder Sha256 :=
  LinearOrder.lift'
    (fun d : Sha256 => toLex (d.h0.toNat, toLex (d.h1.toNat, toLex (d.h2.toNat, d.h3.toNat))))
    fun a b h => by
      cases a
      cases b
      simpa [Prod.ext_iff, UInt64.toNat_inj] using h

end Sha256

/-- `block_id_type`. -/
abbrev BlockId := Sha256

def endianReverseU32 (x : UInt64) : UInt64 :=
  let mask : UInt64 := 0xFF
  ((x >>> 24) &&& mask) ||| (((x >>> 16) &&& mask) <<< 8) ||| (((x >>> 8) &&& mask) <<< 16) |||
    ((x &&& mask) <<< 24)

/-- `block_header::num_from_id`: the block number kept in the first four bytes of an id. -/
def numFromId (id : BlockId) : ℕ := (endianReverseU32 id.h0).toNat

/-! ### Keys and signatures -/

/-- `public_key_type`: the index of the key type and the key data. -/
structure PublicKey where
  /-- `which()`, the key type. -/
  which : ℕ
  /-- The key data, as a number. -/
  data : ℕ
  deriving DecidableEq, Repr

/-- Keys are compared by type and then by data. -/
instance : LinearOrder PublicKey :=
  LinearOrder.lift' (fun k : PublicKey => toLex (k.which, k.data)) fun a b h => by
    cases a
    cases b
    simpa [Prod.ext_iff] using h

/-- `signature_type`. -/
structure Signature where
  /-- The signature data, as a number. -/
  data : ℕ
  deriving DecidableEq, Repr

structure KeyWeight where
  key : PublicKey
  /-- `weight_type`. -/
  weight : UInt16
  deriving DecidableEq, Repr

end Sysio
