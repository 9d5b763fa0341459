import Sysio.ApplyContext.Basic
import Sysio.Data.Run

/-!
# Code objects and their reference counts

Accounts with the same code share one `code_object`, which counts them.  `setcode` first releases
the object of the account's old code, removing it with its last reference, and then acquires the
object of the new code, creating it with its first.

The counts are right (`Counted`) because each half changes one count by one, and the metadata of the
account, changed at the end, follows suit.  The two halves never meet in one object: setting the
code that an account already has is refused.
-/

namespace Sysio

open Result List Table Nat

/-- The key of a code object: hash, `vm_type` and `vm_version`. -/
abbrev CodeKey := Sha256 × UInt8 × UInt8

structure CodeObject where
  codeHash : Sha256
  code : List UInt8
  codeRefCount : ℕ
  firstBlockUsed : ℕ
  vmType : UInt8
  vmVersion : UInt8
  deriving DecidableEq, Repr

/-- What `by_code_hash` is unique on. -/
def CodeObject.key (o : CodeObject) : CodeKey := (o.codeHash, o.vmType, o.vmVersion)

/-- `account_metadata_object`, with the fields that concern its code. -/
structure CodeMetadata where
  name : Name
  codeSequence : ℕ
  codeHash : Sha256
  lastCodeUpdate : ℕ
  vmType : UInt8
  vmVersion : UInt8
  deriving DecidableEq, Repr

/-- The code that an account refers to.  The zero hash stands for no code. -/
def CodeMetadata.codeKey? (a : CodeMetadata) : Option CodeKey :=
  if a.codeHash = Sha256.zero then none else some (a.codeHash, a.vmType, a.vmVersion)

/-- The part of the database that `setcode` works on. -/
structure CodeDatabase where
  metadata : Table Name CodeMetadata CodeMetadata.name
  codes : Table CodeKey CodeObject CodeObject.key

structure SetCode where
  account : Name
  vmtype : UInt8
  vmversion : UInt8
  code : List UInt8
  deriving DecidableEq, Repr

/-- Functions from outside that the handler calls. -/
structure CodeLibrary where
  /-- `data_as<setcode>`. -/
  unpack : List UInt8 → Result SetCode
  /-- `fc::sha256::hash`. -/
  hash : List UInt8 → Sha256
  /-- `wasm_interface::validate`. -/
  validate : List UInt8 → Result Unit

/-- What the handler asks of the transaction and the chain. -/
structure CodeEnv where
  isReadOnly : Bool
  headBlockNum : ℕ
  pendingBlockTime : ℕ

namespace CodeDatabase

def setRefCount (db : CodeDatabase) (o : CodeObject) (count : ℕ) : CodeDatabase :=
  { db with codes := db.codes.upsert { o with codeRefCount := count } }

def releaseCode (db : CodeDatabase) (key : CodeKey) (codeHash : Sha256) : Result CodeDatabase := do
  let oldCodeEntry ← require (db.codes.find? key) .logicError "unknown key"
  sysAssert (oldCodeEntry.codeHash ≠ codeHash) .setExactCode
    "contract is already running this version of code"
  if oldCodeEntry.codeRefCount = 1 then pure { db with codes := db.codes.erase key }
  else pure (db.setRefCount oldCodeEntry (oldCodeEntry.codeRefCount - 1))

def acquireCode (env : CodeEnv) (db : CodeDatabase) (act : SetCode) (codeHash : Sha256) :
    CodeDatabase :=
  match db.codes.find? (codeHash, act.vmtype, act.vmversion) with
  | some newCodeEntry => db.setRefCount newCodeEntry (newCodeEntry.codeRefCount + 1)
  | none => { db with
    codes := db.codes.insert
      ⟨codeHash, act.code, 1, env.headBlockNum + 1, act.vmtype, act.vmversion⟩ }

/-- The hash of the new code, which is validated; no code has the zero hash. -/
def newCodeHash (lib : CodeLibrary) (act : SetCode) : Result Sha256 :=
  if act.code ≠ [] then do
    lib.validate act.code
    pure (lib.hash act.code)
  else pure Sha256.zero

def setMetadata (env : CodeEnv) (db : CodeDatabase) (account : CodeMetadata) (act : SetCode)
    (codeHash : Sha256) : CodeDatabase :=
  { db with metadata := db.metadata.upsert { account with
    codeSequence := account.codeSequence + 1
    codeHash := codeHash
    vmType := act.vmtype
    vmVersion := act.vmversion
    lastCodeUpdate := env.pendingBlockTime } }

/-- The release of the code that the account has, if it has any. -/
def releaseOld (db : CodeDatabase) (account : CodeMetadata) (codeHash : Sha256) :
    Result CodeDatabase :=
  if account.codeHash ≠ Sha256.zero then
    db.releaseCode (account.codeHash, account.vmType, account.vmVersion) codeHash
  else pure db

/-- The acquisition of the code that the account gets, if it gets any. -/
def acquireNew (env : CodeEnv) (db : CodeDatabase) (act : SetCode) (codeHash : Sha256) :
    CodeDatabase :=
  if act.code ≠ [] then db.acquireCode env act codeHash else db

def applySysioSetcode (lib : CodeLibrary) (env : CodeEnv) (db : CodeDatabase) (action : Action) :
    Result CodeDatabase := do
  sysAssert (env.isReadOnly = false) .actionValidateException
    "setcode not allowed in read-only transaction"
  let act ← lib.unpack action.data
  ApplyContext.requireAuthorization action act.account
  sysAssert (act.vmtype = 0) .invalidContractVmType "code should be 0"
  sysAssert (act.vmversion = 0) .invalidContractVmVersion "version should be 0"
  let codeHash ← newCodeHash lib act
  let account ← require (db.metadata.find? act.account) .logicError "unknown key"
  sysAssert (act.code ≠ [] ∨ account.codeHash ≠ Sha256.zero) .setExactCode
    "contract is already cleared"
  let db ← db.releaseOld account codeHash
  pure ((db.acquireNew env act codeHash).setMetadata env account act codeHash)

inductive Event
  | setcode (env : CodeEnv) (action : Action)
  /-- An account is created. -/
  | newaccount (name : Name)

def apply (lib : CodeLibrary) (db : CodeDatabase) : Event → Result CodeDatabase
  | .setcode env action => db.applySysioSetcode lib env action
  | .newaccount name => do
    sysAssert (db.metadata.find? name = none) .logicError
      "could not insert object, most likely a uniqueness constraint was violated"
    pure { db with metadata := db.metadata.insert ⟨name, 0, Sha256.zero, 0, 0, 0⟩ }

def Step (lib : CodeLibrary) (db : CodeDatabase) (e : Event) (db' : CodeDatabase) : Prop :=
  db.apply lib e = .ok db'

variable {lib : CodeLibrary} {env : CodeEnv} {db db' : CodeDatabase}

/-! ### Counting -/

/-- The number of accounts whose metadata refers to the code. -/
def references (db : CodeDatabase) (key : CodeKey) : ℕ :=
  db.metadata.rows.countP fun a => decide (a.codeKey? = some key)

/-- The count that is kept for the code, `0` if it is not stored. -/
def refCount (db : CodeDatabase) (key : CodeKey) : ℕ :=
  ((db.codes.find? key).map (·.codeRefCount)).getD 0

/-- `1` for the one code that is meant. -/
def single (meant : Option CodeKey) (key : CodeKey) : ℕ := if meant = some key then 1 else 0

/-- The counts are those of the references, and no object is kept without any. -/
structure Counted (db : CodeDatabase) : Prop where
  count_eq : ∀ key, db.refCount key = db.references key
  count_ne : ∀ o ∈ db.codes, o.codeRefCount ≠ 0

variable {account : CodeMetadata} {o : CodeObject} {codeHash : Sha256}

lemma references_setMetadata (env : CodeEnv) (act : SetCode) (codeHash : Sha256)
    {name : Name} (haccount : db.metadata.find? name = some account) (key : CodeKey) :
    (db.setMetadata env account act codeHash).references key + single account.codeKey? key =
      db.references key +
        single (if codeHash = Sha256.zero then none else some (codeHash, act.vmtype,
          act.vmversion)) key := by
  obtain ⟨hmem, rfl⟩ := Table.find?_eq_some.mp haccount
  have h := sumBy_upsert (t := db.metadata)
    (r := { account with
      codeSequence := account.codeSequence + 1
      codeHash := codeHash
      vmType := act.vmtype
      vmVersion := act.vmversion
      lastCodeUpdate := env.pendingBlockTime }) haccount
    (fun a => if decide (a.codeKey? = some key) = true then 1 else 0)
  unfold references
  rw [countP_rows_eq_sumBy, countP_rows_eq_sumBy]
  simp only [decide_eq_true_eq] at h ⊢
  exact h

/-! ### The two halves -/

/-- The code objects that both databases have are of the same code. -/
def SameCode (db db' : CodeDatabase) : Prop :=
  ∀ o ∈ db.codes, ∀ o' ∈ db'.codes, o'.key = o.key → o'.code = o.code

lemma sameCode_of_mem (h : ∀ o ∈ db'.codes, o ∈ db.codes) : SameCode db db' := by
  intro o ho o' ho' hkey
  rw [Table.eq_of_key_eq (h o' ho') ho hkey]

lemma refCount_setRefCount (o : CodeObject) (n : ℕ) (key : CodeKey) :
    (db.setRefCount o n).refCount key = if o.key = key then n else db.refCount key := by
  unfold refCount setRefCount
  rw [find?_upsert]
  change ((if o.key = key then _ else _ : Option CodeObject).map _).getD 0 = _
  split_ifs
  · rfl
  · rfl

lemma count_ne_setRefCount {n : ℕ} (hn : n ≠ 0) (hne : ∀ o ∈ db.codes, o.codeRefCount ≠ 0) :
    ∀ o' ∈ (db.setRefCount o n).codes, o'.codeRefCount ≠ 0 := by
  intro o' ho'
  rcases mem_of_mem_upsert ho' with ⟨ho', -⟩ | rfl
  · exact hne o' ho'
  · exact hn

lemma sameCode_setRefCount (ho : o ∈ db.codes) (n : ℕ) : SameCode db (db.setRefCount o n) := by
  intro p hp p' hp' hkey
  rcases mem_of_mem_upsert hp' with ⟨hp', -⟩ | rfl
  · rw [Table.eq_of_key_eq hp' hp hkey]
  · have hkey' : o.key = p.key := hkey
    rw [← Table.eq_of_key_eq ho hp hkey']

lemma refCount_ne_zero_iff (hne : ∀ o ∈ db.codes, o.codeRefCount ≠ 0) {key : CodeKey} :
    db.refCount key ≠ 0 ↔ ∃ o ∈ db.codes, o.key = key := by
  unfold refCount
  cases hfind : db.codes.find? key with
  | none =>
    refine iff_of_false (by simp) ?_
    rintro ⟨o, ho, hkey⟩
    exact Table.find?_eq_none.mp hfind o ho hkey
  | some o =>
    obtain ⟨ho, hkey⟩ := Table.find?_eq_some.mp hfind
    exact iff_of_true (hne o ho) ⟨o, ho, hkey⟩

lemma single_ne_zero {meant : Option CodeKey} {key : CodeKey} :
    single meant key ≠ 0 ↔ meant = some key := by
  unfold single
  split_ifs with h <;> simp [h]

lemma refCount_key (ho : o ∈ db.codes) : db.refCount o.key = o.codeRefCount := by
  unfold refCount
  rw [find?_key ho]
  rfl

lemma releaseOld_eq_ok (hc : db.Counted)
    (h : db.releaseOld account codeHash = .ok db') : db'.metadata = db.metadata ∧
    (∀ key, db'.refCount key + single account.codeKey? key = db.refCount key) ∧
    (∀ o ∈ db'.codes, o.codeRefCount ≠ 0) ∧ SameCode db db' ∧
    (account.codeHash ≠ Sha256.zero → account.codeHash ≠ codeHash) := by
  unfold releaseOld at h
  unfold CodeMetadata.codeKey?
  by_cases hzero : account.codeHash = Sha256.zero
  · rw [if_neg (not_not.mpr hzero), pure_eq_ok] at h
    subst h
    refine ⟨rfl, fun key => ?_, hc.count_ne, sameCode_of_mem fun _ => id, absurd hzero⟩
    rw [if_pos hzero]
    rfl
  · rw [if_pos hzero] at h
    simp only [if_neg hzero]
    simp only [releaseCode, bind_eq_ok, require_eq_ok, sysAssert_eq_ok] at h
    obtain ⟨old, hold, -, hne, h⟩ := h
    obtain ⟨hmem, hkey⟩ := Table.find?_eq_some.mp hold
    have hpos := hc.count_ne old hmem
    have hhash : account.codeHash ≠ codeHash := by
      have : old.codeHash = account.codeHash := congrArg Prod.fst hkey
      rwa [this] at hne
    rw [← hkey]
    split_ifs at h with hone
    · cases h
      refine ⟨rfl, fun key => ?_, fun o ho => hc.count_ne o (mem_erase.mp ho).1,
        sameCode_of_mem fun o ho => (mem_erase.mp ho).1, fun _ => hhash⟩
      unfold single
      simp only [Option.some.injEq]
      by_cases hk : old.key = key
      · rw [if_pos hk, ← hk, refCount_key hmem, hone, refCount]
        simp [find?_erase, hkey]
      · rw [if_neg hk, refCount, refCount, find?_erase, if_neg, add_zero]
        rw [← hkey]
        exact Ne.symm hk
    · cases h
      refine ⟨rfl, fun key => ?_, count_ne_setRefCount (by omega) hc.count_ne,
        sameCode_setRefCount hmem _, fun _ => hhash⟩
      rw [refCount_setRefCount]
      unfold single
      simp only [Option.some.injEq]
      split_ifs with hk
      · rw [← hk, refCount_key hmem]
        omega
      · rw [add_zero]

lemma acquireNew_spec (env : CodeEnv) {act : SetCode}
    (hne : ∀ o ∈ db.codes, o.codeRefCount ≠ 0) (hhash : act.code = [] ↔ codeHash = Sha256.zero) :
    (db.acquireNew env act codeHash).metadata = db.metadata ∧
    (∀ key, (db.acquireNew env act codeHash).refCount key = db.refCount key +
      single (if codeHash = Sha256.zero then none
        else some (codeHash, act.vmtype, act.vmversion)) key) ∧
    (∀ o ∈ (db.acquireNew env act codeHash).codes, o.codeRefCount ≠ 0) ∧
    SameCode db (db.acquireNew env act codeHash) := by
  unfold acquireNew
  by_cases hcode : act.code = []
  · rw [if_neg (not_not.mpr hcode), if_pos (hhash.mp hcode)]
    exact ⟨rfl, fun key => rfl, hne, sameCode_of_mem fun _ => id⟩
  · rw [if_pos hcode, if_neg (fun h => hcode (hhash.mpr h))]
    unfold acquireCode
    cases hfind : db.codes.find? (codeHash, act.vmtype, act.vmversion) with
    | some entry =>
      obtain ⟨hmem, hkey⟩ := Table.find?_eq_some.mp hfind
      refine ⟨rfl, fun key => ?_, count_ne_setRefCount (succ_ne_zero _) hne,
        sameCode_setRefCount hmem _⟩
      rw [refCount_setRefCount, ← hkey]
      unfold single
      simp only [Option.some.injEq]
      split_ifs with hk
      · rw [← hk, refCount_key hmem]
      · rw [add_zero]
    | none =>
      have hnew : db.codes.find? (CodeObject.key ⟨codeHash, act.code, 1, env.headBlockNum + 1,
          act.vmtype, act.vmversion⟩) = none := hfind
      refine ⟨rfl, fun key => ?_, ?_, ?_⟩
      · unfold refCount single
        dsimp only
        rw [find?_insert hnew]
        change ((if (codeHash, act.vmtype, act.vmversion) = key then _ else _ :
          Option CodeObject).map _).getD 0 = _
        simp only [Option.some.injEq]
        by_cases hk : (codeHash, act.vmtype, act.vmversion) = key
        · subst hk
          rw [if_pos rfl, if_pos rfl, hfind]
          rfl
        · rw [if_neg hk, if_neg hk, add_zero]
      · intro o ho
        rcases (Table.mem_insert hnew).mp ho with ho | rfl
        · exact hne o ho
        · exact one_ne_zero
      · intro o ho o' ho' heq
        rcases (Table.mem_insert hnew).mp ho' with ho' | rfl
        · rw [Table.eq_of_key_eq ho' ho heq]
        · exact absurd heq.symm (Table.find?_eq_none.mp hnew o ho)

/-! ### Runs -/

/-- No code hashes to the hash that stands for no code. -/
def HashNonzero (lib : CodeLibrary) : Prop := ∀ code, code ≠ [] → lib.hash code ≠ Sha256.zero

lemma newCodeHash_eq_ok (hlib : HashNonzero lib) {act : SetCode}
    (h : newCodeHash lib act = .ok codeHash) : act.code = [] ↔ codeHash = Sha256.zero := by
  unfold newCodeHash at h
  split_ifs at h with hcode
  · simp only [bind_eq_ok, pure_eq_ok] at h
    obtain ⟨-, -, rfl⟩ := h
    exact iff_of_false hcode (hlib act.code hcode)
  · rw [pure_eq_ok] at h
    exact iff_of_true (not_not.mp hcode) h.symm

/-- **`setcode` keeps the counts**, and the code of every object that stays. -/
theorem counted_of_setcode (hlib : HashNonzero lib) {action : Action} (hc : db.Counted)
    (h : db.applySysioSetcode lib env action = .ok db') : db'.Counted ∧ SameCode db db' := by
  simp only [applySysioSetcode, bind_eq_ok, require_eq_ok, sysAssert_eq_ok, pure_eq_ok] at h
  obtain ⟨-, -, act, -, -, -, -, -, -, -, codeHash, hhash, account, haccount, -, -, db1, h1, rfl⟩ :=
    h
  obtain ⟨hmetadata1, hcount1, hne1, hsame1, hneq⟩ := releaseOld_eq_ok hc h1
  obtain ⟨hmetadata2, hcount2, hne2, hsame2⟩ :=
    acquireNew_spec env hne1 (newCodeHash_eq_ok hlib hhash)
  have haccount2 : (db1.acquireNew env act codeHash).metadata.find? act.account = some account := by
    rw [hmetadata2, hmetadata1, haccount]
  refine ⟨⟨fun key => ?_, hne2⟩, ?_⟩
  · have hreferences : (db1.acquireNew env act codeHash).references key = db.references key := by
      rw [references, references, hmetadata2, hmetadata1]
    have hmeta := references_setMetadata env act codeHash haccount2 key
    have hrelease := hcount1 key
    have hacquire := hcount2 key
    have hcounted := hc.count_eq key
    change (db1.acquireNew env act codeHash).refCount key = _
    omega
  · intro o ho o' ho' hkey
    by_cases hstays : ∃ p ∈ db1.codes, p.key = o.key
    · obtain ⟨p, hp, hpkey⟩ := hstays
      rw [hsame2 p hp o' ho' (hkey.trans hpkey.symm), hsame1 o ho p hp hpkey]
    · -- removed as the old code and created as the new one: but these are not the same
      have hremoved : db1.refCount o.key = 0 :=
        not_not.mp fun h => hstays ((refCount_ne_zero_iff hne1).mp h)
      have hstored := (refCount_ne_zero_iff hc.count_ne).mpr ⟨o, ho, rfl⟩
      have hstored' := (refCount_ne_zero_iff hne2).mpr ⟨o', ho', hkey⟩
      have hrelease := hcount1 o.key
      have hacquire := hcount2 o.key
      have hold := single_ne_zero.mp (show single account.codeKey? o.key ≠ 0 by omega)
      rw [hremoved, zero_add] at hacquire
      have hnew := single_ne_zero.mp (hacquire ▸ hstored')
      unfold CodeMetadata.codeKey? at hold
      split_ifs at hold hnew with hzero
      have hold := congrArg Prod.fst (Option.some.inj hold)
      have hnew := congrArg Prod.fst (Option.some.inj hnew)
      exact absurd (hold.trans hnew.symm) (hneq hzero)

lemma counted_of_apply (hlib : HashNonzero lib) {e : Event} (hc : db.Counted)
    (h : db.apply lib e = .ok db') : db'.Counted ∧ SameCode db db' := by
  cases e with
  | setcode => exact counted_of_setcode hlib hc h
  | newaccount name =>
    simp only [apply, bind_eq_ok, sysAssert_eq_ok, pure_eq_ok] at h
    obtain ⟨-, hnew, rfl⟩ := h
    refine ⟨⟨fun key => ?_, hc.count_ne⟩, sameCode_of_mem fun _ => id⟩
    -- a new account has no code
    have hnew' : db.metadata.find?
        (CodeMetadata.name ⟨name, 0, Sha256.zero, 0, 0, 0⟩) = none := hnew
    unfold references
    rw [rows_insert hnew', countP_append]
    exact hc.count_eq key

lemma Counted.exists_code_iff (hc : db.Counted) (key : CodeKey) :
    (∃ o ∈ db.codes, o.key = key) ↔ ∃ a ∈ db.metadata, a.codeKey? = some key := by
  rw [← refCount_ne_zero_iff hc.count_ne, hc.count_eq, references, ← pos_iff_ne_zero,
    countP_pos_iff]
  simp only [decide_eq_true_eq, Table.mem_iff]

/-- The code of an object stays the same in a run, while it is referenced. -/
lemma exists_sameCode_of_run (hlib : HashNonzero lib) (hc : db.Counted)
    {tr : List (Transition CodeDatabase Event)} (hrun : Run (Step lib) db tr db')
    (ho : o ∈ db.codes) (href : ∀ u ∈ tr, ∃ a ∈ u.post.metadata, a.codeKey? = some o.key) :
    db'.Counted ∧ ∃ o' ∈ db'.codes, o'.key = o.key ∧ o'.code = o.code := by
  induction hrun with
  | nil => exact ⟨hc, o, ho, rfl, rfl⟩
  | @snoc tr s s' e _ hstep ih =>
    obtain ⟨hcs, p, hp, hpkey, hpcode⟩ := ih fun u hu => href u (mem_append_left _ hu)
    obtain ⟨hcs', hsame⟩ := counted_of_apply hlib hcs hstep
    refine ⟨hcs', ?_⟩
    obtain ⟨q, hq, hqkey⟩ := (hcs'.exists_code_iff o.key).mpr (href ⟨s, e, s'⟩ (by simp))
    exact ⟨q, hq, hqkey, (hsame p hp q hq (hqkey.trans hpkey.symm)).trans hpcode⟩

/-- **Code reference counts.**  Start with accounts that have no code, and with no code objects.
After any sequence of `setcode` actions, of any accounts, and of new accounts: a code object is
there exactly when an account refers to it; its count is the number of these accounts; and from any
state of the sequence on, as long as a code is referenced, the bytes stored for it do not change. -/
theorem codeReferences_of_run (hlib : HashNonzero lib) {db₀ db₁ : CodeDatabase}
    (hcodes : db₀.codes = .empty) (haccounts : ∀ a ∈ db₀.metadata, a.codeHash = Sha256.zero)
    {tr₁ tr₂ : List (Transition CodeDatabase Event)} (hrun₁ : Run (Step lib) db₀ tr₁ db₁)
    (hrun₂ : Run (Step lib) db₁ tr₂ db) :
    (∀ key, (∃ o ∈ db.codes, o.key = key) ↔ ∃ a ∈ db.metadata, a.codeKey? = some key) ∧
    (∀ o ∈ db.codes, o.codeRefCount =
      db.metadata.rows.countP fun a => decide (a.codeKey? = some o.key)) ∧
    ∀ o ∈ db₁.codes, (∀ u ∈ tr₂, ∃ a ∈ u.post.metadata, a.codeKey? = some o.key) →
      ∃ o' ∈ db.codes, o'.key = o.key ∧ o'.code = o.code := by
  have hc0 : db₀.Counted := by
    refine ⟨fun key => ?_, fun o ho => ?_⟩
    · rw [refCount, hcodes, references, countP_eq_zero.mpr]
      · rfl
      · intro a ha
        simp [CodeMetadata.codeKey?, haccounts a ha]
    · rw [hcodes] at ho
      exact absurd ho (Table.not_mem_empty o)
  have hstep (s : CodeDatabase) (e : Event) (s' : CodeDatabase) (hc : s.Counted)
      (h : Step lib s e s') : s'.Counted :=
    (counted_of_apply hlib hc h).1
  have hc1 := hrun₁.invariant hc0 hstep
  have hc := hrun₂.invariant hc1 hstep
  refine ⟨hc.exists_code_iff, fun o ho => ?_, fun o ho href => ?_⟩
  · rw [← refCount_key ho]
    exact hc.count_eq o.key
  · exact (exists_sameCode_of_run hlib hc1 hrun₂ ho href).2

/-- A library in which the data of an action is the account, as one byte, followed by the code, and
the first byte of the code is its hash. -/
def demoLibrary : CodeLibrary where
  unpack
    | account :: code => .ok ⟨⟨account.toUInt64⟩, 0, 0, code⟩
    | [] => .error ⟨.overflowException, ""⟩
  hash code := ⟨(code.headD 0).toUInt64, 0, 0, 1⟩
  validate _ := .ok ()

def demoSetcode (account : UInt8) (code : List UInt8) : Event :=
  .setcode ⟨false, 10, 1000⟩
    ⟨sysioName, NativeHandler.setcode.actionName, [⟨⟨account.toUInt64⟩, Name.empty⟩],
      account :: code⟩

/-- Two accounts set the same code; one of them clears it. -/
theorem codeReferences_of_run_demo :
    ∃ tr db, Run (Step demoLibrary) ⟨.empty, .empty⟩ tr db ∧ db.codes.rows.length = 1 ∧
      ∀ o ∈ db.codes, o.codeRefCount =
        db.metadata.rows.countP fun a => decide (a.codeKey? = some o.key) := by
  obtain ⟨tr, db, hrun, hP⟩ := exists_run_of_carryOut
    (fun db e => (apply demoLibrary db e).toOption) ⟨.empty, .empty⟩
    [.newaccount ⟨1⟩, .newaccount ⟨2⟩, demoSetcode 1 [7, 7], demoSetcode 2 [7, 7], demoSetcode 1 []]
    (fun _ _ _ hnext => eq_ok_of_toOption hnext)
    (P := fun _ db => db.codes.rows.length = 1) (by decide +kernel)
  refine ⟨tr, db, hrun, hP, ?_⟩
  have hlib : HashNonzero demoLibrary := by
    intro code _ h
    have h3 : (1 : UInt64) = 0 := congrArg Sha256.h3 h
    exact absurd h3 (by decide)
  refine (codeReferences_of_run hlib rfl ?_ hrun .nil).2.1
  exact fun a ha => absurd ha (Table.not_mem_empty a)

end CodeDatabase

end Sysio
