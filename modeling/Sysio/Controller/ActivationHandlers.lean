import Sysio.ProtocolFeature
import Sysio.Ram.Ledger

/-!
# Activation handlers

A built-in feature may have a handler, which `start_block` calls when the feature is activated.
Most handlers add intrinsics to the whitelist, and throw if an intrinsic is there already.  Two of
them work on RAM: one credits what replaced deferred transactions had taken (`REPLACE_DEFERRED`),
the other removes all deferred transactions and credits the payer that each of them records
(`DISABLE_DEFERRED_TRXS_STAGE_2`).

Intrinsics of different features differ, and none of them is there from the beginning
(`newIntrinsics_inj`, `not_mem_genesisIntrinsics`), so the first kind of handler cannot fail.
Neither can the third; the last one fails when a payer uses less RAM than its deferred transactions
take (`foldlM_triggerActivationHandler_iff`).
-/

namespace Sysio

open Result List Option ResourceLimitsManager BuiltinProtocolFeature Nat ResourceUsageObject
  BilledObject

variable {corrections trxs : List (Name × ℕ)}

def genesisIntrinsics : List String :=
  ["__ashrti3", "__lshlti3", "__lshrti3", "__ashlti3", "__divti3", "__udivti3", "__modti3",
    "__umodti3", "__multi3", "__addtf3", "__subtf3", "__multf3", "__divtf3", "__eqtf2", "__netf2",
    "__getf2", "__gttf2", "__lttf2", "__letf2", "__cmptf2", "__unordtf2", "__negtf2", "__floatsitf",
    "__floatunsitf", "__floatditf", "__floatunditf", "__floattidf", "__floatuntidf", "__floatsidf",
    "__extendsftf2", "__extenddftf2", "__fixtfti", "__fixtfdi", "__fixtfsi", "__fixunstfti",
    "__fixunstfdi", "__fixunstfsi", "__fixsfti", "__fixdfti", "__fixunssfti", "__fixunsdfti",
    "__trunctfdf2", "__trunctfsf2", "is_feature_active", "activate_feature", "get_resource_limits",
    "set_resource_limits", "set_proposed_producers", "get_blockchain_parameters_packed",
    "set_blockchain_parameters_packed", "is_privileged", "set_privileged", "get_active_producers",
    "db_idx64_store", "db_idx64_remove", "db_idx64_update", "db_idx64_find_primary",
    "db_idx64_find_secondary", "db_idx64_lowerbound", "db_idx64_upperbound", "db_idx64_end",
    "db_idx64_next", "db_idx64_previous", "db_idx128_store", "db_idx128_remove", "db_idx128_update",
    "db_idx128_find_primary", "db_idx128_find_secondary", "db_idx128_lowerbound",
    "db_idx128_upperbound", "db_idx128_end", "db_idx128_next", "db_idx128_previous",
    "db_idx256_store", "db_idx256_remove", "db_idx256_update", "db_idx256_find_primary",
    "db_idx256_find_secondary", "db_idx256_lowerbound", "db_idx256_upperbound", "db_idx256_end",
    "db_idx256_next", "db_idx256_previous", "db_idx_double_store", "db_idx_double_remove",
    "db_idx_double_update", "db_idx_double_find_primary", "db_idx_double_find_secondary",
    "db_idx_double_lowerbound", "db_idx_double_upperbound", "db_idx_double_end",
    "db_idx_double_next", "db_idx_double_previous", "db_idx_long_double_store",
    "db_idx_long_double_remove", "db_idx_long_double_update", "db_idx_long_double_find_primary",
    "db_idx_long_double_find_secondary", "db_idx_long_double_lowerbound",
    "db_idx_long_double_upperbound", "db_idx_long_double_end", "db_idx_long_double_next",
    "db_idx_long_double_previous", "db_store_i64", "db_update_i64", "db_remove_i64", "db_get_i64",
    "db_next_i64", "db_previous_i64", "db_find_i64", "db_lowerbound_i64", "db_upperbound_i64",
    "db_end_i64", "assert_recover_key", "recover_key", "assert_sha256", "assert_sha1",
    "assert_sha512", "assert_ripemd160", "sha1", "sha256", "sha512", "ripemd160",
    "check_transaction_authorization", "check_permission_authorization", "get_permission_last_used",
    "get_account_creation_time", "current_time", "publication_time", "abort", "sysio_assert",
    "sysio_assert_message", "sysio_assert_code", "sysio_exit", "read_action_data",
    "action_data_size", "current_receiver", "require_recipient", "require_auth", "require_auth2",
    "has_auth", "is_account", "prints", "prints_l", "printi", "printui", "printi128", "printui128",
    "printsf", "printdf", "printqf", "printn", "printhex", "read_transaction", "transaction_size",
    "expiration", "tapos_block_prefix", "tapos_block_num", "get_action", "send_inline",
    "send_context_free_inline", "send_deferred", "cancel_deferred", "get_context_free_data",
    "memcpy", "memmove", "memcmp", "memset"]

def genesisNumSupportedKeyTypes : ℕ := 2

/-- The intrinsics that `on_activation` of a feature adds to the whitelist. -/
def BuiltinProtocolFeature.newIntrinsics : BuiltinProtocolFeature → List String
  | .preactivateFeature => ["preactivate_feature", "is_feature_activated"]
  | .getSender => ["get_sender"]
  | .wtmsigBlockSignatures => ["set_proposed_producers_ex"]
  | .actionReturnValue => ["set_action_return_value"]
  | .configurableWasmLimits => ["set_wasm_parameters_packed", "get_wasm_parameters_packed"]
  | .blockchainParameters => ["get_parameters_packed", "set_parameters_packed"]
  | .getCodeHash => ["get_code_hash"]
  | .getBlockNum => ["get_block_num"]
  | .cryptoPrimitives =>
    ["alt_bn128_add", "alt_bn128_mul", "alt_bn128_pair", "mod_exp", "blake2_f", "sha3",
      "k1_recover"]
  | .blsPrimitives =>
    ["bls_g1_add", "bls_g2_add", "bls_g1_weighted_sum", "bls_g2_weighted_sum", "bls_pairing",
      "bls_g1_map", "bls_g2_map", "bls_fp_mod", "bls_fp_mul", "bls_fp_exp"]
  | _ => []

namespace BuiltinProtocolFeature

/-- All the features that add intrinsics. -/
def withIntrinsics : List BuiltinProtocolFeature :=
  [.preactivateFeature, .getSender, .wtmsigBlockSignatures, .actionReturnValue,
    .configurableWasmLimits, .blockchainParameters, .getCodeHash, .getBlockNum, .cryptoPrimitives,
    .blsPrimitives]

variable {f : BuiltinProtocolFeature} {name : String}

lemma mem_withIntrinsics (h : name ∈ f.newIntrinsics) : f ∈ withIntrinsics := by
  cases f <;> first | exact absurd h not_mem_nil | decide

lemma nodup_newIntrinsics (f : BuiltinProtocolFeature) : f.newIntrinsics.Nodup := by
  cases f <;> decide

lemma newIntrinsics_inj {f' : BuiltinProtocolFeature}
    (h : name ∈ f.newIntrinsics) (h' : name ∈ f'.newIntrinsics) : f = f' := by
  have hall : ∀ f ∈ withIntrinsics, ∀ f' ∈ withIntrinsics, ∀ name ∈ f.newIntrinsics,
      name ∈ f'.newIntrinsics → f = f' := by
    decide +kernel
  exact hall f (mem_withIntrinsics h) f' (mem_withIntrinsics h') name h h'

lemma not_mem_genesisIntrinsics (h : name ∈ f.newIntrinsics) : name ∉ genesisIntrinsics := by
  have hall : ∀ f ∈ withIntrinsics, ∀ name ∈ f.newIntrinsics, name ∉ genesisIntrinsics := by
    decide +kernel
  exact hall f (mem_withIntrinsics h) name h

end BuiltinProtocolFeature

/-! ### The handlers -/

/-- What the handlers change in the database. -/
structure HandlerDatabase where
  /-- `protocol_state_object::whitelisted_intrinsics`. -/
  whitelistedIntrinsics : List String
  /-- `protocol_state_object::num_supported_key_types`. -/
  numSupportedKeyTypes : ℕ
  ram : RamWorld
  /-- `account_ram_correction_index`. -/
  ramCorrections : Table Name (Name × ℕ) Prod.fst

def addIntrinsicToWhitelist (whitelistedIntrinsics : List String) (name : String) :
    Result (List String) := do
  sysAssert (name ∉ whitelistedIntrinsics) .databaseException
    "cannot add intrinsic since it already exists in the whitelist"
  pure (whitelistedIntrinsics ++ [name])

/-- The loop of the handler of `REPLACE_DEFERRED`: each account is credited its correction, but not
more than it uses. -/
def creditRamCorrections : List (Name × ℕ) → ResourceLimitsManager → Result ResourceLimitsManager
  | [], rl => pure rl
  | (name, ramCorrection) :: corrections, rl => do
    let currentRamUsage ← rl.getAccountRamUsage name
    let ramDelta :=
      if currentRamUsage % 2 ^ 64 < ramCorrection then -currentRamUsage
      else -Roa.toI64 ramCorrection
    let rl ← rl.addPendingRamUsage name ramDelta
    creditRamCorrections corrections rl

/-- The sender and the sender id of an object that is a deferred transaction. -/
def BilledObject.deferred? (o : BilledObject) : Option (Name × ℕ) :=
  match o.key with
  | .deferred sender senderId => some (sender, senderId)
  | _ => none

/-- The loop of the handler of `DISABLE_DEFERRED_TRXS_STAGE_2`.  It goes by transaction id, which
makes no difference. -/
def removeScheduledTransactions (w : RamWorld) (trxs : List (Name × ℕ)) : Result RamWorld :=
  trxs.foldlM (fun w k => w.removeScheduledTransaction k.1 k.2) w

namespace HandlerDatabase

def triggerActivationHandler (db : HandlerDatabase) :
    BuiltinProtocolFeature → Result HandlerDatabase
  | .webauthnKey => pure { db with numSupportedKeyTypes := 3 }
  | .emKey => pure { db with numSupportedKeyTypes := 4 }
  | .replaceDeferred => do
    let rl ← creditRamCorrections db.ramCorrections.rows db.ram.rl
    pure { db with ram := { db.ram with rl := rl }, ramCorrections := Table.empty }
  | .disableDeferredTrxsStage2 => do
    let ram ← removeScheduledTransactions db.ram
      (db.ram.objects.rows.filterMap BilledObject.deferred?)
    pure { db with ram := ram }
  | f => do
    let whitelist ← f.newIntrinsics.foldlM addIntrinsicToWhitelist db.whitelistedIntrinsics
    pure { db with whitelistedIntrinsics := whitelist }

/-- The handlers of all the features that a block activates, in the order of the block. -/
def triggerHandlers (pfs : ProtocolFeatureSet) (db : HandlerDatabase) (features : List Sha256) :
    Result HandlerDatabase :=
  features.foldlM (fun db d => do
    let f ← pfs.getProtocolFeature d
    f.builtinFeature.elim (pure db) db.triggerActivationHandler) db

end HandlerDatabase

/-! ### Credits -/

namespace ResourceLimitsManager

variable {rl rl' : ResourceLimitsManager} {a : Name}

lemma ramUsage_of_find? {u : ResourceUsageObject} (h : rl.usage.find? a = some u) :
    rl.ramUsage a = u.ramUsage := by
  rw [ramUsage, h]
  rfl

variable {size : ℕ}

/-- An account can be credited what it uses, and no more. -/
lemma addPendingRamUsage_neg_iff :
    (∃ rl', rl.addPendingRamUsage a (-size) = .ok rl') ↔ size ≤ rl.ramUsage a := by
  unfold addPendingRamUsage
  split_ifs with hzero
  · have hsize : size = 0 := by omega
    exact ⟨fun _ => hsize ▸ zero_le _, fun _ => ⟨rl, rfl⟩⟩
  · simp only [bind_eq_ok, getUsage_eq_ok, sysAssert_eq_ok, pure_eq_ok]
    constructor
    · rintro ⟨rl', u, hu, -, -, -, hunder, -⟩
      rw [ramUsage_of_find? hu]
      omega
    · intro hle
      cases hu : rl.usage.find? a with
      | none =>
        rw [ramUsage, hu, map_none, getD_none] at hle
        omega
      | some u =>
        rw [ramUsage_of_find? hu] at hle
        exact ⟨_, u, rfl, (), .inl (by omega), (), .inr (by omega), rfl⟩

lemma ramUsage_addPendingRamUsage_neg (h : rl.addPendingRamUsage a (-size) = .ok rl') (b : Name) :
    rl'.ramUsage b = if b = a then rl.ramUsage a - size else rl.ramUsage b := by
  have hle : size ≤ rl.ramUsage a := addPendingRamUsage_neg_iff.mp ⟨rl', h⟩
  obtain ⟨-, -, -, -, -, hfind⟩ := addPendingRamUsage_eq_ok h
  simp only [ramUsage] at hle ⊢
  rw [hfind b]
  split_ifs with hb
  · cases hu : rl.usage.find? a with
    | none => simp
    | some u =>
      simp only [hu, map_some, getD_some, addRam] at hle ⊢
      omega
  · rfl

/-- Nobody is removed, and nobody uses more RAM. -/
def Frees (rl rl' : ResourceLimitsManager) : Prop :=
  ∀ b u, rl.usage.find? b = some u → ∃ u', rl'.usage.find? b = some u' ∧ u'.ramUsage ≤ u.ramUsage

lemma Frees.refl (rl : ResourceLimitsManager) : Frees rl rl := fun _ u hu => ⟨u, hu, le_rfl⟩

lemma Frees.trans {rl1 rl2 rl3 : ResourceLimitsManager} (h1 : Frees rl1 rl2)
    (h2 : Frees rl2 rl3) : Frees rl1 rl3 := by
  intro b u hu
  obtain ⟨u2, hu2, hle2⟩ := h1 b u hu
  obtain ⟨u3, hu3, hle3⟩ := h2 b u2 hu2
  exact ⟨u3, hu3, hle3.trans hle2⟩

lemma frees_addPendingRamUsage_neg
    (h : rl.addPendingRamUsage a (-size) = .ok rl') : Frees rl rl' := by
  obtain ⟨-, -, -, -, -, hfind⟩ := addPendingRamUsage_eq_ok h
  intro b u hu
  rw [hfind b]
  split_ifs with hb
  · subst hb
    refine ⟨u.addRam (-size), by rw [hu, map_some], ?_⟩
    simp only [addRam]
    omega
  · exact ⟨u, hu, le_rfl⟩

/-- The account exists, and its RAM usage fits `int64_t`. -/
def UsageFits (rl : ResourceLimitsManager) (a : Name) : Prop :=
  ∃ u, rl.usage.find? a = some u ∧ u.ramUsage < 2 ^ 63

lemma UsageFits.of_frees (h : rl.UsageFits a) (hf : Frees rl rl') : rl'.UsageFits a := by
  obtain ⟨u, hu, hlt⟩ := h
  obtain ⟨u', hu', hle⟩ := hf a u hu
  exact ⟨u', hu', hle.trans_lt hlt⟩

/-- A correction takes away what it says, as far as there is something to take away. -/
lemma creditCorrection_ok (ramCorrection : ℕ) (h : rl.UsageFits a) :
    ∃ currentRamUsage, rl.getAccountRamUsage a = .ok currentRamUsage ∧
      (if currentRamUsage % 2 ^ 64 < ramCorrection then -currentRamUsage
        else -Roa.toI64 ramCorrection) = -((min ramCorrection (rl.ramUsage a) : ℕ) : ℤ) := by
  obtain ⟨u, hu, hlt⟩ := h
  have hcurrent : Roa.toI64 u.ramUsage = u.ramUsage := if_pos (by omega)
  refine ⟨u.ramUsage, ?_, ?_⟩
  · simp only [getAccountRamUsage, bind_eq_ok, getUsage_eq_ok, pure_eq_ok]
    exact ⟨u, hu, hcurrent⟩
  · rw [ramUsage_of_find? hu, Int.emod_eq_of_lt (by omega) (by omega)]
    split_ifs with hmore
    · rw [Nat.min_eq_right (by omega)]
    · rw [Nat.min_eq_left (by omega), Roa.toI64, if_pos (by omega)]

/-- The correction of an account in a list of corrections. -/
def correctionIn (corrections : List (Name × ℕ)) (a : Name) : ℕ :=
  ((corrections.find? fun c => c.1 = a).map Prod.snd).getD 0

lemma creditRamCorrections_ok
    (hnodup : (corrections.map Prod.fst).Nodup) (h : ∀ c ∈ corrections, rl.UsageFits c.1) :
    ∃ rl', creditRamCorrections corrections rl = .ok rl' ∧
      ∀ b, rl'.ramUsage b = rl.ramUsage b - correctionIn corrections b := by
  induction corrections generalizing rl with
  | nil => exact ⟨rl, rfl, fun b => rfl⟩
  | cons c corrections ih =>
    obtain ⟨name, ramCorrection⟩ := c
    rw [map_cons, nodup_cons] at hnodup
    obtain ⟨current, hcurrent, hdelta⟩ :=
      creditCorrection_ok ramCorrection (h (name, ramCorrection) mem_cons_self)
    obtain ⟨rl1, hrl1⟩ := addPendingRamUsage_neg_iff.mpr (min_le_right ramCorrection
      (rl.ramUsage name))
    have hfrees := frees_addPendingRamUsage_neg hrl1
    obtain ⟨rl', hrl', husage⟩ := ih hnodup.2
      fun c hc => (h c (mem_cons_of_mem _ hc)).of_frees hfrees
    refine ⟨rl', ?_, fun b => ?_⟩
    · simp only [creditRamCorrections, bind_eq_ok]
      refine ⟨current, hcurrent, rl1, ?_, hrl'⟩
      rwa [hdelta]
    · rw [husage b, ramUsage_addPendingRamUsage_neg hrl1 b]
      simp only [correctionIn, find?_cons]
      by_cases hb : b = name
      · subst hb
        have hnone : (corrections.find? fun c => c.1 = b) = none := by
          rw [List.find?_eq_none]
          intro c hc hcb
          exact hnodup.1 (List.mem_map.mpr ⟨c, hc, of_decide_eq_true hcb⟩)
        rw [if_pos rfl, hnone, decide_eq_true rfl]
        simp only [map_none, getD_none, map_some, getD_some]
        omega
      · rw [if_neg hb, decide_eq_false (Ne.symm hb)]

end ResourceLimitsManager

/-! ### Deferred transactions -/

/-- The size of the deferred transactions among some objects that record `a` as their payer. -/
def deferredSize (objects : List BilledObject) (a : Name) : ℕ :=
  (objects.map fun o => if o.deferred?.isSome ∧ o.payer = a then o.size else 0).sum

lemma BilledObject.key_of_deferred? {o : BilledObject} {k : Name × ℕ}
    (h : o.deferred? = some k) : o.key = .deferred k.1 k.2 := by
  unfold deferred? at h
  split at h
  · next sender senderId hkey =>
    rw [hkey, ← some.inj h]
  · cases h

open ResourceLimitsManager (Frees ramUsage_addPendingRamUsage_neg addPendingRamUsage_neg_iff
  frees_addPendingRamUsage_neg) in
/-- **All deferred transactions can be removed** exactly if every payer uses as much RAM as its
deferred transactions take. -/
theorem removeScheduledTransactions_iff (w : RamWorld) {os : List BilledObject}
    (hfind : ∀ o ∈ os, w.objects.find? o.key = some o) (hnodup : (os.map key).Nodup) :
    (∃ w', removeScheduledTransactions w (os.filterMap deferred?) = .ok w') ↔
      ∀ a, deferredSize os a ≤ w.rl.ramUsage a := by
  induction os generalizing w with
  | nil => exact ⟨fun _ a => zero_le _, fun _ => ⟨w, rfl⟩⟩
  | cons o os ih =>
    rw [map_cons, nodup_cons] at hnodup
    have hsize : ∀ a, deferredSize (o :: os) a =
        (if o.deferred?.isSome ∧ o.payer = a then o.size else 0) + deferredSize os a :=
      fun a => sum_cons
    cases hk : o.deferred? with
    | none =>
      simp only [filterMap_cons_none hk, hsize, hk, isSome_none, Bool.false_eq_true,
        false_and, if_false, zero_add]
      exact ih w (fun o' ho' => hfind o' (mem_cons_of_mem _ ho')) hnodup.2
    | some k =>
      have hkey := key_of_deferred? hk
      have ho : w.objects.find? (.deferred k.1 k.2) = some o := hkey ▸ hfind o mem_cons_self
      simp only [filterMap_cons_some hk, removeScheduledTransactions, foldlM_cons,
        RamWorld.removeScheduledTransaction, ho, hsize, hk, isSome_some, true_and,
        bind_eq_ok, require_eq_ok, pure_eq_ok]
      -- the other objects are still there
      have hrest : ∀ rl1, ∀ o' ∈ os,
          (⟨rl1, w.objects.erase o.key⟩ : RamWorld).objects.find? o'.key = some o' := by
        intro rl1 o' ho'
        have hne : o'.key ≠ o.key := fun heq => hnodup.1 (List.mem_map.mpr ⟨o', ho', heq⟩)
        rw [Table.find?_erase, if_neg hne]
        exact hfind o' (mem_cons_of_mem _ ho')
      have husage : ∀ rl1, w.rl.addPendingRamUsage o.payer (-o.size) = .ok rl1 → ∀ a,
          deferredSize os a ≤ rl1.ramUsage a ↔
            (if o.payer = a then o.size else 0) + deferredSize os a ≤ w.rl.ramUsage a := by
        intro rl1 hrl1 a
        have hle := addPendingRamUsage_neg_iff.mp ⟨rl1, hrl1⟩
        rw [ramUsage_addPendingRamUsage_neg hrl1 a]
        by_cases ha : a = o.payer
        · subst ha
          rw [if_pos rfl, if_pos rfl]
          omega
        · rw [if_neg ha, if_neg (Ne.symm ha), zero_add]
      constructor
      · rintro ⟨w', _, ⟨_, ho', rl1, hrl1, rfl⟩, hw'⟩ a
        cases ho'
        exact (husage rl1 hrl1 a).mp ((ih _ (hrest rl1) hnodup.2).mp ⟨w', hw'⟩ a)
      · intro hall
        have hpayer : o.size ≤ w.rl.ramUsage o.payer := by
          have := hall o.payer
          rw [if_pos rfl] at this
          omega
        obtain ⟨rl1, hrl1⟩ := addPendingRamUsage_neg_iff.mpr hpayer
        obtain ⟨w', hw'⟩ := (ih _ (hrest rl1) hnodup.2).mpr fun a =>
          (husage rl1 hrl1 a).mpr (hall a)
        exact ⟨w', _, ⟨o, rfl, rl1, hrl1, rfl⟩, hw'⟩

lemma frees_removeScheduledTransactions {w w' : RamWorld}
    (h : removeScheduledTransactions w trxs = .ok w') : Frees w.rl w'.rl := by
  refine foldlM_induction (R := fun w w' => Frees w.rl w'.rl)
    (fun w => .refl w.rl) (fun _ _ _ => ResourceLimitsManager.Frees.trans)
    (fun w k w' hstep => ?_) h
  simp only [RamWorld.removeScheduledTransaction, bind_eq_ok, pure_eq_ok] at hstep
  obtain ⟨o, -, rl1, hrl1, rfl⟩ := hstep
  exact frees_addPendingRamUsage_neg hrl1

/-! ### What the handlers need -/

lemma addIntrinsics_ok {whitelist names : List String} (hnodup : names.Nodup)
    (h : ∀ name ∈ names, name ∉ whitelist) :
    names.foldlM addIntrinsicToWhitelist whitelist = .ok (whitelist ++ names) := by
  induction names generalizing whitelist with
  | nil => rw [append_nil, foldlM_nil, pure_eq_ok]
  | cons name names ih =>
    rw [nodup_cons] at hnodup
    have hrest : ∀ n ∈ names, n ∉ whitelist ++ [name] := by
      intro n hn hmem
      rcases mem_append.mp hmem with hmem | hmem
      · exact h n (mem_cons_of_mem _ hn) hmem
      · exact hnodup.1 (mem_singleton.mp hmem ▸ hn)
    rw [foldlM_cons, bind_eq_ok]
    refine ⟨whitelist ++ [name], ?_, ?_⟩
    · simp only [addIntrinsicToWhitelist, bind_eq_ok, sysAssert_eq_ok, pure_eq_ok,
        and_true, exists_const]
      exact h name mem_cons_self
    · rw [ih hnodup.2 hrest, append_assoc, singleton_append]

namespace HandlerDatabase

variable {db db' : HandlerDatabase} {b : BuiltinProtocolFeature} {bs : List BuiltinProtocolFeature}

/-- Accounts that are owed a correction exist, with a RAM usage that fits `int64_t`. -/
def Sound (db : HandlerDatabase) : Prop := ∀ c ∈ db.ramCorrections.rows, db.ram.rl.UsageFits c.1

/-- No intrinsic of the given features is on the whitelist. -/
def Unlisted (db : HandlerDatabase) (bs : List BuiltinProtocolFeature) : Prop :=
  ∀ b ∈ bs, ∀ name ∈ b.newIntrinsics, name ∉ db.whitelistedIntrinsics

/-- If the given features remove all deferred transactions, then each payer uses as much RAM as its
deferred transactions take, after the corrections that come first. -/
def Refundable (db : HandlerDatabase) (bs : List BuiltinProtocolFeature) : Prop :=
  .disableDeferredTrxsStage2 ∈ bs → ∀ a, deferredSize db.ram.objects.rows a ≤ db.ram.rl.ramUsage a -
      if .replaceDeferred ∈ bs.takeWhile (· ≠ .disableDeferredTrxsStage2) then
        correctionIn db.ramCorrections.rows a
      else 0

/-- What every handler leaves in order. -/
structure Handled (db : HandlerDatabase) (b : BuiltinProtocolFeature) (db' : HandlerDatabase) :
    Prop where
  sound : db'.Sound
  whitelist : db'.whitelistedIntrinsics = db.whitelistedIntrinsics ++ b.newIntrinsics

/-- Handlers that only add intrinsics or key types leave RAM alone. -/
lemma triggerActivationHandler_ok (hs : db.Sound) (hu : db.Unlisted [b])
    (h1 : b ≠ .replaceDeferred) (h2 : b ≠ .disableDeferredTrxsStage2) :
    ∃ db', db.triggerActivationHandler b = .ok db' ∧ Handled db b db' ∧ db'.ram = db.ram ∧
      db'.ramCorrections = db.ramCorrections := by
  have hlist : (do
      let whitelist ← b.newIntrinsics.foldlM addIntrinsicToWhitelist db.whitelistedIntrinsics
      pure { db with whitelistedIntrinsics := whitelist } : Result HandlerDatabase) =
      .ok { db with whitelistedIntrinsics := db.whitelistedIntrinsics ++ b.newIntrinsics } := by
    rw [addIntrinsics_ok b.nodup_newIntrinsics (hu b mem_cons_self), ok_bind]
    rfl
  cases b <;> first
    | exact absurd rfl h1
    | exact absurd rfl h2
    | exact ⟨_, rfl, ⟨hs, (append_nil _).symm⟩, rfl, rfl⟩
    | exact ⟨_, hlist, ⟨hs, rfl⟩, rfl, rfl⟩

lemma triggerActivationHandler_replaceDeferred (hs : db.Sound) :
    ∃ db', db.triggerActivationHandler .replaceDeferred = .ok db' ∧
      Handled db .replaceDeferred db' ∧ db'.ram.objects = db.ram.objects ∧
      ∀ a, db'.ram.rl.ramUsage a = db.ram.rl.ramUsage a -
        correctionIn db.ramCorrections.rows a := by
  obtain ⟨rl', hrl', husage⟩ := creditRamCorrections_ok db.ramCorrections.nodup hs
  refine ⟨{ db with ram := { db.ram with rl := rl' }, ramCorrections := Table.empty }, ?_,
    ⟨fun c hc => absurd hc not_mem_nil, (append_nil _).symm⟩, rfl, husage⟩
  simp only [triggerActivationHandler, hrl', ok_bind]
  rfl

/-- The deferred transactions can be removed if their payers use as much RAM as they take. -/
lemma triggerActivationHandler_stage2 (hs : db.Sound) :
    ((∃ db', db.triggerActivationHandler .disableDeferredTrxsStage2 = .ok db') ↔
        ∀ a, deferredSize db.ram.objects.rows a ≤ db.ram.rl.ramUsage a) ∧
      ∀ db', db.triggerActivationHandler .disableDeferredTrxsStage2 = .ok db' →
        Handled db .disableDeferredTrxsStage2 db' := by
  have hiff := removeScheduledTransactions_iff db.ram
    (fun o ho => Table.find?_key ho) db.ram.objects.nodup
  constructor
  · rw [← hiff]
    simp only [triggerActivationHandler, bind_eq_ok, pure_eq_ok]
    constructor
    · rintro ⟨_, w', hw', -⟩
      exact ⟨w', hw'⟩
    · rintro ⟨w', hw'⟩
      exact ⟨_, w', hw', rfl⟩
  · intro db' h
    simp only [triggerActivationHandler, bind_eq_ok, pure_eq_ok] at h
    obtain ⟨w', hw', rfl⟩ := h
    exact ⟨fun c hc => (hs c hc).of_frees (frees_removeScheduledTransactions hw'),
      (append_nil _).symm⟩

lemma Unlisted.of_handled (h : db.Unlisted (b :: bs)) (hnodup : b ∉ bs) (hh : Handled db b db') :
    db'.Unlisted bs := by
  intro b' hb' name hname hmem
  rw [hh.whitelist] at hmem
  rcases mem_append.mp hmem with hmem | hmem
  · exact h b' (mem_cons_of_mem _ hb') name hname hmem
  · exact hnodup (newIntrinsics_inj hname hmem ▸ hb')

/-- After one handler, the rest of the features can be refunded exactly if they could before. -/
lemma refundable_cons_of_ne (hb : b ≠ .disableDeferredTrxsStage2) (hnodup : b ∉ bs)
    (hobjects : db'.ram.objects = db.ram.objects)
    (husage : ∀ a, db'.ram.rl.ramUsage a = db.ram.rl.ramUsage a -
      if b = .replaceDeferred then correctionIn db.ramCorrections.rows a
      else 0)
    (hcorrections : b ≠ .replaceDeferred → db'.ramCorrections = db.ramCorrections) :
    db.Refundable (b :: bs) ↔ db'.Refundable bs := by
  have hmem : disableDeferredTrxsStage2 ∈ b :: bs ↔
      .disableDeferredTrxsStage2 ∈ bs := by
    rw [mem_cons, or_iff_right (Ne.symm hb)]
  unfold Refundable
  rw [hmem]
  refine forall_congr' fun _ => forall_congr' fun a => ?_
  rw [hobjects, husage a, takeWhile_cons_of_pos (by simpa using hb)]
  by_cases hr : b = .replaceDeferred
  · -- the corrections have been credited, and are not credited again
    have hnot : BuiltinProtocolFeature.replaceDeferred ∉
        bs.takeWhile (· ≠ .disableDeferredTrxsStage2) :=
      fun h => hnodup (hr ▸ takeWhile_subset _ h)
    rw [if_pos hr, if_pos (hr ▸ mem_cons_self), if_neg hnot, Nat.sub_zero]
  · rw [if_neg hr, hcorrections hr, Nat.sub_zero]
    simp only [mem_cons, or_iff_right (Ne.symm hr)]

/-- **The handlers of a block succeed** exactly if its features can be refunded. -/
theorem foldlM_triggerActivationHandler_iff (hs : db.Sound) (hu : db.Unlisted bs)
    (hnodup : bs.Nodup) :
    ((∃ db', bs.foldlM triggerActivationHandler db = .ok db') ↔ db.Refundable bs) ∧
      ∀ db', bs.foldlM triggerActivationHandler db = .ok db' → db'.Sound ∧
        db'.whitelistedIntrinsics = db.whitelistedIntrinsics ++ bs.flatMap newIntrinsics := by
  induction bs generalizing db with
  | nil =>
    refine ⟨⟨fun _ h => absurd h not_mem_nil, fun _ => ⟨db, rfl⟩⟩, fun db' h => ?_⟩
    cases h
    exact ⟨hs, (append_nil _).symm⟩
  | cons b bs ih =>
    rw [nodup_cons] at hnodup
    -- the rest, after the first handler
    have hrest : ∀ db1, db.triggerActivationHandler b = .ok db1 → Handled db b db1 →
        ((∃ db', (b :: bs).foldlM triggerActivationHandler db = .ok db') ↔ db1.Refundable bs) ∧
          ∀ db', (b :: bs).foldlM triggerActivationHandler db = .ok db' → db'.Sound ∧
            db'.whitelistedIntrinsics = db.whitelistedIntrinsics ++
              (b :: bs).flatMap newIntrinsics := by
      intro db1 hdb1 hh
      obtain ⟨hiff, hlist⟩ := ih hh.sound (hu.of_handled hnodup.1 hh) hnodup.2
      rw [foldlM_cons, hdb1, ok_bind]
      refine ⟨hiff, fun db' hdb' => ⟨(hlist db' hdb').1, ?_⟩⟩
      rw [(hlist db' hdb').2, hh.whitelist, append_assoc, flatMap_cons]
    have hunlisted : db.Unlisted [b] := fun b' hb' => hu b' (mem_singleton.mp hb' ▸
      mem_cons_self)
    by_cases hstage : b = .disableDeferredTrxsStage2
    · subst hstage
      obtain ⟨hiff, hhandled⟩ := triggerActivationHandler_stage2 hs
      have hrefund : db.Refundable (.disableDeferredTrxsStage2 :: bs) ↔
          ∀ a, deferredSize db.ram.objects.rows a ≤ db.ram.rl.ramUsage a := by
        simp [Refundable]
      rw [hrefund, ← hiff]
      constructor
      · constructor
        · rintro ⟨db', h⟩
          rw [foldlM_cons, bind_eq_ok] at h
          obtain ⟨db1, hdb1, -⟩ := h
          exact ⟨db1, hdb1⟩
        · rintro ⟨db1, hdb1⟩
          exact (hrest db1 hdb1 (hhandled db1 hdb1)).1.mpr fun h => absurd h hnodup.1
      · intro db' h
        have h' := h
        rw [foldlM_cons, bind_eq_ok] at h'
        obtain ⟨db1, hdb1, -⟩ := h'
        exact (hrest db1 hdb1 (hhandled db1 hdb1)).2 db' h
    · by_cases hreplace : b = .replaceDeferred
      · subst hreplace
        obtain ⟨db1, hdb1, hh, hobjects, husage⟩ := triggerActivationHandler_replaceDeferred hs
        rw [refundable_cons_of_ne hstage hnodup.1 hobjects
          (fun a => by rw [if_pos rfl]; exact husage a) fun h => absurd rfl h]
        exact hrest db1 hdb1 hh
      · obtain ⟨db1, hdb1, hh, hram, hcorrections⟩ :=
          triggerActivationHandler_ok hs hunlisted hreplace hstage
        rw [refundable_cons_of_ne hstage hnodup.1 (by rw [hram])
          (fun a => by rw [if_neg hreplace, hram, Nat.sub_zero]) fun _ => hcorrections]
        exact hrest db1 hdb1 hh

end HandlerDatabase

end Sysio
