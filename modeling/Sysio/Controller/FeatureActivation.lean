import Sysio.Controller.ProducerSchedule

/-!
# Features are activated once, after what they depend on

The features of a chain are kept in three places: the header state of each block has the set of
active features, the database has the list of activations and the list of preactivated features, and
the manager has what `managerOf` makes of the list.  `Activated` ties the first two together for
each block of a chain, `Activating` does so for the block that is being built, and `Managed` ties
the manager to the database.

A block that is started with the preactivated features, in the order in which they were recorded,
passes every check.  What remains are the handlers: the one of `DISABLE_DEFERRED_TRXS_STAGE_2`
refunds every deferred transaction to the account that is recorded as its payer.  Where another
account was charged, the refund fails, and since the preactivated features have to be activated by
the next block, no block can follow (`no_block_after_preactivation`).
-/

namespace Sysio

open Result List ProtocolFeatureManager ProtocolFeatureSet Controller HandlerDatabase
  BlockHeaderState RamWorld TransactionContext Option BuiltinProtocolFeature

variable {head : BlockHeaderState} {activated current : List Sha256} {initialTimestamp t : UInt32}

open ProtocolFeatureManager (managerOf)

/-! ### The loops over the features of a block -/

namespace Controller

variable {pfs : ProtocolFeatureSet} {preactivated seen ds : List Sha256} {n : ℕ}
  {l : List (Sha256 × ℕ)}

lemma activateFeatures_managerOf {m : ProtocolFeatureManager}
    (h : activateFeatures preactivated n seen ds (managerOf pfs l) = .ok m) :
    m = managerOf pfs (l ++ ds.map fun d => (d, n)) ∧ ds.Nodup ∧ ∀ d ∈ ds, d ∉ seen := by
  induction ds generalizing seen l with
  | nil =>
    cases h
    rw [map_nil, append_nil]
    exact ⟨rfl, nodup_nil, nofun⟩
  | cons d ds ih =>
    simp only [activateFeatures, bind_eq_ok, sysAssert_eq_ok] at h
    obtain ⟨-, -, -, -, -, hseen, m1, hm1, h⟩ := h
    obtain rfl := activateFeature_managerOf hm1
    obtain ⟨rfl, hnodup, hrest⟩ := ih h
    refine ⟨by rw [map_cons, append_assoc, singleton_append],
      nodup_cons.mpr ⟨fun hd => hrest d hd mem_cons_self, hnodup⟩, fun d' hd' => ?_⟩
    rcases mem_cons.mp hd' with rfl | hd'
    · exact hseen
    · exact fun hmem => hrest d' hd' (mem_cons_of_mem _ hmem)

lemma activateFeatures_ok (hb : pfs.Built)
    (hrecognized : ∀ d ∈ ds, ∃ f, pfs.recognized.find? d = some f) (hnodup : ds.Nodup)
    (hseen : ∀ d ∈ ds, d ∉ seen) (hpre : ∀ d ∈ ds, d ∈ preactivated)
    (hnew : ∀ d ∈ ds, d ∉ l.map Prod.fst) (hnum : ∀ e ∈ l, e.2 ≤ n) :
    ∃ m, activateFeatures preactivated n seen ds (managerOf pfs l) = .ok m := by
  induction ds generalizing seen l with
  | nil => exact ⟨_, rfl⟩
  | cons d ds ih =>
    rw [nodup_cons] at hnodup
    obtain ⟨f, hf⟩ := hrecognized d mem_cons_self
    obtain ⟨m1, hm1⟩ := activateFeature_ok hb hf (hnew d mem_cons_self) hnum
    obtain rfl := activateFeature_managerOf hm1
    have hne : ∀ d' ∈ ds, d' ≠ d := fun d' hd' heq => hnodup.1 (heq ▸ hd')
    have hseen' : ∀ d' ∈ ds, d' ∉ d :: seen := fun d' hd' =>
      not_mem_cons_of_ne_of_not_mem (hne d' hd') (hseen d' (mem_cons_of_mem _ hd'))
    have hnew' : ∀ d' ∈ ds, d' ∉ (l ++ [(d, n)]).map Prod.fst := by
      intro d' hd' hmem
      rw [map_append, mem_append] at hmem
      rcases hmem with hmem | hmem
      · exact hnew d' (mem_cons_of_mem _ hd') hmem
      · exact hne d' hd' (mem_singleton.mp hmem)
    have hnum' : ∀ e ∈ l ++ [(d, n)], e.2 ≤ n := by
      intro e he
      rcases mem_append.mp he with he | he
      · exact hnum e he
      · rw [mem_singleton.mp he]
    obtain ⟨m, hm⟩ := ih (fun d' hd' => hrecognized d' (mem_cons_of_mem _ hd')) hnodup.2
      hseen' (fun d' hd' => hpre d' (mem_cons_of_mem _ hd')) hnew' hnum'
    refine ⟨m, ?_⟩
    simp only [activateFeatures, getProtocolFeature, bind_eq_ok, require_eq_ok, sysAssert_eq_ok]
    exact ⟨f, hf, (), .inl (hpre d mem_cons_self), (), hseen d mem_cons_self, _, hm1, hm⟩

end Controller

/-- The handlers of recognized features are those of the built-in ones. -/
lemma HandlerDatabase.triggerHandlers_eq {pfs : ProtocolFeatureSet} {features : List Sha256}
    (hb : pfs.Built) (hrecognized : ∀ d ∈ features, ∃ f, pfs.recognized.find? d = some f)
    (db : HandlerDatabase) : db.triggerHandlers pfs features =
      (features.filterMap pfs.builtinOf).foldlM triggerActivationHandler db := by
  induction features generalizing db with
  | nil => rfl
  | cons d features ih =>
    obtain ⟨f, hf⟩ := hrecognized d mem_cons_self
    obtain ⟨b, hbd⟩ := hb.builtinOf_isSome hf
    have hstep : (do
        let f ← pfs.getProtocolFeature d
        f.builtinFeature.elim (pure db) db.triggerActivationHandler : Result HandlerDatabase) =
        db.triggerActivationHandler b := by
      rw [builtinOf, hf, bind_some] at hbd
      rw [getProtocolFeature, hf]
      simp only [require, ok_bind, hbd, elim_some]
    rw [triggerHandlers, foldlM_cons, hstep, filterMap_cons_some hbd, foldlM_cons]
    exact bind_congr fun db' => ih (fun d' hd' => hrecognized d' (mem_cons_of_mem _ hd')) db'

namespace ChainState

variable {env : ControllerEnv} {s s' : ChainState} {bb bb' : BuildingBlock} {status : BlockStatus}
  {bsp : BlockHeaderState} {when_ : UInt32} {n : UInt16} {pfs : ProtocolFeatureSet}

/-! ### The invariant -/

/-- Every intrinsic on the whitelist has been there from the start, or belongs to one of the given
features. -/
def WhitelistFrom (pfs : ProtocolFeatureSet) (whitelist : List String) (activated : List Sha256) :
    Prop :=
  ∀ name ∈ whitelist, name ∈ genesisIntrinsics ∨
    ∃ d ∈ activated, ∃ b, pfs.builtinOf d = some b ∧ name ∈ b.newIntrinsics

/-- The features of a block, in its header state and in its database. -/
structure Activated (pfs : ProtocolFeatureSet) (x : BlockState × ChainDatabase)
    (below : List (BlockState × ChainDatabase)) : Prop where
  perm : x.1.activatedProtocolFeatures.Perm (x.2.activatedProtocolFeatures.map Prod.fst)
  nodup : x.1.activatedProtocolFeatures.Nodup
  numbers : ∀ e ∈ x.2.activatedProtocolFeatures, e.2 ≤ x.1.blockNum
  closed : pfs.Closed x.1.activatedProtocolFeatures
  /-- The preactivated features can be activated in the order in which they were recorded. -/
  checked : pfs.checkProtocolFeatures x.1.header.timestamp x.1.activatedProtocolFeatures
    x.2.preactivatedProtocolFeatures = .ok ()
  distinct : x.2.preactivatedProtocolFeatures.Nodup
  listed : WhitelistFrom pfs x.2.handlers.whitelistedIntrinsics x.1.activatedProtocolFeatures
  sound : x.2.handlers.Sound
  history : x.1.activatedProtocolFeatures.Perm
    ((x.1 :: below.map Prod.fst).flatMap fun b => b.getNewProtocolFeatureActivations)
  link : ∀ y ∈ below.head?, y.1.blockNum < x.1.blockNum ∧ ∃ features : List Sha256,
    x.2.activatedProtocolFeatures =
      y.2.activatedProtocolFeatures ++ features.map fun d => (d, x.1.blockNum)

/-- What a block that is to become a full one has activated and preactivated. -/
structure ActivatingFull (pfs : ProtocolFeatureSet) (s : ChainState) (bb : BuildingBlock) :
    Prop where
  closed : pfs.Closed
    (s.controller.head.activatedProtocolFeatures ++ bb.newProtocolFeatureActivations)
  checked : pfs.checkProtocolFeatures bb.pendingBlockHeaderState.timestamp
    (s.controller.head.activatedProtocolFeatures ++ bb.newProtocolFeatureActivations)
    s.controller.preactivatedProtocolFeatures = .ok ()
  distinct : s.controller.preactivatedProtocolFeatures.Nodup
  listed : WhitelistFrom pfs s.handlers.whitelistedIntrinsics
    (s.controller.head.activatedProtocolFeatures ++ bb.newProtocolFeatureActivations)
  sound : s.handlers.Sound

/-- The features of a block that is being built. -/
structure Activating (env : ControllerEnv) (s : ChainState) (bb : BuildingBlock)
    (status : BlockStatus) : Prop where
  header : ∃ when_ n, s.controller.head.nextPending env.toHeaderEnv when_ n =
    .ok bb.pendingBlockHeaderState
  base : ∃ db, s.session = some db ∧
    Activated env.protocolFeatureSet (s.controller.head, db) s.below ∧
    ∃ new : List Sha256, (status ≠ .ephemeral → new = bb.newProtocolFeatureActivations) ∧
      s.activatedProtocolFeatures = db.activatedProtocolFeatures ++
        new.map fun d => (d, u32 (s.controller.head.blockNum + 1))
  full : status ≠ .ephemeral → ActivatingFull env.protocolFeatureSet s bb

/-- The manager agrees with the database. -/
def Managed (env : ControllerEnv) (s : ChainState) : Prop :=
  s.controller.protocolFeatures = managerOf env.protocolFeatureSet s.activatedProtocolFeatures

/-- The number of the next block fits. -/
def NumberFits (head : BlockState) : Prop := head.blockNum + 1 < 2 ^ 32

lemma u32_succ_of_numberFits {head : BlockState} (h : NumberFits head) :
    u32 (head.blockNum + 1) = head.blockNum + 1 :=
  Nat.mod_eq_of_lt h

/-! ### Starting a block -/

variable {features : List Sha256} {first : ProducerAuthoritySchedule} {p : PendingBlockHeaderState}

lemma features_of_nextPending (hp : head.nextPending env.toHeaderEnv when_ n = .ok p) :
    p.prevActivatedProtocolFeatures = head.activatedProtocolFeatures ∧
      p.blockNum = u32 (head.blockNum + 1) := by
  obtain ⟨slot, proauth, -, -, -, hpeq⟩ := nextPending_eq_ok hp
  rw [hpeq]
  exact ⟨rfl, rfl⟩

/-- A recognized feature that is not active has no intrinsic on the whitelist. -/
lemma unlisted_of_whitelistFrom (hb : env.protocolFeatureSet.Built) {db : HandlerDatabase}
    (hlisted : WhitelistFrom env.protocolFeatureSet db.whitelistedIntrinsics activated)
    (hnew : ∀ d ∈ features, d ∉ activated) :
    db.Unlisted (features.filterMap env.protocolFeatureSet.builtinOf) := by
  intro b hmem name hname hwhite
  obtain ⟨d, hd, hbd⟩ := mem_filterMap.mp hmem
  rcases hlisted name hwhite with hgenesis | ⟨d', hd', b', hb', hname'⟩
  · exact not_mem_genesisIntrinsics hname hgenesis
  · obtain rfl := newIntrinsics_inj hname hname'
    exact hnew d hd (hb.builtinOf_inj hbd hb' ▸ hd')

lemma nodup_builtins (hb : pfs.Built) (hnodup : features.Nodup) :
    (features.filterMap pfs.builtinOf).Nodup := by
  refine hnodup.filterMap fun d d' b hd hd' => ?_
  exact hb.builtinOf_inj hd hd'

lemma new_of_checked (h : pfs.checkProtocolFeatures t current features = .ok ()) :
    ∀ d ∈ features, d ∉ current ∧ ∃ f, pfs.recognized.find? d = some f := by
  intro d hd
  obtain ⟨pre, post, rfl⟩ := append_of_mem hd
  obtain ⟨-, hnew, f, hf, -⟩ := checkProtocolFeatures_eq_ok.mp h pre d post rfl
  exact ⟨hnew, f, hf⟩

lemma new_of_validated (h : s.Validated env features) :
    (∀ d ∈ features, d ∉ s.controller.head.activatedProtocolFeatures ∧
      ∃ f, env.protocolFeatureSet.recognized.find? d = some f) ∧
    (env.protocolFeatureSet.Closed s.controller.head.activatedProtocolFeatures →
      env.protocolFeatureSet.Closed (s.controller.head.activatedProtocolFeatures ++ features)) := by
  rcases h with rfl | ⟨t, hvalid⟩
  · rw [append_nil]
    exact ⟨nofun, id⟩
  · rw [env.validator_eq] at hvalid
    exact ⟨new_of_checked hvalid, fun hclosed => hclosed.append hvalid⟩

lemma activating_of_started (hb : env.protocolFeatureSet.Built) (hmanaged : Managed env s)
    (hp : s.controller.head.nextPending env.toHeaderEnv when_ n = .ok bb.pendingBlockHeaderState)
    (hvalid : s.Validated env features) (hstarted : Started env s features status bb s')
    (hG : Activated env.protocolFeatureSet (s.controller.head, s.database) s.below) :
    Activating env s' bb status := by
  obtain ⟨hnew, hclosed⟩ := new_of_validated hvalid
  refine ⟨⟨when_, n, by rw [hstarted.head_eq]; exact hp⟩, ⟨s.database, hstarted.session_eq, ?_, ?_⟩,
    fun hstatus => ?_⟩
  · rwa [hstarted.head_eq, hstarted.below_eq]
  · rw [hstarted.head_eq]
    by_cases hstatus : status = .ephemeral
    · obtain ⟨-, hdb, -⟩ := hstarted.ephemeral hstatus
      refine ⟨[], fun h => absurd hstatus h, ?_⟩
      rw [map_nil, append_nil]
      exact congrArg ChainDatabase.activatedProtocolFeatures hdb
    · obtain ⟨handlers, -, hdb⟩ := hstarted.database_eq hstatus
      exact ⟨features, fun _ => hstarted.features_eq.symm,
        congrArg ChainDatabase.activatedProtocolFeatures hdb⟩
  · obtain ⟨handlers, htrigger, hdb⟩ := hstarted.database_eq hstatus
    -- all that was preactivated has been activated
    have hpre : s'.controller.preactivatedProtocolFeatures = [] := by
      have heq : s'.controller.preactivatedProtocolFeatures =
          if features = [] then s.controller.preactivatedProtocolFeatures else [] :=
        congrArg ChainDatabase.preactivatedProtocolFeatures hdb
      rw [heq]
      split_ifs with hempty
      · have hcomplete := hstarted.complete hstatus
        rw [hempty, countP_nil] at hcomplete
        exact length_eq_zero_iff.mp (hcomplete.elim id Eq.symm)
      · rfl
    have hhandlers : s'.handlers = handlers := congrArg ChainDatabase.handlers hdb
    have hactivate := hstarted.activated hstatus
    rw [hmanaged] at hactivate
    obtain ⟨-, hnodup, -⟩ := activateFeatures_managerOf hactivate
    rw [triggerHandlers_eq hb fun d hd => (hnew d hd).2] at htrigger
    obtain ⟨hsound, hwhitelist⟩ := (foldlM_triggerActivationHandler_iff hG.sound
      (unlisted_of_whitelistFrom hb hG.listed fun d hd => (hnew d hd).1)
      (nodup_builtins hb hnodup)).2 handlers htrigger
    refine ⟨?_, ?_, ?_, ?_, ?_⟩
    · rw [hstarted.head_eq, hstarted.features_eq]
      exact hclosed hG.closed
    · rw [hpre]
      rfl
    · rw [hpre]
      exact nodup_nil
    · rw [hhandlers, hwhitelist, hstarted.head_eq, hstarted.features_eq]
      intro name hname
      rcases mem_append.mp hname with hname | hname
      · refine (hG.listed name hname).imp_right ?_
        rintro ⟨d, hd, hrest⟩
        exact ⟨d, mem_append_left _ hd, hrest⟩
      · obtain ⟨b, hmem, hname⟩ := mem_flatMap.mp hname
        obtain ⟨d, hd, hbd⟩ := mem_filterMap.mp hmem
        exact .inr ⟨d, mem_append_right _ hd, b, hbd, hname⟩
    · rwa [hhandlers]

/-! ### Calls and commits -/

lemma Activating.call (hmanaged : Managed env s) (h : Activating env s bb status)
    (hsame : SameBlock bb status s bb' s') (hcalled : Called s bb status s') :
    Activating env s' bb' status := by
  obtain ⟨when_, n, hp⟩ := h.header
  obtain ⟨db, hdb, hG, new, hnew, hactivated⟩ := h.base
  refine ⟨⟨when_, n, by rw [hsame.head_eq, hsame.header_eq]; exact hp⟩,
    ⟨db, hsame.session_eq.trans hdb, ?_, new, ?_, ?_⟩, fun hstatus => ?_⟩
  · rwa [hsame.head_eq, hsame.below_eq]
  · rwa [hsame.features_eq]
  · rwa [hsame.activated_eq, hsame.head_eq]
  · obtain ⟨hclosed, hchecked, hdistinct, hlisted, hsound⟩ := h.full hstatus
    have hpreactivated : env.protocolFeatureSet.checkProtocolFeatures
        bb.pendingBlockHeaderState.timestamp
        (s.controller.head.activatedProtocolFeatures ++ bb.newProtocolFeatureActivations)
        s'.controller.preactivatedProtocolFeatures = .ok () ∧
        s'.controller.preactivatedProtocolFeatures.Nodup := by
      rcases hcalled.preactivated with heq | ⟨d, hpre, heq⟩
      · rw [heq]
        exact ⟨hchecked, hdistinct⟩
      · -- one more feature, which has passed the checks of `preactivate_feature`
        have hset : s.controller.protocolFeatures.protocolFeatureSet = env.protocolFeatureSet := by
          rw [hmanaged]
          rfl
        obtain ⟨hready, hnot, hnotpre, f, hf, hdeps⟩ := hpre
        rw [hset] at hready hf
        rw [(features_of_nextPending hp).1] at hnot hdeps
        rw [heq]
        refine ⟨checkProtocolFeatures_concat hchecked ⟨hready, ?_, f, hf, ?_⟩,
          nodup_append.mpr ⟨hdistinct, nodup_singleton d, ?_⟩⟩
        · intro hmem
          exact hnot ((mem_append.mp hmem).imp_right fun h => ⟨hstatus, h⟩)
        · intro x hx
          refine (hdeps x hx).imp_left fun h => ?_
          rcases h with h | ⟨-, h⟩
          · exact mem_append_left _ h
          · exact mem_append_right _ h
        · intro x hx y hy hxy
          rw [mem_singleton] at hy
          exact hnotpre (hy ▸ hxy ▸ hx)
    refine ⟨?_, ?_, hpreactivated.2, ?_, hcalled.sound hsound⟩
    · rwa [hsame.head_eq, hsame.features_eq]
    · rw [hsame.head_eq, hsame.features_eq, hsame.header_eq]
      exact hpreactivated.1
    · rwa [hcalled.whitelist_eq, hsame.head_eq, hsame.features_eq]

/-- The features of a finished block are those of its parent and the new ones. -/
lemma activated_of_finished
    (hp : head.nextPending env.toHeaderEnv when_ n = .ok bb.pendingBlockHeaderState)
    (hf : Finished bb bsp) (hnodup : head.activatedProtocolFeatures.Nodup) :
    bsp.activatedProtocolFeatures.Perm
        (head.activatedProtocolFeatures ++ bb.newProtocolFeatureActivations) ∧
      bsp.activatedProtocolFeatures.Nodup := by
  have hfeatures := hf.features_eq
  have hactivated := hf.result.activated_eq
  rw [getNewProtocolFeatureActivations] at hfeatures
  rw [(features_of_nextPending hp).1] at hactivated
  cases hext : bsp.headerExts.findSome? HeaderExtension.newProtocolFeatures with
  | none =>
    rw [hext] at hactivated hfeatures
    rw [← hfeatures, getD_none, append_nil, hactivated]
    exact ⟨List.Perm.refl _, hnodup⟩
  | some features =>
    rw [hext] at hactivated hfeatures
    obtain ⟨hnodup', hsorted⟩ := hactivated
    have hperm := perm_insertionSort (· ≤ ·) (head.activatedProtocolFeatures ++ features)
    rw [← hfeatures, getD_some, hsorted]
    exact ⟨hperm, hperm.nodup_iff.mpr hnodup'⟩

lemma Activated.commit {head : BlockState} {db : ChainDatabase}
    (hfits : NumberFits s.controller.head) (hstatus : status ≠ .ephemeral)
    (hf : Finished bb head.toBlockHeaderState) (hdb : s.session = some db)
    (hB : Activating env s bb status) :
    Activated env.protocolFeatureSet (head, s.database) ((s.controller.head, db) :: s.below) := by
  obtain ⟨when_, n, hp⟩ := hB.header
  obtain ⟨db', hdb', hG, new, hnew, hactivated⟩ := hB.base
  obtain rfl := Option.some.inj (hdb.symm.trans hdb')
  obtain rfl := hnew hstatus
  obtain ⟨hclosed, hchecked, hdistinct, hlisted, hsound⟩ := hB.full hstatus
  obtain ⟨hperm, hnodup⟩ := activated_of_finished hp hf hG.nodup
  have hmem : ∀ x, x ∈ head.activatedProtocolFeatures ↔ x ∈
      s.controller.head.activatedProtocolFeatures ++ bb.newProtocolFeatureActivations :=
    fun x => hperm.mem_iff
  have hnum : head.blockNum = s.controller.head.blockNum + 1 := by
    have hcommon : head.blockNum = bb.pendingBlockHeaderState.blockNum :=
      congrArg BlockHeaderStateCommon.blockNum hf.result.common_eq
    rw [hcommon, (features_of_nextPending hp).2, u32_succ_of_numberFits hfits]
  rw [u32_succ_of_numberFits hfits, ← hnum] at hactivated
  have hdatabase : s.database.activatedProtocolFeatures = db.activatedProtocolFeatures ++
        bb.newProtocolFeatureActivations.map fun d => (d, head.blockNum) := hactivated
  refine ⟨?_, hnodup, ?_, hclosed.congr hmem, ?_, hdistinct, ?_, hsound, ?_, ?_⟩
  · rw [hdatabase, map_append, List.map_map]
    refine hperm.trans (hG.perm.append ?_)
    exact (map_id _).symm ▸ List.Perm.refl _
  · rw [hdatabase]
    intro e he
    rcases mem_append.mp he with he | he
    · have := hG.numbers e he
      show e.2 ≤ head.blockNum
      simp only at this
      omega
    · obtain ⟨d, -, rfl⟩ := mem_map.mp he
      exact le_rfl
  · rw [show head.header.timestamp = bb.pendingBlockHeaderState.timestamp from
      hf.result.timestamp_eq]
    exact checkProtocolFeatures_congr (UInt32.le_refl _) hmem hchecked
  · intro name hname
    refine (hlisted name hname).imp_right ?_
    rintro ⟨d, hd, hrest⟩
    exact ⟨d, (hmem d).mpr hd, hrest⟩
  · rw [map_cons, flatMap_cons, hf.features_eq]
    exact hperm.trans ((hG.history.append_right _).trans perm_append_comm)
  · intro y hy
    cases hy
    refine ⟨?_, _, hdatabase⟩
    show s.controller.head.blockNum < head.blockNum
    omega

lemma kept_activated (hb : env.protocolFeatureSet.Built) :
    Kept env (fun s => NumberFits s.controller.head ∧ Managed env s)
      (Activated env.protocolFeatureSet) (Activating env) where
  start hP hp hvalid hstarted hG := activating_of_started hb hP.2 hp hvalid hstarted hG
  call hP hsame hcalled hB := hB.call hP.2 hsame hcalled
  commit hP hstatus hf hdb hB _ := Activated.commit hP.1 hstatus hf hdb hB

/-! ### The manager -/

lemma Managed.of_move (hfits : NumberFits s.controller.head)
    (hinv : Invariant (Activated env.protocolFeatureSet) (Activating env) s)
    (h : Managed env s) (hmove : Move env s s') : Managed env s' := by
  cases hmove with
  | @start _ _ _ _ status _ hp hvalid hstarted =>
    by_cases hstatus : status = .ephemeral
    · obtain ⟨-, hdb, hmanager⟩ := hstarted.ephemeral hstatus
      have hactivated : s'.activatedProtocolFeatures = s.activatedProtocolFeatures :=
        congrArg ChainDatabase.activatedProtocolFeatures hdb
      rwa [Managed, hmanager, hactivated]
    · obtain ⟨handlers, -, hdb⟩ := hstarted.database_eq hstatus
      have hactivate := hstarted.activated hstatus
      rw [h] at hactivate
      obtain ⟨hmanager, -⟩ := activateFeatures_managerOf hactivate
      rw [Managed, hmanager]
      exact congrArg _ (congrArg ChainDatabase.activatedProtocolFeatures hdb).symm
  | call hb hsame hcalled =>
    rwa [Managed, hsame.manager_eq, hsame.activated_eq]
  | commit => exact h
  | abort hpending hdb =>
    rcases hinv.stage with ⟨hnone, -⟩ | ⟨bb, status, db', hb, hdb', hB⟩
    · rw [hnone] at hpending
      cases hpending
    · obtain ⟨db'', hdb'', hG, new, -, hactivated⟩ := hB.base
      obtain rfl := Option.some.inj (hdb.symm.trans hdb'')
      show s.controller.protocolFeatures.poppedBlocksTo s.controller.head.blockNum = _
      rw [h, hactivated]
      refine poppedBlocksTo_managerOf hG.numbers fun e he => ?_
      obtain ⟨d, -, rfl⟩ := mem_map.mp he
      rw [u32_succ_of_numberFits hfits]
      exact Nat.lt_succ_self _
  | @pop prev db below hpending hbelow =>
    have htop := hinv.top hpending
    have hprev := hinv.stacked.2
    rw [hbelow] at htop hprev
    obtain ⟨hlt, features, heq⟩ := htop.link _ rfl
    show s.controller.protocolFeatures.poppedBlocksTo prev.blockNum = _
    rw [h, show s.activatedProtocolFeatures = _ from heq]
    refine poppedBlocksTo_managerOf hprev.1.numbers fun e he => ?_
    obtain ⟨d, -, rfl⟩ := mem_map.mp he
    exact hlt

/-! ### Chains from genesis -/

lemma activated_initial (env : ControllerEnv) (initialKey : PublicKey) (initialTimestamp : UInt32)
    (chainId : Sha256) (ram : RamWorld) :
    Invariant (Activated env.protocolFeatureSet) (Activating env)
      (initial env initialKey initialTimestamp chainId ram) := by
  refine ⟨⟨⟨.refl _, nodup_nil, nofun, nofun, rfl, nodup_nil, fun _ h => .inl h, nofun,
    .refl _, nofun⟩, trivial⟩, .inl ⟨rfl, rfl⟩⟩

lemma activated_of_run {initialKey : PublicKey} {chainId : Sha256}
    {ram : RamWorld} {tr : List (Transition ChainState Event)} (hb : env.protocolFeatureSet.Built)
    (hr : Run (Step env) (initial env initialKey initialTimestamp chainId ram) tr s)
    (hfits : ∀ t ∈ tr, NumberFits t.pre.controller.head) :
    Invariant (Activated env.protocolFeatureSet) (Activating env) s ∧ Managed env s := by
  refine run_induction (Q := fun s => Invariant _ (Activating env) s ∧ Managed env s)
    ⟨activated_initial env initialKey initialTimestamp chainId ram, rfl⟩ ?_ hr hfits
  rintro s s' hfits ⟨hinv, hmanaged⟩ hmove
  exact ⟨hinv.of_move (kept_activated hb) ⟨hfits, hmanaged⟩ hmove,
    hmanaged.of_move hfits hinv hmove⟩

section

variable (hb : env.protocolFeatureSet.Built) (hfits : NumberFits s.controller.head)
  (hmanaged : Managed env s) (hpending : s.controller.pending = none)
  (hG : Activated env.protocolFeatureSet (s.controller.head, s.database) s.below)
  (hS : Scheduled first (s.controller.head, s.database) s.below)
  (hp : s.controller.head.nextPending env.toHeaderEnv when_ n = .ok p)
include hb hfits hmanaged hpending hG hS hp

/-- The preactivated features pass every check of `start_block`. -/
lemma startBlock_preactivated_ok :
    ∃ c, s.controller.startBlock env when_ n s.controller.preactivatedProtocolFeatures .incomplete =
      .ok c := by
  set pre := s.controller.preactivatedProtocolFeatures
  have hnew : ∀ d ∈ pre, _ := new_of_checked hG.checked
  have hnum : p.blockNum = s.controller.head.blockNum + 1 := by
    rw [(features_of_nextPending hp).2, u32_succ_of_numberFits hfits]
  have hnotActive : ∀ d ∈ pre, d ∉ s.activatedProtocolFeatures.map Prod.fst :=
    fun d hd hmem => (hnew d hd).1 (hG.perm.mem_iff.mpr hmem)
  have hnumbers : ∀ e ∈ s.activatedProtocolFeatures, e.2 ≤ p.blockNum := by
    intro e he
    have hle : e.2 ≤ s.controller.head.blockNum := hG.numbers e he
    omega
  have hseen : ∀ d ∈ pre, d ∉ ([] : List Sha256) := fun _ _ => not_mem_nil
  obtain ⟨m, hm⟩ := activateFeatures_ok hb (fun d hd => (hnew d hd).2) hG.distinct hseen
    (fun _ hd => hd) hnotActive hnumbers
  obtain ⟨promoted, hpromoted⟩ := hS.promoteProposed hp
  have hcomplete : pre.countP (· ∈ pre) = pre.length :=
    countP_eq_length.mpr fun d hd => decide_eq_true hd
  obtain ⟨c, hc⟩ : ∃ c, s.controller.prepareBlock ⟨p, none, pre, [], .inr [], [], none⟩
      .incomplete = .ok c := by
    simp only [prepareBlock, bind_eq_ok, sysAssert_eq_ok]
    rw [show s.controller.protocolFeatures = _ from hmanaged]
    exact ⟨_, m, hm, (), .inr hcomplete, promoted, hpromoted, rfl⟩
  refine ⟨c, ?_⟩
  simp only [Controller.startBlock, bind_eq_ok, sysAssert_eq_ok]
  refine ⟨(), by rw [hpending]; rfl, p, hp, ?_⟩
  rwa [if_neg BlockStatus.noConfusion]

/-- **A block can be started with the preactivated features** exactly if the deferred transactions
that they remove can be refunded. -/
theorem start_preactivated_iff :
    (∃ s', s.apply env (.startBlock when_ n s.controller.preactivatedProtocolFeatures .incomplete) =
        .ok s') ↔ s.handlers.Refundable
        (s.controller.preactivatedProtocolFeatures.filterMap env.protocolFeatureSet.builtinOf) := by
  obtain ⟨c, hc⟩ := startBlock_preactivated_ok hb hfits hmanaged hpending hG hS hp
  set pre := s.controller.preactivatedProtocolFeatures
  have hnew : ∀ d ∈ pre, d ∉ s.controller.head.activatedProtocolFeatures ∧
      ∃ f, env.protocolFeatureSet.recognized.find? d = some f := new_of_checked hG.checked
  have hvalid : s.controller.validateProtocolFeatures env pre = .ok () := by
    unfold validateProtocolFeatures
    split_ifs
    · rfl
    · rw [env.validator_eq]
      exact hG.checked
  have hhandlers : s.startHandlers env pre .incomplete =
      (pre.filterMap env.protocolFeatureSet.builtinOf).foldlM triggerActivationHandler
        s.handlers := by
    rw [startHandlers, if_neg BlockStatus.noConfusion,
      triggerHandlers_eq hb fun d hd => (hnew d hd).2]
  have hunlisted : s.handlers.Unlisted (pre.filterMap env.protocolFeatureSet.builtinOf) :=
    unlisted_of_whitelistFrom hb hG.listed fun d hd => (hnew d hd).1
  obtain ⟨hiff, -⟩ := foldlM_triggerActivationHandler_iff
    (show s.handlers.Sound from hG.sound) hunlisted (nodup_builtins hb hG.distinct)
  rw [← hiff, ← hhandlers]
  simp only [apply, hvalid, startBlock, hc, ok_bind, bind_eq_ok, sysAssert_eq_ok, pure_eq_ok]
  constructor
  · rintro ⟨_, -, -, handlers, hok, -⟩
    exact ⟨handlers, hok⟩
  · rintro ⟨handlers, hok⟩
    exact ⟨_, (), .inl trivial, handlers, hok, rfl⟩

end

/-- The features of a chain and the blocks that can be started with what is preactivated. -/
structure ActivationInOrder (env : ControllerEnv) (s : ChainState) : Prop where
  closed : ∀ b ∈ s.blocks, env.protocolFeatureSet.Closed b.activatedProtocolFeatures
  /-- What is active at a block is what the blocks up to it have activated. -/
  activated : ∀ b older, b :: older <:+ s.blocks → ∀ d, d ∈ b.activatedProtocolFeatures ↔
    ∃ a ∈ b :: older, d ∈ a.getNewProtocolFeatureActivations
  once : (s.blocks.flatMap fun b => b.getNewProtocolFeatureActivations).Nodup
  preactivates : ∀ bb status d c, s.Builds bb status → s.controller.preactivateFeature d = .ok c →
    c.preactivatedProtocolFeatures = s.controller.preactivatedProtocolFeatures ++ [d] ∧
    ∃ f, env.protocolFeatureSet.recognized.find? d = some f ∧ ∀ x ∈ f.dependencies,
      x ∈ s.controller.head.activatedProtocolFeatures ∨
      (status ≠ .ephemeral ∧ x ∈ bb.newProtocolFeatureActivations) ∨
      x ∈ s.controller.preactivatedProtocolFeatures
  checks : s.controller.pending = none →
    ∀ timestamp, s.controller.head.header.timestamp ≤ timestamp →
    env.protocolFeatureSet.checkProtocolFeatures timestamp
      s.controller.head.activatedProtocolFeatures s.controller.preactivatedProtocolFeatures = .ok ()
  starts : s.controller.pending = none → ∀ when_ n p,
    s.controller.head.nextPending env.toHeaderEnv when_ n = .ok p →
    ((∃ s', s.apply env
        (.startBlock when_ n s.controller.preactivatedProtocolFeatures .incomplete) = .ok s') ↔
      s.handlers.Refundable
        (s.controller.preactivatedProtocolFeatures.filterMap env.protocolFeatureSet.builtinOf))

/-- **Activation is in order in every chain from genesis**, as long as block numbers fit. -/
theorem activationInOrder_of_run {initialKey : PublicKey} {initialTimestamp : UInt32}
    {chainId : Sha256} {ram : RamWorld} {tr : List (Transition ChainState Event)}
    (hb : env.protocolFeatureSet.Built)
    (hr : Run (Step env) (initial env initialKey initialTimestamp chainId ram) tr s)
    (hfits : ∀ t ∈ tr, NumberFits t.pre.controller.head) (hlast : NumberFits s.controller.head) :
    ActivationInOrder env s := by
  obtain ⟨hinv, hmanaged⟩ := activated_of_run hb hr hfits
  have hat : ∀ b older, b :: older <:+ s.blocks → ∃ db below, below.map Prod.fst = older ∧
      Activated env.protocolFeatureSet (b, db) below := by
    intro b older hsuffix
    obtain ⟨db, below, hmap, hb, -⟩ := hinv.stacked.of_suffix hsuffix
    exact ⟨db, below, hmap, hb⟩
  refine ⟨?_, ?_, ?_, ?_, ?_, ?_⟩
  · intro b hb
    obtain ⟨newer, older, heq⟩ := append_of_mem hb
    obtain ⟨db, below, -, hactivated⟩ := hat b older ⟨newer, heq.symm⟩
    exact hactivated.closed
  · intro b older hsuffix d
    obtain ⟨db, below, rfl, hactivated⟩ := hat b older hsuffix
    rw [hactivated.history.mem_iff, mem_flatMap]
  · have htop := hinv.stacked.1
    exact htop.history.nodup_iff.mp htop.nodup
  · intro bb status d c hbuilds hc
    obtain ⟨⟨-, -, -, f, hf, hdeps⟩, rfl⟩ := preactivateFeature_eq_ok hbuilds hc
    obtain ⟨-, hB⟩ := hinv.building hbuilds
    obtain ⟨when_, n, hp⟩ := hB.header
    obtain ⟨slot, proauth, -, -, -, hpeq⟩ := nextPending_eq_ok hp
    rw [hmanaged] at hf
    refine ⟨rfl, f, hf, fun x hx => ?_⟩
    have hx := hdeps x hx
    rw [hpeq] at hx
    exact or_assoc.mp hx
  · intro hpending timestamp hle
    exact checkProtocolFeatures_congr hle (fun _ => Iff.rfl) (hinv.top hpending).checked
  · intro hpending when_ n p hp
    exact start_preactivated_iff hb hlast hmanaged hpending (hinv.top hpending)
      ((scheduled_of_run hr).top hpending) hp

/-! ### Deferred transactions that cannot be refunded -/

lemma built_demoFeatureSet : demoFeatureSet.Built := by
  have h1 : ProtocolFeatureSet.Built ⟨Table.empty.upsert
      ⟨⟨0, 0, 0, 1⟩, [], 0, false, true, some .disableDeferredTrxsStage1⟩⟩ :=
    .add .empty (show addFeature _ ⟨⟨0, 0, 0, 1⟩, [], 0, false, true, none⟩
      .disableDeferredTrxsStage1 = _ from rfl)
  have h2 := ProtocolFeatureSet.Built.add h1 (show addFeature _
    ⟨⟨0, 0, 0, 2⟩, [⟨0, 0, 0, 1⟩], 0, false, true, none⟩ .disableDeferredTrxsStage2 = .ok _
    from rfl)
  exact .add h2 (show addFeature _ ⟨⟨0, 0, 0, 3⟩, [⟨0, 0, 0, 2⟩], 0, false, true, none⟩
    .disableCompressionInTransactionMerkle = _ from rfl)

/-- A block whose transactions do something to RAM and preactivate the removal of all deferred
transactions. -/
def demoPreactivation (ram : RamWorld) : List Event :=
  [.startBlock 2 0 [] .incomplete, .call (.changeRam ram Table.empty),
    .call (.preactivateFeature ⟨0, 0, 0, 1⟩), .call (.preactivateFeature ⟨0, 0, 0, 2⟩),
    .produce fun _ => [⟨0⟩]]

instance (head : BlockState) : Decidable (NumberFits head) := inferInstanceAs (Decidable (_ < _))

theorem activationInOrder_demoPreactivation :
    ∃ (tr : List (Transition ChainState Event)) (s : ChainState),
      Run (Step demoControllerEnv) (demoChain demoWorld) tr s ∧
      s.controller.preactivatedProtocolFeatures = [⟨0, 0, 0, 1⟩, ⟨0, 0, 0, 2⟩] ∧
      ActivationInOrder demoControllerEnv s := by
  obtain ⟨tr, s, hr, hP⟩ := exists_run_of_carryOut (nextLocal demoControllerEnv)
    (demoChain demoWorld) (demoPreactivation demoWorld)
    (fun _ _ _ => step_of_nextLocal)
    (P := fun tr s => (∀ t ∈ tr, NumberFits t.pre.controller.head) ∧ NumberFits s.controller.head ∧
      s.controller.preactivatedProtocolFeatures = [⟨0, 0, 0, 1⟩, ⟨0, 0, 0, 2⟩])
    (by decide)
  obtain ⟨hfits, hlast, hpre⟩ := hP
  exact ⟨tr, s, hr, hpre, activationInOrder_of_run built_demoFeatureSet hr hfits hlast⟩

/-- The contract has too little RAM for its deferred transaction, so the user is charged for it. -/
def demoDeferral : RamWorld.Event :=
  .transaction (demoTransaction 1
    [.setResourceLimits demoContract 100 (-1) 1, .scheduleDeferredTransaction demoContract 1
        demoContract 10 false false])

def demoDeferred : RamWorld :=
  (demoWorld.apply demoDeferral).toOption.getD demoWorld

lemma step_demoDeferral : RamWorld.Step demoWorld demoDeferral demoDeferred := by
  have hsome : (demoWorld.apply demoDeferral).toOption.isSome = true := by decide
  obtain ⟨w, hw⟩ := isSome_iff_exists.mp hsome
  have heq : demoDeferred = w := by
    rw [demoDeferred, hw]
    rfl
  rw [heq]
  exact eq_ok_of_toOption hw

/-- **No block can follow**: the preactivated features have to be activated, and the refund of the
deferred transaction to the contract fails. -/
theorem no_block_after_preactivation :
    ∃ ram, RamWorld.Step demoWorld demoDeferral ram ∧
      ∃ (tr : List (Transition ChainState Event)) (s : ChainState) (p : PendingBlockHeaderState),
        Run (Step demoControllerEnv) (demoChain demoWorld) tr s ∧
        tr.map Transition.event = demoPreactivation ram ∧ s.controller.pending = none ∧
        s.controller.head.nextPending demoControllerEnv.toHeaderEnv 3 0 = .ok p ∧
        s.apply demoControllerEnv
            (.startBlock 3 0 s.controller.preactivatedProtocolFeatures .incomplete) =
          .error ⟨.transactionException, "Ram usage delta would underflow UINT64_MAX"⟩ := by
  refine ⟨demoDeferred, step_demoDeferral, ?_⟩
  have hany : (carryOut (nextLocal demoControllerEnv) (demoChain demoWorld)
      (demoPreactivation demoDeferred)).any (fun r => r.2.controller.pending = none ∧
        (∃ p, r.2.controller.head.nextPending demoControllerEnv.toHeaderEnv 3 0 = .ok p ∧ True) ∧
        r.2.apply demoControllerEnv
            (.startBlock 3 0 r.2.controller.preactivatedProtocolFeatures .incomplete) =
          .error ⟨.transactionException, "Ram usage delta would underflow UINT64_MAX"⟩) = true := by
    decide
  obtain ⟨⟨tr, s⟩, hcarry, hP⟩ := (Option.any_eq_true _ _).mp hany
  obtain ⟨hpending, ⟨p, hp, -⟩, happly⟩ := of_decide_eq_true hP
  obtain ⟨hr, hevents⟩ := Run.of_carryOut (fun _ _ _ => step_of_nextLocal) hcarry
  exact ⟨tr, s, p, hr, hevents, hpending, hp, happly⟩

end ChainState

end Sysio
