import Sysio.BlockHeaderState.Produce
import Sysio.FeatureManager
import Sysio.SubChain.Basic

/-!
# What a produced block contains

A producer takes its pending header state through `startBlock`, `pushReceipt`, `finalizeBlock` and
`completeBlock`.  `Building` is the invariant of the middle part: the digests collected so far are
those of the receipts, under the feature state that was fixed when the block was started.  From it
`produceBlock_eq_ok` reads off the completed block, and `next_of_finishNextSigned` says that its
signed header is one that `block_header_state::next` takes, with the same result.
-/

namespace Sysio

open Result List PendingBlockHeaderState

variable {r s : BlockHeaderState} {p : PendingBlockHeaderState} {f : HeaderExtension → Option α}
  {signer : Sha256 → List Signature} {when_ : UInt32} {n : UInt16} {digests fs : List Sha256}
  {α : Type} {completed filled : Controller} {sc : SubChain}

/-! ### Signed headers -/

namespace BlockHeaderState

variable {env : HeaderEnv}

/-- A pending block lies after its parent, unless its slot was left open and wrapped. -/
lemma lt_timestamp_of_nextPending (hp : s.nextPending env when_ n = .ok p) (hw : when_ ≠ 0) :
    s.header.timestamp < p.timestamp := by
  obtain ⟨slot, proauth, hslot, -, -, rfl⟩ := nextPending_eq_ok hp
  simp only [nextSlot, if_pos hw, bind_eq_ok, pure_eq_ok, sysAssert_eq_ok] at hslot
  obtain ⟨-, hlt, rfl⟩ := hslot
  exact hlt

section recoverKeys

variable {digest : Sha256} {sigs : List Signature} {keys keys' new : List PublicKey}

/-- The keys of all signatures, the last one first, if every signature has one and no key comes
twice. -/
lemma recoverKeys_eq (hnew : Forall₂ (fun sig key => env.recover sig digest = .ok key) sigs new)
    (hk : keys.Nodup) : recoverKeys env digest sigs keys =
      if (new.reverse ++ keys).Nodup then .ok (new.reverse ++ keys)
      else .error ⟨.wrongSigningKey, "block signed by same key twice"⟩ := by
  induction hnew generalizing keys with
  | nil => simp [recoverKeys, hk]
  | @cons sig key sigs new hkey _ ih =>
    rw [recoverKeys, hkey, ok_bind, reverse_cons, append_assoc, singleton_append]
    by_cases hmem : key ∈ keys
    · rw [sysAssert, if_neg (not_not.mpr hmem), if_neg]
      · rfl
      · exact fun hnodup => (nodup_cons.mp (nodup_append.mp hnodup).2.1).1 hmem
    · rw [sysAssert, if_pos hmem, ok_bind]
      exact ih (nodup_cons.mpr ⟨hmem, hk⟩)

lemma recovered_of_recoverKeys (h : recoverKeys env digest sigs keys = .ok keys') :
    ∃ new, Forall₂ (fun sig key => env.recover sig digest = .ok key) sigs new := by
  induction sigs generalizing keys with
  | nil => exact ⟨[], .nil⟩
  | cons sig sigs ih =>
    simp only [recoverKeys, bind_eq_ok, sysAssert_eq_ok] at h
    obtain ⟨key, hkey, -, -, hrest⟩ := h
    obtain ⟨new, hnew⟩ := ih hrest
    exact ⟨key :: new, .cons hkey hnew⟩

/-- Signatures with distinct keys are distinct. -/
lemma nodup_of_recovered (hnew : Forall₂ (fun sig key => env.recover sig digest = .ok key) sigs new)
    (hnodup : new.Nodup) : sigs.Nodup := by
  have hmap : sigs.map (env.recover · digest) = new.map .ok := by
    induction hnew with
    | nil => rfl
    | cons hkey _ ih => rw [map_cons, map_cons, hkey, ih (nodup_cons.mp hnodup).2]
  exact Nodup.of_map _ (hmap ▸ hnodup.map fun _ _ => Except.ok.inj)

end recoverKeys

end BlockHeaderState

namespace PendingBlockHeaderState

variable {env : HeaderEnv} {h : SignedBlockHeader}

/-- `_finish_next` under another validator that accepts the features of the header, and with
another signature in it. -/
lemma finishNextUnsigned_of_validator {env0 : HeaderEnv} (sig : Signature)
    (henv : env0 = { env with validator := env0.validator })
    (hr : p.finishNextUnsigned env0 h = .ok r)
    (hvalid : ∀ fs, h.headerExtensions.findSome? HeaderExtension.newProtocolFeatures = some fs →
      env.validator p.timestamp p.prevActivatedProtocolFeatures fs = .ok ()) :
    p.finishNextUnsigned env { h with producerSignature := sig } =
      .ok { r with header := { h with producerSignature := sig } } := by
  simp only [finishNextUnsigned, bind_eq_ok, pure_eq_ok, sysAssert_eq_ok] at hr ⊢
  obtain ⟨-, h1, -, h2, -, h3, -, h4, -, h5, exts, hexts, legacy, hlegacy, ext, hext, feats, hfeats,
    rfl⟩ := hr
  have hexts' : exts = h.headerExtensions := BlockHeader.extractExtensions_eq_ok hexts
  have hact : p.activateFeatures env exts = .ok feats := by
    unfold activateFeatures at hfeats ⊢
    cases hf : exts.findSome? HeaderExtension.newProtocolFeatures with
    | none =>
      rwa [hf] at hfeats
    | some fs =>
      rw [hf] at hfeats
      simp only [bind_eq_ok] at hfeats ⊢
      obtain ⟨-, -, hrest⟩ := hfeats
      exact ⟨(), hvalid fs (hexts' ▸ hf), hrest⟩
  -- nothing else asks the validator
  have hwtm : p.wtmsigEnabled env0 = p.wtmsigEnabled env := by
    rw [henv]
    rfl
  have hleg : p.legacySchedule env h.toBlockHeader = .ok legacy := by
    rw [← hlegacy, henv]
    rfl
  have hext' : p.extensionSchedule env exts = .ok ext := by
    rw [← hext, henv]
    rfl
  refine ⟨(), h1, (), h2, (), h3, (), h4, (), h5, exts, hexts, legacy, hleg, ext, hext', feats,
    hact, ?_⟩
  rw [henv]
  rfl

/-- The header agrees with the pending block, and is kept. -/
lemma fields_of_finishNextUnsigned (hr : p.finishNextUnsigned env h = .ok r) :
    r.toBlockHeaderStateCommon = p.toBlockHeaderStateCommon ∧ r.header = h ∧
      h.timestamp = p.timestamp ∧ h.confirmed = p.confirmed ∧ h.producer = p.producer := by
  simp only [finishNextUnsigned, bind_eq_ok, pure_eq_ok, sysAssert_eq_ok] at hr
  obtain ⟨-, htime, -, -, -, hconf, -, hprod, -, -, _, -, _, -, _, -, _, -, rfl⟩ := hr
  exact ⟨rfl, rfl, htime, hconf, hprod⟩

end PendingBlockHeaderState

namespace BlockHeaderState

variable {env : HeaderEnv} {bsp : BlockHeaderState}

lemma sign_eq_ok (h : s.sign env signer = .ok r) : ∃ sig, r = { s with
        header := { s.header with producerSignature := sig }
        additionalSignatures := r.additionalSignatures } ∧
      r.verifySignee env = .ok () ∧ r.additionalSignatures.Nodup := by
  simp only [sign, bind_eq_ok, pure_eq_ok] at h
  obtain ⟨sig, -, _, hv, rfl⟩ := h
  have hv' := hv
  simp only [verifySignee, bind_eq_ok] at hv'
  obtain ⟨-, -, key, -, keys, hkeys, -⟩ := hv'
  obtain ⟨new, hnew⟩ := recovered_of_recoverKeys hkeys
  rw [recoverKeys_eq hnew (nodup_singleton _)] at hkeys
  split_ifs at hkeys with hnodup
  exact ⟨sig, rfl, hv, nodup_of_recovered hnew (nodup_reverse.mp (nodup_append.mp hnodup).1)⟩

lemma header_of_finishNextSigned
    {h : SignedBlockHeader} (hs : p.finishNextSigned env h signer = .ok bsp) :
    bsp.header.toBlockHeader = h.toBlockHeader := by
  simp only [finishNextSigned, bind_eq_ok, pure_eq_ok] at hs
  obtain ⟨r, hr, b, hb, -, -, rfl⟩ := hs
  obtain ⟨sig, heq, -⟩ := sign_eq_ok hb
  rw [heq]
  exact congrArg (·.toBlockHeader) (fields_of_finishNextUnsigned hr).2.1

/-- **A header that a producer signed is accepted**, with the state that the producer computed, if
the validator accepts its feature activations. -/
theorem next_of_finishNextSigned {h : SignedBlockHeader}
    (hp : s.nextPending env when_ n = .ok p) (hs : p.finishNextSigned env h signer = .ok bsp)
    (hvalid : ∀ fs, h.headerExtensions.findSome? HeaderExtension.newProtocolFeatures = some fs →
      env.validator p.timestamp p.prevActivatedProtocolFeatures fs = .ok ()) :
    s.next env bsp.header bsp.additionalSignatures false = .ok bsp ∧
      bsp.additionalSignatures.Nodup := by
  simp only [finishNextSigned, bind_eq_ok, pure_eq_ok, sysAssert_eq_ok] at hs
  obtain ⟨r, hr, b, hb, -, hwtm, rfl⟩ := hs
  obtain ⟨sig, heq, hverify, hnodup⟩ := sign_eq_ok hb
  have hfin : p.finishNextUnsigned env { h with producerSignature := sig } =
      .ok { r with header := { h with producerSignature := sig } } :=
    finishNextUnsigned_of_validator sig rfl hr hvalid
  obtain ⟨-, hkept, hts, hconf, -⟩ := fields_of_finishNextUnsigned hr
  have hheader : b.header = { h with producerSignature := sig } := by
    rw [heq, ← hkept]
  have hpend : s.nextPending env b.header.timestamp b.header.confirmed = .ok p := by
    rw [hheader, ← nextPending_idem hp]
    exact congrArg₂ (s.nextPending env) hts hconf
  refine ⟨?_, hnodup⟩
  simp only [next, finishNext, bind_eq_ok, sysAssert_eq_ok]
  refine ⟨p, hpend, (), hwtm, _, hheader ▸ hfin, ?_⟩
  -- both sides are the state of the producer
  have hsame : ({ r with
      header := b.header
      additionalSignatures := b.additionalSignatures } : BlockHeaderState) = b := by
    rw [heq]
  simp only [hsame, Bool.false_eq_true, if_false, bind_eq_ok]
  exact ⟨(), hverify, rfl⟩

end BlockHeaderState

/-! ### Made headers -/

variable {exts : List HeaderExtension} {e : HeaderExtension} {features : List Sha256}
  {h : BlockHeader} {newProducers : Option ProducerAuthoritySchedule} {sHeader : Option SHeader}
  {trxMroot actionMroot : Sha256}

section Headers

variable {env : HeaderEnv}

lemma mem_emplaceExtension {x : HeaderExtension} :
    x ∈ emplaceExtension exts e ↔ x = e ∨ x ∈ exts := by
  have hsplit := takeWhile_append_dropWhile (p := fun y => decide (y.id ≤ e.id)) (l := exts)
  unfold emplaceExtension
  rw [mem_append, mem_cons, or_left_comm, ← mem_append, hsplit]

/-- The extensions that `make_block_header` starts with: the features, if any are activated. -/
lemma mem_featureExtensions (he : e ∈ (if features.length > 0 then
      emplaceExtension [] (.protocolFeatureActivation features) else [])) :
    e = .protocolFeatureActivation features := by
  split_ifs at he
  · simpa [mem_emplaceExtension] using he
  · exact absurd he not_mem_nil

section

variable (hm : p.makeBlockHeader env trxMroot actionMroot newProducers features sHeader = .ok h)
include hm

/-- What `make_block_header` writes into a header: the roots it is given, and before the extension
of the settlement chain only the features and a new schedule. -/
lemma PendingBlockHeaderState.makeBlockHeader_eq_ok :
    ∃ exts, h.transactionMroot = trxMroot ∧ h.previous = p.previous ∧
      h.headerExtensions = (sHeader.map fun s => emplaceExtension exts (.sRoot s)).getD exts ∧
      ∀ e ∈ exts, e = .protocolFeatureActivation features ∨
        ∃ schedule, e = .producerScheduleChange schedule := by
  unfold makeBlockHeader at hm
  cases newProducers with
  | none =>
    simp only [bind_eq_ok, pure_eq_ok] at hm
    obtain ⟨_, rfl, rfl⟩ := hm
    exact ⟨_, rfl, rfl, rfl, fun e he => .inl (mem_featureExtensions he)⟩
  | some schedule =>
    by_cases hwtm : p.wtmsigEnabled env = true
    · simp only [hwtm, if_true, bind_eq_ok, pure_eq_ok] at hm
      obtain ⟨_, rfl, rfl⟩ := hm
      refine ⟨_, rfl, rfl, rfl, fun e he => ?_⟩
      rcases mem_emplaceExtension.mp he with rfl | he
      · exact .inr ⟨schedule, rfl⟩
      · exact .inl (mem_featureExtensions he)
    · simp only [if_neg hwtm, bind_eq_ok, pure_eq_ok] at hm
      obtain ⟨downgraded, -, _, rfl, rfl⟩ := hm
      exact ⟨_, rfl, rfl, rfl, fun e he => .inl (mem_featureExtensions he)⟩

/-- The features that a made header activates are those it was made with. -/
lemma PendingBlockHeaderState.newProtocolFeatures_of_makeBlockHeader
    (hf : h.headerExtensions.findSome? HeaderExtension.newProtocolFeatures = some fs) :
    fs = features := by
  obtain ⟨e, hmem, he⟩ := exists_of_findSome?_eq_some hf
  obtain ⟨exts, -, -, hexts, hbase⟩ := makeBlockHeader_eq_ok hm
  have hcases : e ∈ exts ∨ ∃ x, e = .sRoot x := by
    rw [hexts] at hmem
    cases sHeader with
    | none => exact .inl hmem
    | some x => exact (mem_emplaceExtension.mp hmem).symm.imp_right fun h => ⟨x, h⟩
  rcases hcases with hmem | ⟨x, rfl⟩
  · rcases hbase e hmem with rfl | ⟨schedule, rfl⟩
    · exact (Option.some.inj he).symm
    · cases he
  · cases he

end

lemma findSome?_emplaceExtension_of_none
    (he : f e = none) : (emplaceExtension exts e).findSome? f = exts.findSome? f := by
  have hsplit := takeWhile_append_dropWhile (p := fun y => decide (y.id ≤ e.id)) (l := exts)
  conv_rhs => rw [← hsplit]
  rw [emplaceExtension, findSome?_append, findSome?_append, findSome?_cons, he]

lemma findSome?_emplaceExtension_of_forall
    (hexts : ∀ x ∈ exts, f x = none) : (emplaceExtension exts e).findSome? f = f e := by
  have htake : (exts.takeWhile fun y => decide (y.id ≤ e.id)).findSome? f = none := by
    rw [findSome?_eq_none_iff]
    exact fun x hx => hexts x (takeWhile_subset _ hx)
  have hdrop : (exts.dropWhile fun y => decide (y.id ≤ e.id)).findSome? f = none := by
    rw [findSome?_eq_none_iff]
    exact fun x hx => hexts x (dropWhile_subset _ hx)
  rw [emplaceExtension, findSome?_append, htake, Option.none_or, findSome?_cons, hdrop]
  cases f e <;> rfl

lemma PendingBlockHeaderState.sHeader_of_makeBlockHeader
    (hm : p.makeBlockHeader env trxMroot actionMroot newProducers features sHeader = .ok h) :
    h.sHeader = sHeader := by
  obtain ⟨exts, -, -, hexts, hbase⟩ := makeBlockHeader_eq_ok hm
  have hnone : ∀ e ∈ exts, e.sHeader = none := by
    intro e he
    rcases hbase e he with rfl | ⟨schedule, rfl⟩ <;> rfl
  rw [BlockHeader.sHeader, hexts]
  cases sHeader with
  | none => exact findSome?_eq_none_iff.mpr hnone
  | some x => exact findSome?_emplaceExtension_of_forall hnone

lemma PendingBlockHeaderState.downgradeProducers_eq_ok {schedule : ProducerAuthoritySchedule}
    {l : LegacyProducerSchedule} (h : downgradeProducers schedule = .ok l) :
    l.version = schedule.version ∧ l.producers.length = schedule.producers.length := by
  simp only [downgradeProducers, bind_eq_ok, pure_eq_ok] at h
  obtain ⟨producers, hproducers, rfl⟩ := h
  exact ⟨rfl, (Result.mapM_eq_ok.mp hproducers).length_eq.symm⟩

/-- Which features a made header activates, and which schedule it announces: in an extension or,
with the same version and number of producers, in `new_producers`. -/
lemma PendingBlockHeaderState.makeBlockHeader_contents
    (hm : p.makeBlockHeader env trxMroot actionMroot newProducers features sHeader = .ok h) :
    h.headerExtensions.findSome? HeaderExtension.newProtocolFeatures =
        (if features = [] then none else some features) ∧
      (newProducers = none → h.newProducers = none ∧
        h.headerExtensions.findSome? HeaderExtension.newSchedule = none) ∧
      ∀ schedule, newProducers = some schedule → h.newProducers = none ∧
          h.headerExtensions.findSome? HeaderExtension.newSchedule = some schedule ∨
        ∃ l, h.newProducers = some l ∧ l.version = schedule.version ∧
          l.producers.length = schedule.producers.length ∧
          h.headerExtensions.findSome? HeaderExtension.newSchedule = none := by
  -- the first extension, and what the last one adds to any list of extensions
  have hfirst : (if features.length > 0 then
      emplaceExtension [] (.protocolFeatureActivation features) else []).findSome?
        HeaderExtension.newProtocolFeatures = (if features = [] then none else some features) := by
    cases features <;> rfl
  have hfirst' : (if features.length > 0 then
      emplaceExtension [] (.protocolFeatureActivation features) else []).findSome?
        HeaderExtension.newSchedule = none := by
    cases features <;> rfl
  have hlast : ∀ {α : Type} (f : HeaderExtension → Option α) (exts : List HeaderExtension),
      (∀ x, f (.sRoot x) = none) →
      ((sHeader.map fun s => emplaceExtension exts (.sRoot s)).getD exts).findSome? f =
        exts.findSome? f := by
    intro α f exts hf
    cases sHeader with
    | none => rfl
    | some x => exact findSome?_emplaceExtension_of_none (hf x)
  unfold makeBlockHeader at hm
  cases newProducers with
  | none =>
    simp only [bind_eq_ok, pure_eq_ok] at hm
    obtain ⟨_, rfl, rfl⟩ := hm
    exact ⟨(hlast _ _ fun _ => rfl).trans hfirst,
      fun _ => ⟨rfl, (hlast _ _ fun _ => rfl).trans hfirst'⟩, by simp⟩
  | some =>
    by_cases hwtm : p.wtmsigEnabled env = true
    · simp only [hwtm, if_true, bind_eq_ok, pure_eq_ok] at hm
      obtain ⟨_, rfl, rfl⟩ := hm
      refine ⟨(hlast _ _ fun _ => rfl).trans
        ((findSome?_emplaceExtension_of_none rfl).trans hfirst), by simp, ?_⟩
      rintro _ ⟨⟩
      refine .inl ⟨rfl, (hlast _ _ fun _ => rfl).trans ?_⟩
      refine findSome?_emplaceExtension_of_forall fun x hx => ?_
      rw [mem_featureExtensions hx]
      rfl
    · simp only [if_neg hwtm, bind_eq_ok, pure_eq_ok] at hm
      obtain ⟨l, hl, _, rfl, rfl⟩ := hm
      obtain ⟨hversion, hlength⟩ := downgradeProducers_eq_ok hl
      refine ⟨(hlast _ _ fun _ => rfl).trans hfirst, by simp, ?_⟩
      rintro _ ⟨⟩
      exact .inr ⟨l, rfl, hversion, hlength, (hlast _ _ fun _ => rfl).trans hfirst'⟩

end Headers

/-! ### The building block -/

namespace Controller

variable {env : ControllerEnv}

/-- The controller builds a block over the pending state `p` with the given feature activations and
S-header, `flag` being the state of the feature that selects the digests of receipts. -/
structure Building (env : ControllerEnv) (p : PendingBlockHeaderState) (features : List Sha256)
    (sHeader : Option SHeader) (flag : Bool) (c : Controller) : Prop where
  flag_eq : c.isBuiltinActivated .disableCompressionInTransactionMerkle = flag
  pending_eq : ∃ bb status, c.pending = some ⟨.building bb, status⟩ ∧
    bb.pendingBlockHeaderState = p ∧ bb.newProtocolFeatureActivations = features ∧
    bb.sHeader = sHeader ∧
    bb.trxMrootOrReceiptDigests = .inr (bb.pendingTrxReceipts.map (env.receiptDigest flag))

variable {c started : Controller} {plan : ProductionPlan}

lemma startBlock_eq_ok {status : BlockStatus}
    (h : c.startBlock env when_ n features status = .ok started) :
    ∃ p, c.head.nextPending env.toHeaderEnv when_ n = .ok p ∧ Building env p features none
        (started.isBuiltinActivated .disableCompressionInTransactionMerkle) started := by
  simp only [startBlock, bind_eq_ok] at h
  obtain ⟨-, -, p, hp, h⟩ := h
  refine ⟨p, hp, rfl, ?_⟩
  split_ifs at h
  · rw [pure_eq_ok] at h
    exact ⟨_, status, by rw [← h], rfl, rfl, rfl, rfl⟩
  · simp only [prepareBlock, bind_eq_ok, pure_eq_ok] at h
    obtain ⟨_, -, -, -, promoted, -, h⟩ := h
    exact ⟨_, status, by rw [← h], rfl, rfl, rfl, rfl⟩

section Building

variable {flag : Bool} {c' : Controller} {bb : BuildingBlock} {status : BlockStatus}

section

variable (hb : Building env p features sHeader flag c)
include hb

lemma Building.buildingBlock_eq (h : c.buildingBlock = .ok (bb, status)) :
    c.pending = some ⟨.building bb, status⟩ ∧ bb.pendingBlockHeaderState = p ∧
      bb.newProtocolFeatureActivations = features ∧ bb.sHeader = sHeader ∧
      bb.trxMrootOrReceiptDigests = .inr (bb.pendingTrxReceipts.map (env.receiptDigest flag)) := by
  obtain ⟨bb', status', hpend, hrest⟩ := hb.pending_eq
  unfold buildingBlock at h
  rw [hpend] at h
  cases h
  exact ⟨hpend, hrest⟩

/-- Replacing the building block does not change which features are active. -/
lemma Building.of_replace {sHeader' : Option SHeader} (hp : bb.pendingBlockHeaderState = p)
    (hf : bb.newProtocolFeatureActivations = features) (hs : bb.sHeader = sHeader')
    (hd : bb.trxMrootOrReceiptDigests = .inr (bb.pendingTrxReceipts.map (env.receiptDigest flag))) :
    Building env p features sHeader' flag { c with pending := some ⟨.building bb, status⟩ } := by
  refine ⟨?_, bb, status, rfl, hp, hf, hs, hd⟩
  obtain ⟨bb', status', hpend, -⟩ := hb.pending_eq
  rw [← hb.flag_eq]
  simp [isBuiltinActivated, hpend]

lemma Building.pushReceipt {r : ReceiptInput}
    (h : c.pushReceipt env r = .ok c') : Building env p features sHeader flag c' := by
  simp only [Controller.pushReceipt, bind_eq_ok, pure_eq_ok] at h
  obtain ⟨-, -, ⟨bb, status⟩, hbb, rfl⟩ := h
  obtain ⟨-, hp, hf, hs, hd⟩ := hb.buildingBlock_eq hbb
  refine hb.of_replace hp hf hs ?_
  show bb.trxMrootOrReceiptDigests.map id (· ++ [env.receiptDigest _ r.receipt]) = _
  rw [hd, hb.flag_eq, map_append]
  rfl

lemma Building.pushReceipts {rs : List ReceiptInput}
    (h : rs.foldlM (Controller.pushReceipt env) c = .ok c') :
    Building env p features sHeader flag c' := by
  refine foldlM_induction
    (R := fun c c' => Building env p features sHeader flag c →
      Building env p features sHeader flag c')
    (fun _ h => h) (fun _ _ _ h1 h2 h => h2 (h1 h)) (fun _ _ _ h hb => hb.pushReceipt h) h hb

lemma Building.addDigests
    (h : c.addDigests digests = .ok c') : Building env p features sHeader flag c' := by
  simp only [Controller.addDigests, bind_eq_ok, pure_eq_ok] at h
  obtain ⟨⟨bb, status⟩, hbb, rfl⟩ := h
  obtain ⟨-, hp, hf, hs, hd⟩ := hb.buildingBlock_eq hbb
  exact hb.of_replace hp hf hs hd

lemma Building.setSHeader {x : SHeader}
    (h : c.setSHeader x = .ok c') : Building env p features (some x) flag c' := by
  simp only [Controller.setSHeader, bind_eq_ok, pure_eq_ok] at h
  obtain ⟨⟨bb, status⟩, hbb, rfl⟩ := h
  obtain ⟨-, hp, hf, -, hd⟩ := hb.buildingBlock_eq hbb
  exact hb.of_replace hp hf rfl hd

/-- A block that has been finished, from the controller that was building it. -/
lemma Building.finishBlock
    (h : c.finishBlock env signer = .ok c') : ∃ cb header, c'.completedBlock = some cb ∧
      p.finishNextSigned env.toHeaderEnv header signer = .ok cb.blockState ∧
      (∀ fs, header.headerExtensions.findSome? HeaderExtension.newProtocolFeatures = some fs →
        fs = features) ∧ header.sHeader = sHeader ∧
      header.transactionMroot = env.calculateTrxMerkle cb.block.transactions flag ∧
      cb.block.toSignedBlockHeader = cb.blockState.header ∧
      cb.block.blockExtensions = SignedBlock.extensionsOf cb.blockState.additionalSignatures := by
  simp only [Controller.finishBlock, finalizeBlock, bind_eq_ok, pure_eq_ok] at h
  obtain ⟨_, ⟨⟨bb, status⟩, hbb, header, hheader, rfl⟩, hcomp⟩ := h
  obtain ⟨-, hpbhs, hfeatures, hs, hdigests⟩ := hb.buildingBlock_eq hbb
  simp only [completeBlock, bind_eq_ok, pure_eq_ok] at hcomp
  obtain ⟨bsp, hsigned, rfl⟩ := hcomp
  obtain ⟨exts, hroot, -⟩ := makeBlockHeader_eq_ok hheader
  refine ⟨_, ⟨header, ⟨0⟩⟩, rfl, hpbhs ▸ hsigned, ?_, ?_, ?_, rfl, rfl⟩
  · intro fs hfs
    rw [← hfeatures]
    exact newProtocolFeatures_of_makeBlockHeader hheader hfs
  · rw [← hs]
    exact sHeader_of_makeBlockHeader hheader
  · show header.transactionMroot = env.calculateTrxMerkle bb.pendingTrxReceipts _
    rw [hroot, trxMroot, hdigests]
    rfl

end

end Building

lemma buildBlock_eq_ok (h : c.buildBlock env plan = .ok (started, filled)) :
    ∃ p, c.head.nextPending env.toHeaderEnv plan.when_ plan.confirmBlockCount = .ok p ∧
      c.validateProtocolFeatures env plan.newProtocolFeatureActivations = .ok () ∧
      Building env p plan.newProtocolFeatureActivations none
        (started.isBuiltinActivated .disableCompressionInTransactionMerkle) filled := by
  simp only [buildBlock, bind_eq_ok, pure_eq_ok, Prod.mk.injEq] at h
  obtain ⟨_, hvalid, c1, hstart, c2, hpush, c3, hadd, rfl, rfl⟩ := h
  obtain ⟨p, hp, hb⟩ := startBlock_eq_ok hstart
  exact ⟨p, hp, hvalid, (hb.pushReceipts hpush).addDigests hadd⟩

/-- Production finishes a building block: the one it was given, or the one with the S-header. -/
lemma finishBlock_of_produceBlock {c' : Controller}
    (h : (sc.produceBlock env c signer).2 = .ok c') :
    c.finishBlock env signer = .ok c' ∨
      ∃ sHeader c1, c.setSHeader sHeader = .ok c1 ∧ c1.finishBlock env signer = .ok c' := by
  cases hbb : c.buildingBlock with
  | error e =>
    rw [SubChain.produceBlock, hbb] at h
    cases h
  | ok x =>
    by_cases hnil : sc.findRelevantTransactions x.1.pendingTrxReceipts = []
    · rw [SubChain.produceBlock_of_eq_nil signer hbb hnil] at h
      exact .inl h
    · obtain ⟨c1, hset, heq⟩ := @SubChain.produceBlock_of_ne_nil env sc c x.1 x.2 signer hbb hnil
      rw [heq] at h
      exact .inr ⟨_, c1, hset, h⟩

/-- **What a produced block contains**: its root is the one of its receipts under the feature state
of its start, and its header and extensions are those of the state that was signed. -/
theorem produceBlock_eq_ok (h : c.produceBlock env sc plan = .ok (started, completed)) :
    ∃ cb p header, completed.completedBlock = some cb ∧
      c.head.nextPending env.toHeaderEnv plan.when_ plan.confirmBlockCount = .ok p ∧
      p.finishNextSigned env.toHeaderEnv header plan.signer = .ok cb.blockState ∧
      c.validateProtocolFeatures env plan.newProtocolFeatureActivations = .ok () ∧
      (∀ fs, header.headerExtensions.findSome? HeaderExtension.newProtocolFeatures = some fs →
        fs = plan.newProtocolFeatureActivations) ∧
      header.transactionMroot = env.calculateTrxMerkle cb.block.transactions
        (started.isBuiltinActivated .disableCompressionInTransactionMerkle) ∧
      cb.block.toSignedBlockHeader = cb.blockState.header ∧
      cb.block.blockExtensions = SignedBlock.extensionsOf cb.blockState.additionalSignatures := by
  simp only [produceBlock, bind_eq_ok, pure_eq_ok, Prod.mk.injEq] at h
  obtain ⟨⟨c1, filled⟩, hbuild, c2, hprod, rfl, rfl⟩ := h
  obtain ⟨p, hp, hvalid, hb⟩ := buildBlock_eq_ok hbuild
  have hfinish : ∃ c3 x, Building env p plan.newProtocolFeatureActivations x
      (c1.isBuiltinActivated .disableCompressionInTransactionMerkle) c3 ∧
      c3.finishBlock env plan.signer = .ok c2 := by
    rcases finishBlock_of_produceBlock hprod with hfin | ⟨sHeader, c3, hset, hfin⟩
    · exact ⟨filled, none, hb, hfin⟩
    · exact ⟨c3, _, hb.setSHeader hset, hfin⟩
  obtain ⟨c3, x, hb3, hfin⟩ := hfinish
  obtain ⟨cb, header, hcb, hsigned, hfeatures, -, hrest⟩ := hb3.finishBlock hfin
  exact ⟨cb, p, header, hcb, hp, hsigned, hvalid, hfeatures, hrest⟩

/-! ### A concrete controller -/

/-- The feature that selects the digests, with the two it depends on; none needs a preactivation. -/
def demoFeatureSet : ProtocolFeatureSet where
  recognized := Table.empty
    |>.upsert ⟨⟨0, 0, 0, 1⟩, [], 0, false, true, some .disableDeferredTrxsStage1⟩
    |>.upsert ⟨⟨0, 0, 0, 2⟩, [⟨0, 0, 0, 1⟩], 0, false, true, some .disableDeferredTrxsStage2⟩
    |>.upsert ⟨⟨0, 0, 0, 3⟩, [⟨0, 0, 0, 2⟩], 0, false, true,
      some .disableCompressionInTransactionMerkle⟩

/-- Hash functions that tell the two digests of a packed transaction apart. -/
def demoControllerEnv : ControllerEnv where
  toHeaderEnv := { BlockHeaderState.demoEnv with
    validator := demoFeatureSet.checkProtocolFeatures }
  hashReceipt _ _ _ digest := digest
  hashPrunable _ _ := Sha256.zero
  hashPacked _ _ _ := ⟨0, 0, 0, 4⟩
  hashUnpacked _ _ trxId := trxId
  transactionId _ := ⟨0, 0, 0, 5⟩
  protocolFeatureSet := demoFeatureSet
  validator_eq := rfl
  wtmsigDigest_eq := by decide

/-- A controller whose head is the genesis block. -/
def demoController : Controller where
  forkDb := ⟨Table.empty, some ⟨BlockHeaderState.demoGenesis 1, true, by decide⟩,
    some ⟨BlockHeaderState.demoGenesis 1, true, by decide⟩⟩
  head := ⟨BlockHeaderState.demoGenesis 1, true, by decide⟩
  pending := none
  protocolFeatures := .new demoFeatureSet
  preactivatedProtocolFeatures := []
  proposedSchedule := none

end Controller

end Sysio
