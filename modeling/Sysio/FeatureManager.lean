import Sysio.ProtocolFeature

/-!
# Feature sets and managers

Every feature of a set that `add_feature` has filled is a built-in one, and no two are the same
(`Built`).  Over such a set, the manager is a function of the list of activations (`managerOf`):
activating appends to the list (`activateFeature_managerOf`), never fails for a feature that is not
on the list (`activateFeature_ok`), and popping blocks takes the end of the list off
(`poppedBlocksTo_managerOf`).

`check_protocol_features` is turned into a statement about the positions of a list
(`checkProtocolFeatures_eq_ok`), from which it can be extended, moved to a later time and used to
close a set under dependencies.
-/

namespace Sysio

open Result List Option Table

variable {before current' : List Sha256} {t' : UInt32}

namespace ProtocolFeatureSet

variable {pfs pfs' : ProtocolFeatureSet}

/-! ### Sets -/

/-- The sets that `add_feature` makes. -/
inductive Built : ProtocolFeatureSet → Prop
  | empty : Built ⟨Table.empty⟩
  | add {pfs pfs' : ProtocolFeatureSet} {f : ProtocolFeature} {codename : BuiltinProtocolFeature}
      (h : Built pfs) (hadd : pfs.addFeature f codename = .ok pfs') : Built pfs'

/-- The built-in feature with the given digest. -/
def builtinOf (pfs : ProtocolFeatureSet) (d : Sha256) : Option BuiltinProtocolFeature :=
  (pfs.recognized.find? d).bind (·.builtinFeature)

variable {codename : BuiltinProtocolFeature} {f : ProtocolFeature} {d : Sha256}
  {current fs : List Sha256}

lemma addFeature_eq_ok
    (h : pfs.addFeature f codename = .ok pfs') : pfs.getBuiltinDigest codename = none ∧
      pfs'.recognized = pfs.recognized.upsert { f with builtinFeature := some codename } := by
  simp only [addFeature, bind_eq_ok, sysAssert_eq_ok, pure_eq_ok] at h
  obtain ⟨-, hnone, -, -, -, -, -, -, rfl⟩ := h
  exact ⟨hnone, rfl⟩

lemma ne_of_getBuiltinDigest_eq_none
    (h : pfs.getBuiltinDigest codename = none) : pfs.builtinOf d ≠ some codename := by
  intro hd
  obtain ⟨f, hf, hb⟩ := bind_eq_some_iff.mp hd
  rw [getBuiltinDigest, map_eq_none_iff, List.find?_eq_none] at h
  exact h f (mem_of_find? hf) (decide_eq_true hb)

lemma builtinOf_upsert (d : Sha256)
    (h : pfs'.recognized = pfs.recognized.upsert { f with builtinFeature := some codename }) :
    pfs'.builtinOf d = if f.featureDigest = d then some codename else pfs.builtinOf d := by
  rw [builtinOf, h, find?_upsert]
  split_ifs <;> rfl

lemma Built.builtinOf_isSome (hb : Built pfs)
    (h : pfs.recognized.find? d = some f) : ∃ b, pfs.builtinOf d = some b := by
  induction hb with
  | empty => cases h
  | add _ hadd ih =>
    obtain ⟨-, heq⟩ := addFeature_eq_ok hadd
    rw [builtinOf_upsert d heq]
    rw [heq, find?_upsert] at h
    split_ifs at h ⊢ with hd
    · exact ⟨_, rfl⟩
    · exact ih h

lemma Built.builtinOf_inj (hb : Built pfs) {d' : Sha256} {b : BuiltinProtocolFeature}
    (h : pfs.builtinOf d = some b) (h' : pfs.builtinOf d' = some b) : d = d' := by
  induction hb with
  | empty => cases h
  | add _ hadd ih =>
    obtain ⟨hnone, heq⟩ := addFeature_eq_ok hadd
    rw [builtinOf_upsert _ heq] at h h'
    split_ifs at h h' with hd hd' hd'
    · rw [← hd, ← hd']
    · cases h
      exact absurd h' (ne_of_getBuiltinDigest_eq_none hnone)
    · cases h'
      exact absurd h (ne_of_getBuiltinDigest_eq_none hnone)
    · exact ih h h'

/-! ### `check_protocol_features` -/

/-- The feature can be activated after `before`, when `current` are active. -/
structure CanActivate (pfs : ProtocolFeatureSet) (timestamp : UInt32) (current before : List Sha256)
    (d : Sha256) : Prop where
  ready : pfs.isRecognized d (slotTime timestamp) = .ready
  new : d ∉ current
  dependencies : ∃ f, pfs.recognized.find? d = some f ∧
    ∀ x ∈ f.dependencies, x ∈ current ∨ x ∈ before

lemma validateDependencies_eq_true {p : Sha256 → Bool} : pfs.validateDependencies d p = true ↔
      ∃ f, pfs.recognized.find? d = some f ∧ ∀ x ∈ f.dependencies, p x = true := by
  unfold validateDependencies
  cases pfs.recognized.find? d with
  | none => simp
  | some f => simp

variable {timestamp t : UInt32}

lemma checkNewFeatures_eq_ok :
    pfs.checkNewFeatures timestamp current before fs = .ok () ↔
      ∀ pre d post, fs = pre ++ d :: post →
        pfs.CanActivate timestamp current (before ++ pre) d := by
  induction fs generalizing before with
  | nil => simp [checkNewFeatures]
  | cons f fs ih =>
    simp only [checkNewFeatures, bind_eq_ok, sysAssert_eq_ok, ih, validateDependencies_eq_true,
      decide_eq_true_eq]
    constructor
    · rintro ⟨_, hready, _, hnew, _, hdeps, hrest⟩ pre d post heq
      cases pre with
      | nil =>
        obtain ⟨rfl, rfl⟩ := List.cons.inj heq
        rw [append_nil]
        exact ⟨checkRecognized_eq_ok.mp hready, hnew, hdeps⟩
      | cons f' pre =>
        obtain ⟨rfl, rfl⟩ := List.cons.inj heq
        have := hrest pre d post rfl
        rwa [append_assoc] at this
    · intro h
      have hfirst := h [] f fs rfl
      rw [append_nil] at hfirst
      refine ⟨(), checkRecognized_eq_ok.mpr hfirst.ready, (), hfirst.new, (), hfirst.dependencies,
        ?_⟩
      intro pre d post heq
      have := h (f :: pre) d post (by rw [heq]; rfl)
      rwa [append_assoc]

/-- `check_protocol_features`, by the positions of the new features. -/
lemma checkProtocolFeatures_eq_ok : pfs.checkProtocolFeatures timestamp current fs = .ok () ↔
      ∀ pre d post, fs = pre ++ d :: post → pfs.CanActivate timestamp current pre d :=
  checkNewFeatures_eq_ok

lemma slotTime_mono (h : t ≤ t') : slotTime t ≤ slotTime t' := by
  have hle : t.toNat ≤ t'.toNat := UInt32.le_iff_toNat_le.mp h
  unfold slotTime
  omega

lemma isRecognized_mono {now now' : ℕ} (hle : now ≤ now')
    (h : pfs.isRecognized d now = .ready) : pfs.isRecognized d now' = .ready := by
  unfold isRecognized at h ⊢
  cases hf : pfs.recognized.find? d with
  | none =>
    rw [hf] at h
    cases h
  | some f =>
    rw [hf] at h
    simp only at h ⊢
    split_ifs at h ⊢ with hdisabled hearly
    · omega
    · rfl

/-- A check depends on the set of active features only, and can be made at any later time. -/
lemma checkProtocolFeatures_congr (ht : t ≤ t') (hcurrent : ∀ x, x ∈ current' ↔ x ∈ current)
    (h : pfs.checkProtocolFeatures t current fs = .ok ()) :
    pfs.checkProtocolFeatures t' current' fs = .ok () := by
  rw [checkProtocolFeatures_eq_ok] at h ⊢
  intro pre d post heq
  obtain ⟨hready, hnew, f, hf, hdeps⟩ := h pre d post heq
  refine ⟨isRecognized_mono (slotTime_mono ht) hready, fun hd => hnew ((hcurrent d).mp hd), f, hf,
    fun x hx => ?_⟩
  exact (hdeps x hx).imp_left (hcurrent x).mpr

lemma checkProtocolFeatures_concat
    (h : pfs.checkProtocolFeatures t current fs = .ok ()) (hd : pfs.CanActivate t current fs d) :
    pfs.checkProtocolFeatures t current (fs ++ [d]) = .ok () := by
  rw [checkProtocolFeatures_eq_ok] at h ⊢
  intro pre d' post heq
  rcases eq_nil_or_concat post with rfl | ⟨post, x, rfl⟩
  · obtain ⟨rfl, hlast⟩ := append_inj' heq rfl
    obtain rfl := singleton_inj.mp hlast
    exact hd
  · rw [concat_eq_append, ← cons_append, ← append_assoc] at heq
    exact h pre d' post (append_inj_left' heq rfl)

/-- A set of features that contains what they depend on. -/
def Closed (pfs : ProtocolFeatureSet) (activated : List Sha256) : Prop :=
  ∀ d ∈ activated, ∃ f, pfs.recognized.find? d = some f ∧ ∀ x ∈ f.dependencies, x ∈ activated

lemma Closed.congr {l l' : List Sha256} (h : pfs.Closed l) (heq : ∀ x, x ∈ l' ↔ x ∈ l) :
    pfs.Closed l' := by
  intro d hd
  obtain ⟨f, hf, hdeps⟩ := h d ((heq d).mp hd)
  exact ⟨f, hf, fun x hx => (heq x).mpr (hdeps x hx)⟩

lemma Closed.append (h : pfs.Closed current)
    (hcheck : pfs.checkProtocolFeatures t current fs = .ok ()) : pfs.Closed (current ++ fs) := by
  rw [checkProtocolFeatures_eq_ok] at hcheck
  intro d hd
  rcases mem_append.mp hd with hd | hd
  · obtain ⟨f, hf, hdeps⟩ := h d hd
    exact ⟨f, hf, fun x hx => mem_append_left _ (hdeps x hx)⟩
  · obtain ⟨pre, post, rfl⟩ := append_of_mem hd
    obtain ⟨-, -, f, hf, hdeps⟩ := hcheck pre d post rfl
    refine ⟨f, hf, fun x hx => ?_⟩
    rcases hdeps x hx with hx | hx
    · exact mem_append_left _ hx
    · exact mem_append_right _ (mem_append_left _ hx)

end ProtocolFeatureSet

/-! ### Managers -/

namespace ProtocolFeatureManager

variable {pfs : ProtocolFeatureSet} {m : ProtocolFeatureManager} {l : List (Sha256 × ℕ)}
  {d : Sha256} {n : ℕ}

/-- The activation of a built-in feature. -/
def builtinEntry (pfs : ProtocolFeatureSet) (e : Sha256 × ℕ) :
    Option (BuiltinProtocolFeature × ℕ) :=
  (pfs.builtinOf e.1).map fun b => (b, e.2)

/-- The manager after the given activations. -/
def managerOf (pfs : ProtocolFeatureSet) (l : List (Sha256 × ℕ)) : ProtocolFeatureManager :=
  ⟨pfs, l, (l.filterMap (builtinEntry pfs)).reverse⟩

lemma activateFeature_managerOf (h : (managerOf pfs l).activateFeature d n = .ok m) :
    m = managerOf pfs (l ++ [(d, n)]) := by
  simp only [activateFeature, bind_eq_ok, require_eq_ok, pure_eq_ok] at h
  obtain ⟨f, hf, -, -, b, hb, -, -, rfl⟩ := h
  have hentry : builtinEntry pfs (d, n) = some (b, n) := by
    have hbuiltin : pfs.builtinOf d = some b := bind_eq_some_iff.mpr ⟨f, hf, hb⟩
    rw [builtinEntry, hbuiltin]
    rfl
  simp only [managerOf, filterMap_append, filterMap_cons, hentry, filterMap_nil,
    reverse_append, reverse_cons, reverse_nil, nil_append,
    singleton_append]

lemma activateFeature_ok (hb : pfs.Built) {f : ProtocolFeature}
    (hf : pfs.recognized.find? d = some f) (hnew : d ∉ l.map Prod.fst) (hnum : ∀ e ∈ l, e.2 ≤ n) :
    ∃ m, (managerOf pfs l).activateFeature d n = .ok m := by
  obtain ⟨b, hbd⟩ := hb.builtinOf_isSome hf
  have hbf : f.builtinFeature = some b := by
    rwa [ProtocolFeatureSet.builtinOf, hf] at hbd
  have hinactive : (managerOf pfs l).activationBlockNum b = notActive := by
    have hnone : (managerOf pfs l).builtinActivationList.find? (fun e => e.1 = b) = none := by
      rw [List.find?_eq_none]
      intro e he heb
      obtain ⟨e', he', hentry⟩ := mem_filterMap.mp (mem_reverse.mp he)
      obtain ⟨b', hb', rfl⟩ := map_eq_some_iff.mp hentry
      obtain rfl : b' = b := of_decide_eq_true heb
      exact hnew (List.mem_map.mpr ⟨e', he', hb.builtinOf_inj hb' hbd⟩)
    rw [activationBlockNum, hnone]
    rfl
  have hlast : ∀ last ∈ (managerOf pfs l).activatedProtocolFeatures.getLast?, last.2 ≤ n :=
    fun last hmem => hnum last (mem_of_getLast? hmem)
  simp only [activateFeature, bind_eq_ok, require_eq_ok, sysAssert_eq_ok, pure_eq_ok]
  exact ⟨_, f, hf, (), hlast, b, hbf, (), hinactive, rfl⟩

/-- Popping the blocks above `n` takes off what they activated. -/
lemma poppedBlocksTo_managerOf {new : List (Sha256 × ℕ)} (hold : ∀ e ∈ l, e.2 ≤ n)
    (hnew : ∀ e ∈ new, n < e.2) :
    (managerOf pfs (l ++ new)).poppedBlocksTo n = managerOf pfs l := by
  have hentry : ∀ e b, builtinEntry pfs e = some b → b.2 = e.2 := by
    intro e b hb
    obtain ⟨b', -, rfl⟩ := map_eq_some_iff.mp hb
    rfl
  have hlist : (l ++ new).rdropWhile (fun e => decide (n < e.2)) = l := by
    rw [List.rdropWhile, reverse_append, dropWhile_append_of_pos,
      dropWhile_eq_self_iff.mpr, reverse_reverse]
    · intro hlen
      have hmem : l.reverse[0] ∈ l := mem_reverse.mp (getElem_mem hlen)
      simpa using hold _ hmem
    · intro e he
      exact decide_eq_true (hnew e (mem_reverse.mp he))
  have hbuiltin : ((l ++ new).filterMap (builtinEntry pfs)).reverse.dropWhile
      (fun e => decide (n < e.2)) = (l.filterMap (builtinEntry pfs)).reverse := by
    rw [filterMap_append, reverse_append, dropWhile_append_of_pos, dropWhile_eq_self_iff.mpr]
    · intro hlen
      have hmem := mem_reverse.mp (getElem_mem hlen)
      obtain ⟨e, he, heb⟩ := mem_filterMap.mp hmem
      have hle := hold e he
      rw [← hentry e _ heb] at hle
      simpa using hle
    · intro b hb
      obtain ⟨e, he, heb⟩ := mem_filterMap.mp (mem_reverse.mp hb)
      rw [hentry e b heb]
      exact decide_eq_true (hnew e he)
  simp only [poppedBlocksTo, managerOf, hlist, hbuiltin]

end ProtocolFeatureManager

end Sysio
