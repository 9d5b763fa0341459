import Sysio.Controller.Production
import Sysio.KeyTypes

/-!
# Block signatures

`verify_signee` counts the signatures, collects the recovered keys in a set, counts the keys of the
authority that are in the set and adds up their weights, with a sum that saturates and stops at the
threshold.  For an authority that names no key twice, which is what the validation of a proposed
schedule asks for, all of this comes to three conditions on the keys (`verifySignee_eq_ok`), and
whether they hold does not depend on the order of the signatures (`verifySignee_perm_iff`).
-/

namespace Sysio

open Result List

variable {keys keys' : List PublicKey}

/-- The exact sum of the weights of the keys that are presented. -/
def BlockSigningAuthority.weightOf (a : BlockSigningAuthority) (presentedKeys : List PublicKey) :
    ℕ :=
  ((a.keys.filter (·.key ∈ presentedKeys)).map (·.weight.toNat)).sum

/-- The keys of the authority that are presented. -/
def BlockSigningAuthority.relevant (a : BlockSigningAuthority) (presentedKeys : List PublicKey) :
    List PublicKey :=
  (a.keys.map (·.key)).filter (· ∈ presentedKeys)

/-- The saturating sum reaches the threshold when the exact one does, since the threshold itself is
a 32-bit number. -/
lemma BlockSigningAuthority.keysSatisfyAndRelevant_eq (a : BlockSigningAuthority)
    (presentedKeys : List PublicKey) : a.keysSatisfyAndRelevant presentedKeys =
      (decide (a.threshold.toNat ≤ a.weightOf presentedKeys),
        (a.relevant presentedKeys).length) := by
  have hthreshold := a.threshold.toNat_lt
  unfold keysSatisfyAndRelevant weightOf relevant
  generalize a.threshold.toNat = threshold at hthreshold ⊢
  -- the loop from any sum and any count
  suffices hloop : ∀ (keys : List KeyWeight) (acc : ℕ × ℕ),
      let r := keys.foldl (fun (acc : ℕ × ℕ) (kw : KeyWeight) =>
        if kw.key ∈ presentedKeys then
          (if acc.1 < threshold then acc.1 + min (2 ^ 32 - 1 - acc.1) kw.weight.toNat else acc.1,
            acc.2 + 1)
        else acc) acc
      (threshold ≤ r.1 ↔
        threshold ≤ acc.1 + ((keys.filter (·.key ∈ presentedKeys)).map (·.weight.toNat)).sum) ∧
      r.2 = acc.2 + ((keys.map (·.key)).filter (· ∈ presentedKeys)).length by
    obtain ⟨hsum, hcount⟩ := hloop a.keys (0, 0)
    rw [Prod.mk.injEq, decide_eq_decide, hsum, hcount]
    simp only [Nat.zero_add, true_and]
  intro keys
  induction keys with
  | nil => simp
  | cons kw keys ih =>
    intro acc
    rw [foldl_cons, map_cons]
    by_cases hkw : kw.key ∈ presentedKeys
    · obtain ⟨hsum, hcount⟩ := ih
        (if acc.1 < threshold then acc.1 + min (2 ^ 32 - 1 - acc.1) kw.weight.toNat else acc.1,
          acc.2 + 1)
      rw [if_pos hkw, filter_cons_of_pos (by simpa using hkw),
        filter_cons_of_pos (by simpa using hkw), map_cons, sum_cons, length_cons]
      refine ⟨hsum.trans ?_, by omega⟩
      split_ifs <;> omega
    · rw [if_neg hkw, filter_cons_of_neg (by simpa using hkw),
        filter_cons_of_neg (by simpa using hkw)]
      exact ih acc

/-- Only which keys are presented counts, not their order. -/
lemma BlockSigningAuthority.relevant_weightOf_congr (a : BlockSigningAuthority)
    (h : keys.Perm keys') :
    a.relevant keys = a.relevant keys' ∧ a.weightOf keys = a.weightOf keys' := by
  have hmem : ∀ k, decide (k ∈ keys) = decide (k ∈ keys') := fun k => decide_eq_decide.mpr h.mem_iff
  unfold relevant weightOf
  simp only [hmem, and_self]

namespace BlockHeaderState

/-- The keys recovered from the producer signature and the additional signatures. -/
def signees (env : HeaderEnv) (s : BlockHeaderState) : Result (List PublicKey) :=
  (s.header.producerSignature :: s.additionalSignatures).mapM (env.recover · (s.sigDigest env))

variable {env : HeaderEnv} {s : BlockHeaderState}

/-- `verify_signee`, as four conditions on the recovered keys. -/
lemma verifySignee_eq (hkeys : s.signees env = .ok keys) : s.verifySignee env = (do
    sysAssert (keys.length ≤ s.validBlockSigningAuthority.keys.length) .wrongSigningKey
      "number of block signatures exceeds number of keys in block signing authority"
    sysAssert keys.Nodup .wrongSigningKey "block signed by same key twice"
    sysAssert ((s.validBlockSigningAuthority.relevant keys).length = keys.length) .wrongSigningKey
      "block signed by unexpected key"
    sysAssert (s.validBlockSigningAuthority.threshold.toNat ≤
      s.validBlockSigningAuthority.weightOf keys) .wrongSigningKey
      "block signatures do not satisfy the block signing authority") := by
  obtain ⟨key, new, hkey, hnew, rfl⟩ := forall₂_cons_left_iff.mp (mapM_eq_ok.mp hkeys)
  have hlength : 1 + s.additionalSignatures.length = (key :: new).length := by
    rw [length_cons, hnew.length_eq, Nat.add_comm]
  unfold verifySignee
  dsimp only
  rw [hkey, ok_bind, recoverKeys_eq hnew (nodup_singleton _), ← reverse_cons, hlength]
  by_cases hnodup : (key :: new).Nodup
  · rw [if_pos (nodup_reverse.mpr hnodup), ok_bind, sysAssert.eq_1 (key :: new).Nodup,
      if_pos hnodup, ok_bind, BlockSigningAuthority.keysSatisfyAndRelevant_eq]
    obtain ⟨hrelevant, hweight⟩ :=
      s.validBlockSigningAuthority.relevant_weightOf_congr (key :: new).reverse_perm
    rw [hrelevant, hweight, length_reverse]
    simp only [sysAssert, decide_eq_true_eq]
  · rw [if_neg (mt nodup_reverse.mp hnodup), sysAssert.eq_1 (key :: new).Nodup, if_neg hnodup]
    rfl

/-- Only a block whose signatures all have keys is accepted. -/
lemma signees_of_verifySignee (h : s.verifySignee env = .ok ()) :
    ∃ keys, s.signees env = .ok keys := by
  simp only [verifySignee, bind_eq_ok] at h
  obtain ⟨-, -, key, hkey, keys, hkeys, -⟩ := h
  obtain ⟨new, hnew⟩ := recovered_of_recoverKeys hkeys
  exact ⟨key :: new, mapM_eq_ok.mpr (.cons hkey hnew)⟩

/-- The keys are all in an authority without duplicates when as many of its keys are presented. -/
lemma length_relevant_eq_iff {a : BlockSigningAuthority}
    (ha : (a.keys.map (·.key)).Nodup) (hkeys : keys.Nodup) :
    (a.relevant keys).length = keys.length ↔ ∀ k ∈ keys, k ∈ a.keys.map (·.key) := by
  have hmem : ∀ k, k ∈ a.relevant keys ↔ k ∈ a.keys.map (·.key) ∧ k ∈ keys := by
    simp [BlockSigningAuthority.relevant]
  have hnodup : (a.relevant keys).Nodup := ha.filter _
  constructor
  · intro heq k hk
    have hsub : (a.relevant keys).Subperm keys :=
      subperm_of_subset hnodup fun x hx => ((hmem x).mp hx).2
    have hperm := hsub.perm_of_length_le heq.ge
    exact ((hmem k).mp (hperm.mem_iff.mpr hk)).1
  · intro h
    refine ((perm_ext_iff_of_nodup hnodup hkeys).mpr fun k => ?_).length_eq
    rw [hmem]
    exact and_iff_right_of_imp (h k)

lemma verifySignee_eq_ok (ha : (s.validBlockSigningAuthority.keys.map (·.key)).Nodup) :
    s.verifySignee env = .ok () ↔ ∃ keys, s.signees env = .ok keys ∧ keys.Nodup ∧
      (∀ k ∈ keys, k ∈ s.validBlockSigningAuthority.keys.map (·.key)) ∧
      s.validBlockSigningAuthority.threshold.toNat ≤
        s.validBlockSigningAuthority.weightOf keys := by
  constructor
  · intro h
    obtain ⟨keys, hkeys⟩ := signees_of_verifySignee h
    simp only [verifySignee_eq hkeys, bind_eq_ok, sysAssert_eq_ok, exists_const] at h
    obtain ⟨-, hnodup, hcount, hweight⟩ := h
    exact ⟨keys, hkeys, hnodup, (length_relevant_eq_iff ha hnodup).mp hcount, hweight⟩
  · rintro ⟨keys, hkeys, hnodup, hmem, hweight⟩
    have hcount := (length_relevant_eq_iff ha hnodup).mpr hmem
    simp only [verifySignee_eq hkeys, bind_eq_ok, sysAssert_eq_ok, exists_const]
    refine ⟨?_, hnodup, hcount, hweight⟩
    -- as many keys as signatures are found among the keys of the authority
    rw [← hcount]
    exact (length_filter_le _ _).trans (length_map _).le

section order

variable {sigs : List Signature}

lemma signees_perm (h : sigs.Perm s.additionalSignatures) (hkeys : s.signees env = .ok keys) :
    ∃ keys', { s with additionalSignatures := sigs }.signees env = .ok keys' ∧
      keys'.Perm keys := by
  obtain ⟨keys', hkeys', hperm⟩ := perm_comp_forall₂ (h.cons _) (mapM_eq_ok.mp hkeys)
  exact ⟨keys', mapM_eq_ok.mpr hkeys', hperm⟩

/-- With a key for every signature, the outcome is the same for every order of the signatures, the
exception included. -/
lemma verifySignee_perm (h : sigs.Perm s.additionalSignatures) (hkeys : s.signees env = .ok keys) :
    { s with additionalSignatures := sigs }.verifySignee env = s.verifySignee env := by
  obtain ⟨keys', hkeys', hperm⟩ := signees_perm h hkeys
  obtain ⟨hrelevant, hweight⟩ := s.validBlockSigningAuthority.relevant_weightOf_congr hperm
  rw [verifySignee_eq hkeys', verifySignee_eq hkeys]
  simp only [sysAssert, hrelevant, hweight, hperm.length_eq, hperm.nodup_iff]

lemma verifySignee_perm_iff (h : sigs.Perm s.additionalSignatures) :
    { s with additionalSignatures := sigs }.verifySignee env = .ok () ↔
      s.verifySignee env = .ok () := by
  constructor
  · intro hok
    obtain ⟨keys, hkeys⟩ := signees_of_verifySignee hok
    exact (verifySignee_perm h.symm hkeys).trans hok
  · intro hok
    obtain ⟨keys, hkeys⟩ := signees_of_verifySignee hok
    exact (verifySignee_perm h hkeys).trans hok

end order

/-- **The signatures of a block are accepted exactly when they satisfy the authority**: for an
authority that the validation of schedules accepts, every signature has a key, and the recovered
keys are pairwise distinct, belong to the authority and have enough weight.  The order of the
additional signatures does not matter for this.  Nor does it matter for the exception, if every
signature has a key; otherwise a key that comes twice and a malformed signature are reported as they
come. -/
theorem verifySignee_iff {senv : ScheduleEnv} {numSupportedKeyTypes : ℕ} {validateKeys : Bool}
    {p : ProducerAuthority}
    (hp : checkScheduleProducer senv numSupportedKeyTypes validateKeys p = .ok ())
    (env : HeaderEnv) (s : BlockHeaderState) (hs : s.validBlockSigningAuthority = p.authority) :
    (s.verifySignee env = .ok () ↔ ∃ keys, s.signees env = .ok keys ∧ keys.Nodup ∧
      (∀ k ∈ keys, k ∈ p.authority.keys.map (·.key)) ∧
      p.authority.threshold.toNat ≤ p.authority.weightOf keys) ∧
    ∀ sigs : List Signature, sigs.Perm s.additionalSignatures →
      ({ s with additionalSignatures := sigs }.verifySignee env = .ok () ↔
        s.verifySignee env = .ok ()) ∧
      ∀ keys, s.signees env = .ok keys →
        { s with additionalSignatures := sigs }.verifySignee env = s.verifySignee env := by
  simp only [checkScheduleProducer, bind_eq_ok, sysAssert_eq_ok] at hp
  obtain ⟨-, -, -, -, -, hnodup, -⟩ := hp
  rw [← hs] at hnodup ⊢
  exact ⟨verifySignee_eq_ok hnodup, fun sigs hperm =>
    ⟨verifySignee_perm_iff hperm, fun keys => verifySignee_perm hperm⟩⟩

/-- A recovery that reads the key off the signature, and throws for the signature `0`. -/
def demoRecovery : HeaderEnv where
  __ := demoEnv
  recover sig _ :=
    if sig.data = 0 then .error ⟨.assertException, "signature is not canonical"⟩
    else pure ⟨0, sig.data⟩

/-- A producer with four keys, of which the last has more weight than the others. -/
def demoSigner : ProducerAuthority :=
  ⟨sysioName, ⟨5, [⟨⟨0, 1⟩, 1⟩, ⟨⟨0, 2⟩, 1⟩, ⟨⟨0, 3⟩, 1⟩, ⟨⟨0, 4⟩, 3⟩]⟩⟩

/-- A block of `demoSigner` with the producer signature `1` and these additional ones. -/
def demoSigned (sigs : List ℕ) : BlockHeaderState where
  __ := demoGenesis 1
  header := { (demoGenesis 1).header with producerSignature := ⟨1⟩ }
  validBlockSigningAuthority := demoSigner.authority
  additionalSignatures := sigs.map Signature.mk

/-- Three signatures reach the threshold, in both orders of the additional ones; a malformed
signature is refused, with an exception that depends on the order. -/
theorem verifySignee_iff_demo : (demoSigned [2, 4]).verifySignee demoRecovery = .ok () ∧
    (demoSigned [4, 2]).verifySignee demoRecovery = .ok () ∧
    (demoSigned [2, 3]).verifySignee demoRecovery ≠ .ok () ∧
    (demoSigned [1, 0]).verifySignee demoRecovery ≠
      (demoSigned [0, 1]).verifySignee demoRecovery := by
  have hp : checkScheduleProducer ⟨fun _ => true, false, fun _ => true⟩ 2 true demoSigner =
      .ok () := by decide
  obtain ⟨hiff, hperm⟩ := verifySignee_iff hp demoRecovery (demoSigned [2, 4]) rfl
  have hok := hiff.mpr ⟨[⟨0, 1⟩, ⟨0, 2⟩, ⟨0, 4⟩], by decide⟩
  exact ⟨hok, ((hperm [⟨4⟩, ⟨2⟩] (.swap _ _ _)).1).mpr hok, by decide⟩

end BlockHeaderState

end Sysio
