import Sysio.BlockHeaderState.Basic
import Sysio.Data.Run

/-!
# What an accepted header does

`NextResult` collects everything that follows from `next` accepting a header: which checks passed,
what the new state holds and where its pending schedule comes from.  `next_eq_ok` derives it once,
and every later proof about header chains uses it in place of unfolding `next`.
-/

namespace Sysio

open Result PendingBlockHeaderState HeaderExtension Option

variable {lowerBound n : UInt16} {es exts r : List HeaderExtension} {h : BlockHeader}
  {schedule : ProducerAuthoritySchedule} {hash : Sha256} {s s' : BlockHeaderState}

namespace BlockHeader

lemma extractExtensions_eq_ok {first : Bool}
    (h : extractExtensions first lowerBound es = .ok r) : r = es := by
  induction es generalizing first lowerBound r with
  | nil =>
    rw [extractExtensions, Except.ok.injEq] at h
    exact h.symm
  | cons e es ih =>
    simp only [extractExtensions, bind_eq_ok, pure_eq_ok] at h
    obtain ⟨-, -, -, -, -, -, rest, hrest, rfl⟩ := h
    rw [ih hrest]

/-- The header announces the schedule: in `new_producers`, or in an extension. -/
def Announces (h : BlockHeader) (schedule : ProducerAuthoritySchedule) : Prop :=
  (∃ l, h.newProducers = some l ∧ schedule = .ofLegacy l) ∨
    HeaderExtension.producerScheduleChange schedule ∈ h.headerExtensions

instance (h : BlockHeader) (schedule : ProducerAuthoritySchedule) :
    Decidable (h.Announces schedule) :=
  inferInstanceAs (Decidable (_ ∨ _))

lemma forall_announces_iff {p : ProducerAuthoritySchedule → Prop} :
    (∀ schedule, h.Announces schedule → p schedule) ↔ (∀ l ∈ h.newProducers, p (.ofLegacy l)) ∧
        ∀ x ∈ h.headerExtensions, ∀ schedule ∈ x.newSchedule, p schedule := by
  constructor
  · intro hp
    refine ⟨fun l hl => hp _ (.inl ⟨l, hl, rfl⟩), fun x hx schedule hs => hp _ (.inr ?_)⟩
    cases x <;> simp_all [newSchedule]
  · rintro ⟨hl, hx⟩ schedule (⟨l, hn, rfl⟩ | hmem)
    · exact hl l hn
    · exact hx _ hmem schedule rfl

instance (h : BlockHeader) (p : ProducerAuthoritySchedule → Prop) [DecidablePred p] :
    Decidable (∀ schedule, h.Announces schedule → p schedule) :=
  decidable_of_iff' _ forall_announces_iff

end BlockHeader

namespace PendingBlockHeaderState

variable {env : HeaderEnv} {p : PendingBlockHeaderState}

lemma legacySchedule_announces (hl : p.legacySchedule env h = .ok (some (schedule, hash))) :
    h.Announces schedule := by
  unfold legacySchedule at hl
  cases hn : h.newProducers with
  | none =>
    rw [hn] at hl
    simp at hl
  | some l =>
    rw [hn] at hl
    simp only [bind_eq_ok, pure_eq_ok, some.injEq, Prod.mk.injEq] at hl
    obtain ⟨-, -, -, -, hs, -⟩ := hl
    exact .inl ⟨l, hn, hs.symm⟩

lemma extensionSchedule_mem (he : p.extensionSchedule env exts = .ok (some (schedule, hash))) :
    producerScheduleChange schedule ∈ exts := by
  unfold extensionSchedule at he
  split at he
  · simp at he
  · next sch hsch =>
    simp only [bind_eq_ok, pure_eq_ok, some.injEq, Prod.mk.injEq] at he
    obtain ⟨-, -, -, -, rfl, -⟩ := he
    obtain ⟨e, hmem, heq⟩ := List.exists_of_findSome?_eq_some hsch
    cases e <;> simp_all [newSchedule]

end PendingBlockHeaderState

namespace BlockHeaderState

/-- The arguments of one call of `next`. -/
structure HeaderInput where
  header : SignedBlockHeader
  additionalSignatures : List Signature
  skipValidateSignee : Bool

def HeaderInput.confirmed (e : HeaderInput) : ℕ := e.header.confirmed.toNat

def HeaderInput.producer (e : HeaderInput) : Name := e.header.producer

/-- `next` accepts the header in state `s` and returns `s'`. -/
def Accepts (env : HeaderEnv) (s : BlockHeaderState) (e : HeaderInput) (s' : BlockHeaderState) :
    Prop :=
  s.next env e.header e.additionalSignatures e.skipValidateSignee = .ok s'

/-- What is known when `next` has accepted the header of `e`, a block by `proauth`. -/
structure NextResult (env : HeaderEnv) (s : BlockHeaderState) (e : HeaderInput)
    (s' : BlockHeaderState) (proauth : ProducerAuthority) : Prop where
  scheduled : s.getScheduledProducer e.header.timestamp = some proauth
  checked : s.checkDoubleConfirm e.producer e.header.confirmed = .ok ()
  producer_eq : e.producer = proauth.producerName
  previous_eq : e.header.previous = s.id
  common_eq : s'.toBlockHeaderStateCommon =
    (s.pendingState env e.header.timestamp e.header.confirmed proauth).toBlockHeaderStateCommon
  header_eq : s'.header = e.header
  id_eq : s'.id = env.calculateId e.header.toBlockHeader
  pending_eq : ∃ announced, s'.pendingSchedule =
      (s.pendingState env e.header.timestamp e.header.confirmed proauth).nextPendingSchedule
        announced ∧
    ∀ schedule hash, announced = some (schedule, hash) → e.header.toBlockHeader.Announces schedule

lemma nextPending_eq_ok {env : HeaderEnv} {t : UInt32}
    {p : PendingBlockHeaderState} (h : s.nextPending env t n = .ok p) :
    ∃ slot proauth, s.nextSlot t = .ok slot ∧ s.getScheduledProducer slot = some proauth ∧
      s.checkDoubleConfirm proauth.producerName n = .ok () ∧
      p = s.pendingState env slot n proauth := by
  simp only [nextPending, bind_eq_ok] at h
  obtain ⟨slot, hslot, h⟩ := h
  cases hs : s.getScheduledProducer slot with
  | none =>
    rw [hs] at h
    simp at h
  | some proauth =>
    rw [hs] at h
    simp only [bind_eq_ok, pure_eq_ok] at h
    obtain ⟨_, hc, rfl⟩ := h
    exact ⟨slot, proauth, hslot, hs, hc, rfl⟩

/-- **Inversion of `next`**. -/
theorem next_eq_ok {env : HeaderEnv} {e : HeaderInput}
    (h : Accepts env s e s') : ∃ proauth, NextResult env s e s' proauth := by
  simp only [Accepts, next, bind_eq_ok] at h
  obtain ⟨p, hp, hf⟩ := h
  obtain ⟨slot, proauth, -, hsch, hchk, rfl⟩ := nextPending_eq_ok hp
  simp only [finishNext, bind_eq_ok] at hf
  obtain ⟨-, -, r, hr, hf⟩ := hf
  have hs' : s' = { r with additionalSignatures := e.additionalSignatures } := by
    split_ifs at hf
    · rw [pure_eq_ok] at hf
      exact hf.symm
    · simp only [bind_eq_ok, pure_eq_ok] at hf
      obtain ⟨-, -, hf⟩ := hf
      exact hf.symm
  simp only [finishNextUnsigned, bind_eq_ok, pure_eq_ok, sysAssert_eq_ok] at hr
  obtain ⟨-, hts, -, hprev, -, -, -, hprod, -, -, exts, hexts, legacy, hlegacy, ext, hext, feats, -,
    rfl⟩ := hr
  have hts' : e.header.timestamp = slot := hts
  refine ⟨proauth, ?_⟩
  subst hs'
  refine ⟨hts' ▸ hsch, ?_, hprod, hprev, hts' ▸ rfl, rfl, rfl, ?_⟩
  · rwa [show e.producer = proauth.producerName from hprod]
  · refine ⟨ext.or legacy, hts' ▸ rfl, ?_⟩
    intro schedule hash ho
    have hmem := BlockHeader.extractExtensions_eq_ok hexts
    cases ext with
    | none =>
      simp only [none_or] at ho
      exact legacySchedule_announces (ho ▸ hlegacy)
    | some x =>
      simp only [some_or, some.injEq] at ho
      exact .inr (hmem ▸ extensionSchedule_mem (ho ▸ hext))

end BlockHeaderState

end Sysio
