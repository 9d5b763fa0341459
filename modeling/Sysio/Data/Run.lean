import Mathlib.Data.List.Basic

/-!
# Runs of a state machine

`Run step s₀ tr s` says that the transitions in `tr`, oldest first, lead from `s₀` to `s`.  A
property of whole runs then comes from what one step does (`Run.invariant`,
`Run.forall_transition`), also when it is promised only for runs whose transitions all meet a
condition.
-/

namespace Sysio

open List

variable {σ ε : Type*}

structure Transition (σ ε : Type*) where
  /-- The state before the step. -/
  pre : σ
  /-- What was done. -/
  event : ε
  /-- The state after the step. -/
  post : σ

/-- The transitions `tr` lead from `s₀` to `s`. -/
inductive Run (step : σ → ε → σ → Prop) (s₀ : σ) : List (Transition σ ε) → σ → Prop
  | nil : Run step s₀ [] s₀
  | snoc {tr : List (Transition σ ε)} {s s' : σ} {e : ε} :
      Run step s₀ tr s → step s e s' → Run step s₀ (tr ++ [⟨s, e, s'⟩]) s'

namespace Run

variable {step : σ → ε → σ → Prop} {s₀ s : σ} {tr : List (Transition σ ε)}

/-- **Every state of a run has the invariant**, if the first state has it and every step that meets
the condition `C` keeps it. -/
theorem forall_transition {P : σ → Prop} {C : σ → ε → σ → Prop} (h0 : P s₀)
    (hstep : ∀ s e s', P s → C s e s' → step s e s' → P s') (hr : Run step s₀ tr s)
    (hC : ∀ t ∈ tr, C t.pre t.event t.post) :
    P s ∧ ∀ t ∈ tr, P t.pre ∧ step t.pre t.event t.post := by
  -- on the run, which grows at its end: only the last transition is new
  induction hr with
  | nil => exact ⟨h0, by simp⟩
  | @snoc tr s s' e _ hs ih =>
    obtain ⟨hP, htr⟩ := ih fun t ht => hC t (mem_append_left _ ht)
    have hlast : C s e s' := hC ⟨s, e, s'⟩ (by simp)
    refine ⟨hstep s e s' hP hlast hs, ?_⟩
    intro t ht
    rcases mem_append.mp ht with ht | ht
    · exact htr t ht
    · obtain rfl := mem_singleton.mp ht
      exact ⟨hP, hs⟩

lemma cons {s1 : σ} {e : ε} (hs : step s₀ e s1) (hr : Run step s1 tr s) :
    Run step s₀ (⟨s₀, e, s1⟩ :: tr) s := by
  induction hr with
  | nil => exact Run.nil.snoc hs
  | snoc _ hs' ih => exact ih.snoc hs'

lemma append {s1 : σ} {tr1 : List (Transition σ ε)} (hr1 : Run step s₀ tr1 s1)
    (hr : Run step s1 tr s) : Run step s₀ (tr1 ++ tr) s := by
  induction hr with
  | nil => rwa [append_nil]
  | snoc _ hs ih =>
    rw [← append_assoc]
    exact ih.snoc hs

lemma eq_of_nil (hr : Run step s₀ [] s) : s = s₀ := by
  generalize h : ([] : List (Transition σ ε)) = tr at hr
  cases hr with
  | nil => rfl
  | snoc _ _ => simp at h

variable {t : Transition σ ε}

lemma post_of_getLast? (hr : Run step s₀ tr s) (ht : tr.getLast? = some t) : t.post = s := by
  cases hr with
  | nil => simp at ht
  | snoc _ _ =>
    rw [getLast?_concat, Option.some.injEq] at ht
    rw [← ht]

lemma invariant {P : σ → Prop} (h0 : P s₀) (hstep : ∀ s e s', P s → step s e s' → P s')
    (hr : Run step s₀ tr s) : P s :=
  (forall_transition (C := fun _ _ _ => True) h0 (fun s e s' hP _ => hstep s e s' hP) hr
    fun _ _ => trivial).1

lemma step_of_mem (hr : Run step s₀ tr s) (ht : t ∈ tr) : step t.pre t.event t.post :=
  ((forall_transition (P := fun _ => True) (C := fun _ _ _ => True) trivial
    (fun _ _ _ _ _ _ => trivial) hr fun _ _ => trivial).2 t ht).2

lemma of_append {l1 l2 : List (Transition σ ε)} (hr : Run step s₀ (l1 ++ t :: l2) s) :
    Run step s₀ l1 t.pre ∧ step t.pre t.event t.post ∧ Run step t.post l2 s := by
  generalize htr : l1 ++ t :: l2 = tr at hr
  induction hr generalizing l2 with
  | nil => simp at htr
  | @snoc tr s s' e hr hs ih =>
    -- the last transition is `t`, or one of those after it
    rcases eq_nil_or_concat l2 with rfl | ⟨l2, u, rfl⟩
    · obtain ⟨rfl, h⟩ := append_inj' htr rfl
      obtain rfl := singleton_inj.mp h
      exact ⟨hr, hs, .nil⟩
    · rw [concat_eq_append, ← cons_append, ← append_assoc] at htr
      obtain ⟨hinit, hlast⟩ := append_inj' htr rfl
      obtain rfl := singleton_inj.mp hlast
      obtain ⟨hbefore, hstep, hafter⟩ := ih hinit
      rw [concat_eq_append]
      exact ⟨hbefore, hstep, hafter.snoc hs⟩

lemma split (hr : Run step s₀ tr s) (ht : t ∈ tr) :
    ∃ l1 l2, tr = l1 ++ t :: l2 ∧ Run step s₀ l1 t.pre ∧ Run step t.pre (t :: l2) s := by
  obtain ⟨l1, l2, rfl⟩ := append_of_mem ht
  obtain ⟨hbefore, hstep, hafter⟩ := hr.of_append
  exact ⟨l1, l2, rfl, hbefore, Run.cons hstep hafter⟩

/-- The same run, with the events under another name. -/
lemma map {ε' : Type*} {step' : σ → ε' → σ → Prop} (f : ε → ε')
    (hf : ∀ s e s', step s e s' → step' s (f e) s') (hr : Run step s₀ tr s) :
    Run step' s₀ (tr.map fun t => ⟨t.pre, f t.event, t.post⟩) s := by
  induction hr with
  | nil => exact .nil
  | snoc _ hs ih =>
    rw [map_append]
    exact ih.snoc (hf _ _ _ hs)

end Run

/-! ### Carrying out events -/

/-- Carries out events one after the other, where `next` gives the next state. -/
def carryOut (next : σ → ε → Option σ) : σ → List ε → Option (List (Transition σ ε) × σ)
  | s, [] => some ([], s)
  | s, e :: es =>
    match next s e with
    | some s' => (carryOut next s' es).map fun r => (⟨s, e, s'⟩ :: r.1, r.2)
    | none => none

section CarryOut

variable {next : σ → ε → Option σ} {s s' : σ} {es : List ε} {tr : List (Transition σ ε)}
  {step : σ → ε → σ → Prop}

lemma Run.of_carryOut (hstep : ∀ s e s', next s e = some s' → step s e s')
    (h : carryOut next s es = some (tr, s')) : Run step s tr s' ∧ tr.map Transition.event = es := by
  induction es generalizing s tr with
  | nil =>
    cases h
    exact ⟨Run.nil, rfl⟩
  | cons e es ih =>
    rw [carryOut] at h
    split at h
    · next s1 hnext =>
      rw [Option.map_eq_some_iff] at h
      obtain ⟨⟨tr', s''⟩, hr, heq⟩ := h
      cases heq
      obtain ⟨hrun, hevents⟩ := ih hr
      exact ⟨Run.cons (hstep s e s1 hnext) hrun, by rw [map_cons, hevents]⟩
    · cases h

variable (next s es) in
/-- A run with a property that can be computed, from events that can be carried out. -/
lemma exists_run_of_carryOut (hstep : ∀ s e s', next s e = some s' → step s e s')
    {P : List (Transition σ ε) → σ → Prop} [∀ tr s, Decidable (P tr s)]
    (h : (carryOut next s es).any (fun r => P r.1 r.2) = true) :
    ∃ tr s', Run step s tr s' ∧ P tr s' := by
  obtain ⟨⟨tr, s'⟩, hr, hP⟩ := (Option.any_eq_true _ _).mp h
  exact ⟨tr, s', (Run.of_carryOut hstep hr).1, of_decide_eq_true hP⟩

end CarryOut

end Sysio
