import Mathlib.Logic.Basic

/-!
# Commands that may fail

A command reads and changes a state, and may throw; what it has done before stays done.
`Keeps I P x Q` says of a command that is started with the invariant `I` and the precondition `P`
that it keeps `I`, also when it throws, and that `Q` holds of what it returns and the state then.
The rules follow the ways commands are put together.
-/

namespace Sysio

open List

variable {σ ε α β : Type}

/-- A computation with a state that survives exceptions. -/
abbrev Command (σ ε α : Type) := ExceptT ε (StateM σ) α

namespace Command

/-- Runs a command: its result and the state afterwards. -/
def exec (x : Command σ ε α) (s : σ) : Except ε α × σ := x.run.run s

/-- A command that is given as a function of the state. -/
def act (f : σ → Except ε α × σ) : Command σ ε α := ExceptT.mk f

lemma exec_act (f : σ → Except ε α × σ) (s : σ) : (act f).exec s = f s := rfl

/-- **From `I` and `P`** the command keeps `I` in any case, and establishes `Q` if it returns. -/
def Keeps (I P : σ → Prop) (x : Command σ ε α) (Q : α → σ → Prop) : Prop :=
  ∀ s, I s → P s → I (x.exec s).2 ∧ ∀ a, (x.exec s).1 = .ok a → Q a (x.exec s).2

variable {I P W : σ → Prop} {Q : α → σ → Prop} {R : β → σ → Prop}

lemma keeps_pure {a : α} (h : ∀ s, I s → P s → Q a s) : Keeps I P (pure a : Command σ ε α) Q := by
  intro s hs hp
  refine ⟨hs, fun b hb => ?_⟩
  obtain rfl : a = b := Except.ok.inj hb
  exact h s hs hp

lemma keeps_throw (e : ε) : Keeps I P (throw e : Command σ ε α) Q := fun _ hs _ => ⟨hs, nofun⟩

lemma keeps_modify {f : σ → σ} {Q : Unit → σ → Prop} (hI : ∀ s, I s → P s → I (f s))
    (hQ : ∀ s, I s → P s → Q () (f s)) : Keeps I P (modify f : Command σ ε Unit) Q :=
  fun s hs hp => ⟨hI s hs hp, fun _ _ => hQ s hs hp⟩

/-- A command goes on exactly if its first part has returned something. -/
lemma exec_bind (x : Command σ ε α) (f : α → Command σ ε β) (s : σ) : (x >>= f).exec s =
      match x.exec s with
      | (.ok a, s') => (f a).exec s'
      | (.error e, s') => (.error e, s') := by
  unfold exec
  rw [ExceptT.run_bind, StateT.run_bind]
  rcases StateT.run (ExceptT.run x) s with ⟨_ | a, s'⟩
  · rfl
  · rfl

variable {f : α → Command σ ε β} {x : Command σ ε α}

lemma exec_bind_of_ok {s s1 : σ} {a : α}
    (h : x.exec s = (.ok a, s1)) : (x >>= f).exec s = (f a).exec s1 := by
  rw [exec_bind, h]

lemma exec_bind_of_error {s s1 : σ} {e : ε}
    (h : x.exec s = (.error e, s1)) : (x >>= f).exec s = (.error e, s1) := by
  rw [exec_bind, h]

lemma Keeps.of_pre (h : Keeps I W x Q) (hpre : ∀ s, I s → P s → W s) : Keeps I P x Q :=
  fun s hs hp => h s hs (hpre s hs hp)

lemma Keeps.of_post {Q' : α → σ → Prop} (h : Keeps I P x Q') (hpost : ∀ a s, Q' a s → Q a s) :
    Keeps I P x Q :=
  fun s hs hp => ⟨(h s hs hp).1, fun a ha => hpost a _ ((h s hs hp).2 a ha)⟩

lemma keeps_bind (hx : Keeps I P x Q) (hf : ∀ a, Keeps I (Q a) (f a) R) :
    Keeps I P (x >>= f) R := by
  intro s hs hp
  obtain ⟨hI, hQ⟩ := hx s hs hp
  rw [exec_bind]
  rcases hrun : x.exec s with ⟨_ | a, s'⟩
  · rw [hrun] at hI
    exact ⟨hI, nofun⟩
  · rw [hrun] at hI hQ
    exact hf a s' hI (hQ a rfl)

/-- What comes after `get` starts in the state that it returned. -/
lemma keeps_get_bind {f : σ → Command σ ε β} (h : ∀ s, I s → P s → Keeps I (· = s) (f s) R) :
    Keeps I P (get >>= f) R := by
  intro s hs hp
  have hget : (get : Command σ ε σ).exec s = (.ok s, s) := rfl
  rw [exec_bind, hget]
  exact h s hs hp s hs rfl

lemma keeps_forM {f : α → Command σ ε Unit} {l : List α}
    (h : ∀ a ∈ l, Keeps I P (f a) fun _ => P) : Keeps I P (l.forM f) fun _ => P := by
  induction l with
  | nil => exact keeps_pure fun _ _ hp => hp
  | cons a l ih =>
    refine keeps_bind (h a mem_cons_self) fun _ => ?_
    exact ih fun b hb => h b (mem_cons_of_mem _ hb)

lemma keeps_foldlM {f : β → α → Command σ ε β} {l : List α} {b : β}
    (h : ∀ b, ∀ a ∈ l, Keeps I (R b) (f b a) R) : Keeps I (R b) (l.foldlM f b) R := by
  induction l generalizing b with
  | nil => exact keeps_pure fun _ _ hp => hp
  | cons a l ih =>
    rw [foldlM_cons]
    refine keeps_bind (h b a mem_cons_self) fun b' => ?_
    exact ih fun b a ha => h b a (mem_cons_of_mem _ ha)

end Command

end Sysio
