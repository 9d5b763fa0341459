import Sysio.Types

/-!
# Errors that do not happen

`Result.Avoids types x`: whatever `x` throws is of none of the given types.  It is proved of a
function by following its steps, each of which throws errors of types of its own.
-/

namespace Sysio

variable {α β : Type} {types : List ExceptionType} {type : ExceptionType} {x : Result α}
  {cond : Prop} {what : String}

namespace Result

/-- The computation does not throw an exception of one of the types. -/
def Avoids (types : List ExceptionType) (x : Result α) : Prop :=
  ∀ e, x = .error e → e.type ∉ types

lemma avoids_ok (a : α) : Avoids types (.ok a : Result α) := nofun

lemma avoids_error {e : ChainException} (h : e.type ∉ types) :
    Avoids types (.error e : Result α) := by
  rintro _ ⟨⟩
  exact h

lemma Avoids.bind {f : α → Result β} (hx : Avoids types x)
    (hf : ∀ a, x = .ok a → Avoids types (f a)) : Avoids types (x >>= f) := by
  cases x with
  | error e =>
    rintro _ ⟨⟩
    exact hx e rfl
  | ok a => exact hf a rfl

lemma Avoids.map {f : α → β} (hx : Avoids types x) : Avoids types (f <$> x) := by
  cases x with
  | error e =>
    rintro _ ⟨⟩
    exact hx e rfl
  | ok a => exact avoids_ok _

lemma avoids_forM {f : α → Result Unit} {l : List α} (h : ∀ a ∈ l, Avoids types (f a)) :
    Avoids types (l.forM f) := by
  induction l with
  | nil => exact avoids_ok ()
  | cons a l ih =>
    rw [List.forall_mem_cons] at h
    exact h.1.bind fun _ _ => ih h.2

end Result

open Result

lemma avoids_sysAssert [Decidable cond]
    (h : ¬cond → type ∉ types) : Avoids types (sysAssert cond type what) := by
  unfold sysAssert
  split_ifs with hcond
  · exact avoids_ok _
  · exact avoids_error (h hcond)

/-- An assertion that throws another type of exception, and what comes after it. -/
lemma avoids_sysAssert_bind [Decidable cond] {f : Unit → Result α} (hf : cond → Avoids types (f ()))
    (h : type ∉ types := by decide) : Avoids types (sysAssert cond type what >>= f) :=
  (avoids_sysAssert fun _ => h).bind fun _ hcond => hf (sysAssert_eq_ok.mp hcond)

lemma avoids_require {a : Option α} (h : type ∉ types := by decide) :
    Avoids types (require a type what) := by
  cases a with
  | none => exact avoids_error h
  | some a => exact avoids_ok a

end Sysio
