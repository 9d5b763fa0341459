import Mathlib.Data.List.Infix

/-!
# Undo stacks

A list of blocks, newest first, each with the database to which popping the block above it returns.
`Stacked G` says that every block satisfies `G` together with the ones below it, so that popping a
block leaves a stack of the same kind.
-/

namespace Sysio

variable {β δ : Type*}

/-- `G` holds of the block on top with the ones below it, and so on downwards. -/
def Stacked (G : β × δ → List (β × δ) → Prop) : List (β × δ) → Prop
  | [] => True
  | x :: below => G x below ∧ Stacked G below

lemma Stacked.of_suffix {G : β × δ → List (β × δ) → Prop} {l : List (β × δ)} {b : β}
    {rest : List β} (h : Stacked G l) (hsuffix : b :: rest <:+ l.map Prod.fst) :
    ∃ db below, below.map Prod.fst = rest ∧ Stacked G ((b, db) :: below) := by
  induction l with
  | nil =>
    rw [List.map_nil, List.suffix_nil] at hsuffix
    cases hsuffix
  | cons x l ih =>
    rw [List.map_cons, List.suffix_cons_iff] at hsuffix
    rcases hsuffix with heq | hsuffix
    · obtain ⟨rfl, rfl⟩ := List.cons.inj heq
      exact ⟨x.2, l, rfl, h⟩
    · exact ih h.2 hsuffix

end Sysio
