import Mathlib.Logic.Relation

/-!
# Forests given by parents

A forest is a partial function `parent` from nodes to nodes.  `Ancestor parent a b` says that `a` is
reached from `b` by following parents, in any number of steps, also none.
-/

namespace Sysio

open Relation.ReflTransGen

variable {ν : Type*}

def Ancestor (parent : ν → Option ν) (a b : ν) : Prop :=
  Relation.ReflTransGen (fun p c => parent c = some p) a b

namespace Ancestor

variable {parent parent' : ν → Option ν} {a b : ν}

lemma refl (a : ν) : Ancestor parent a a := Relation.ReflTransGen.refl

lemma of_parent {p : ν} (h : Ancestor parent a p) (hp : parent b = some p) :
    Ancestor parent a b :=
  tail h hp

lemma iff_parent : Ancestor parent a b ↔ a = b ∨ ∃ p, parent b = some p ∧ Ancestor parent a p := by
  constructor
  · intro h
    rcases cases_tail h with heq | ⟨p, hap, hp⟩
    · exact .inl heq.symm
    · exact .inr ⟨p, hp, hap⟩
  · rintro (rfl | ⟨p, hp, hap⟩)
    · exact refl a
    · exact hap.of_parent hp

/-- Ancestors stay ancestors when the part of the forest above a node is kept.  `S` says which nodes
belong to that part. -/
lemma of_kept {S : ν → Prop} (hkept : ∀ c p, S c → parent c = some p → S p ∧ parent' c = some p)
    (hb : S b) (h : Ancestor parent a b) : Ancestor parent' a b := by
  -- on the way down from `a`, whose last node is `b`
  induction h with
  | refl => exact refl a
  | tail _ hp ih =>
    obtain ⟨hS, hp'⟩ := hkept _ _ hb hp
    exact (ih hS).of_parent hp'

end Ancestor

end Sysio
