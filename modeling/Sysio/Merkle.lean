import Mathlib.Data.Nat.Notation
import Mathlib.Tactic.Common

/-!
# The Merkle root of a list of digests

`merkle` hashes the digests in pairs, the last one with itself if it has no partner, and does so
until one is left.  The pair hash is an argument.  The loop takes a number of rounds;
`length_merkleLoop` shows that as many rounds as there are digests are enough.
-/

namespace Sysio

open List

variable {δ : Type}

/-- One round of `merkle`. -/
def hashPairs (hash : δ → δ → δ) : List δ → List δ
  | [] => []
  | [d] => [hash d d]
  | d₁ :: d₂ :: ds => hash d₁ d₂ :: hashPairs hash ds

/-- The loop of `merkle`. -/
def merkleLoop (hash : δ → δ → δ) : ℕ → List δ → List δ
  | 0, ids => ids
  | fuel + 1, ids => if 1 < ids.length then merkleLoop hash fuel (hashPairs hash ids) else ids

/-- `merkle`, with `zero` for the default digest. -/
def merkle (hash : δ → δ → δ) (zero : δ) (ids : List δ) : δ :=
  (merkleLoop hash ids.length ids).headD zero

lemma length_hashPairs (hash : δ → δ → δ) :
    ∀ ids : List δ, (hashPairs hash ids).length = (ids.length + 1) / 2
  | [] => by simp [hashPairs]
  | [_] => by simp [hashPairs]
  | _ :: _ :: ds => by
    rw [hashPairs, length_cons, length_hashPairs hash ds, length_cons, length_cons]
    omega

/-- **The loop ends with one digest.** -/
theorem length_merkleLoop (hash : δ → δ → δ) {fuel : ℕ} {ids : List δ} (hne : ids ≠ [])
    (hfuel : ids.length ≤ fuel + 1) : (merkleLoop hash fuel ids).length = 1 := by
  have hpos : 0 < ids.length := length_pos_iff.mpr hne
  induction fuel generalizing ids with
  | zero =>
    rw [merkleLoop]
    omega
  | succ fuel ih =>
    rw [merkleLoop]
    split_ifs with hlong
    · have hlen : (hashPairs hash ids).length = (ids.length + 1) / 2 := length_hashPairs hash ids
      have hpos' : 0 < (hashPairs hash ids).length := by omega
      exact ih (length_pos_iff.mp hpos') (by omega) hpos'
    · omega

end Sysio
