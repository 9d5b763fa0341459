import Sysio.Data.Table

/-!
# Replay windows

A table of what has been seen can be kept small if everything seen has an expiry, and if nothing is
taken up after its expiry: rows that have expired can be removed, since their keys cannot come
again.  `Covers` is what such a table guarantees at a time, and `Covers.key_not_mem` what it is for.
-/

namespace Sysio.Table

open List

variable {κ ρ : Type*} {key : ρ → κ} {expiry : ρ → ℕ} {seen : List ρ} {now : ℕ}
  {t : Table κ ρ key} {r : ρ}

variable (expiry) in
/-- The first row of the index by expiry; among rows with the same expiry the oldest. -/
def earliest (t : Table κ ρ key) : Option ρ :=
  t.rows.foldl (fun best r =>
    match best with
    | none => some r
    | some b => if expiry r < expiry b then some r else some b) none

variable (expiry) in
/-- Whatever has been seen is in the table, or has expired. -/
def Covers (seen : List ρ) (now : ℕ) (t : Table κ ρ key) : Prop :=
  ∀ r ∈ seen, r ∈ t ∨ expiry r < now

lemma Covers.mono {now' : ℕ} (h : Covers expiry seen now t) (hle : now ≤ now') :
    Covers expiry seen now' t :=
  fun r hr => (h r hr).imp_right fun hlt => hlt.trans_le hle

lemma mem_of_earliest (h : t.earliest expiry = some r) : r ∈ t := by
  -- the accumulator of the fold is a row that has been passed
  have hfold : ∀ (l : List ρ) (best : Option ρ), (∀ b ∈ best, b ∈ t) → (∀ x ∈ l, x ∈ t) →
      l.foldl (fun best r => match best with
        | none => some r
        | some b => if expiry r < expiry b then some r else some b) best = some r → r ∈ t := by
    intro l
    induction l with
    | nil =>
      intro best hbest _ heq
      exact hbest r heq
    | cons x l ih =>
      intro best hbest hl heq
      refine ih _ ?_ (fun y hy => hl y (mem_cons_of_mem _ hy)) heq
      intro b hb
      cases best with
      | none =>
        cases hb
        exact hl _ mem_cons_self
      | some b' =>
        simp only at hb
        split_ifs at hb
        · cases hb
          exact hl _ mem_cons_self
        · exact hbest b hb
  exact hfold t.rows none nofun (fun _ hx => hx) h

variable [DecidableEq κ]

lemma Covers.erase (h : Covers expiry seen now t) (hr : r ∈ t) (hexpired : expiry r < now) :
    Covers expiry seen now (t.erase (key r)) := by
  intro x hx
  rcases h x hx with hmem | hlt
  · by_cases hkey : key x = key r
    · exact .inr (eq_of_key_eq hmem hr hkey ▸ hexpired)
    · exact .inl (mem_erase.mpr ⟨hmem, hkey⟩)
  · exact .inr hlt

lemma Covers.insert (h : Covers expiry seen now t) (hnew : t.find? (key r) = none) :
    Covers expiry (seen ++ [r]) now (t.insert r) := by
  intro x hx
  rw [mem_iff, rows_insert hnew, mem_append]
  rcases mem_append.mp hx with hx | hx
  · exact (h x hx).imp_left .inl
  · exact .inl (.inr hx)

/-- **What is not in the table and has not expired has not been seen**, if the expiry belongs to the
key. -/
theorem Covers.key_not_mem (h : Covers expiry seen now t) (hnew : t.find? (key r) = none)
    (hfresh : now ≤ expiry r) (hexpiry : ∀ x ∈ seen, key x = key r → expiry x = expiry r) :
    key r ∉ seen.map key := by
  intro hmem
  obtain ⟨x, hx, hkey⟩ := List.mem_map.mp hmem
  rcases h x hx with hin | hlt
  · exact find?_eq_none.mp hnew x hin hkey
  · have heq := hexpiry x hx hkey
    omega

end Sysio.Table
