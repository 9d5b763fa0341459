import Mathlib.Algebra.BigOperators.Group.List.Basic
import Mathlib.Algebra.Order.Group.Nat
import Mathlib.Data.List.Nodup
import Mathlib.Tactic.Abel

/-!
# Tables with a unique key

`Table κ ρ key` is a finite collection of rows in which no two rows have the same `key`.  It is
the common shape of a container with one unique index: a hashed or ordered unique index, a
`flat_map`, or a database table with a primary key.  The rows are kept in insertion order, so a
view of the table by another, non-unique key (`rows.filter`) lists equal keys in that order.

The key law is a field of the structure, so the operations below (`insert`, `upsert`, `modify`,
`erase`, `mapRows`) carry it along and no proof about a table has to restate it.  Each operation
comes with its effect on `find?` and on `sumBy`, the sum of a quantity over all rows.
-/

namespace Sysio

open List

/-- A finite collection of rows with pairwise distinct keys, in insertion order. -/
structure Table (κ ρ : Type*) (key : ρ → κ) where
  /-- The rows, oldest first. -/
  rows : List ρ
  /-- No two rows share a key. -/
  nodup : (rows.map key).Nodup

namespace Table

variable {κ ρ : Type*} {key : ρ → κ}

@[ext]
lemma ext {t t' : Table κ ρ key} (h : t.rows = t'.rows) : t = t' := by
  cases t
  cases t'
  cases h
  rfl

instance [DecidableEq ρ] : DecidableEq (Table κ ρ key) := fun t t' =>
  decidable_of_iff (t.rows = t'.rows) ⟨ext, fun h => h ▸ rfl⟩

def empty : Table κ ρ key := ⟨[], nodup_nil⟩

instance : Membership ρ (Table κ ρ key) := ⟨fun t r => r ∈ t.rows⟩

variable {r : ρ} {t : Table κ ρ key} {k : κ}

lemma mem_iff : r ∈ t ↔ r ∈ t.rows := Iff.rfl

@[simp]
lemma not_mem_empty (r : ρ) : r ∉ (empty : Table κ ρ key) := not_mem_nil

variable {s : ρ}

lemma eq_of_key_eq (hr : r ∈ t) (hs : s ∈ t) (h : key r = key s) : r = s :=
  inj_on_of_nodup_map t.nodup hr hs h

variable [DecidableEq κ]

/-! ### Lookup -/

/-- The row with key `k`. -/
def find? (t : Table κ ρ key) (k : κ) : Option ρ := t.rows.find? fun r => decide (key r = k)

lemma find?_decide_eq_some {l : List ρ} (h : ∀ r ∈ l, ∀ s ∈ l, key r = key s → r = s) :
    l.find? (fun r => decide (key r = k)) = some r ↔ r ∈ l ∧ key r = k := by
  constructor
  · intro h
    exact ⟨mem_of_find?_eq_some h, by simpa using find?_some h⟩
  · rintro ⟨hr, rfl⟩
    cases hf : l.find? fun s => decide (key s = key r) with
    | none => simpa using List.find?_eq_none.mp hf r hr
    | some s =>
      have hk : key s = key r := by simpa using find?_some hf
      rw [h s (mem_of_find?_eq_some hf) r hr hk]

lemma find?_eq_some : t.find? k = some r ↔ r ∈ t ∧ key r = k :=
  find?_decide_eq_some fun _ hr _ hs => t.eq_of_key_eq hr hs

lemma find?_eq_none : t.find? k = none ↔ ∀ r ∈ t, key r ≠ k := by
  unfold find?
  rw [List.find?_eq_none]
  simp [mem_iff]

lemma find?_key (hr : r ∈ t) : t.find? (key r) = some r := find?_eq_some.mpr ⟨hr, rfl⟩

@[simp]
lemma find?_empty (k : κ) : (empty : Table κ ρ key).find? k = none := rfl

lemma key_eq_of_find? (h : t.find? k = some r) : key r = k := (find?_eq_some.mp h).2

lemma mem_of_find? (h : t.find? k = some r) : r ∈ t := (find?_eq_some.mp h).1

/-! ### Insertion -/

lemma key_not_mem_of_find?_none (h : t.find? k = none) : k ∉ t.rows.map key := by
  intro hk
  obtain ⟨r, hr, rfl⟩ := List.mem_map.mp hk
  exact find?_eq_none.mp h r hr rfl

/-- Adds a row whose key is new; a table that already has the key stays as it is, as a failed
insertion into a unique index leaves the container. -/
def insert (t : Table κ ρ key) (r : ρ) : Table κ ρ key :=
  if h : t.find? (key r) = none then
    { rows := t.rows ++ [r]
      nodup := by
        rw [map_append, nodup_append]
        refine ⟨t.nodup, by simp, ?_⟩
        rintro k hk _ hr rfl
        simp only [map_cons, map_nil, mem_singleton] at hr
        exact key_not_mem_of_find?_none h (hr ▸ hk) }
  else t

section

variable (h : t.find? (key r) = none)
include h

lemma rows_insert : (t.insert r).rows = t.rows ++ [r] := by
  simp [insert, h]

lemma mem_insert : s ∈ t.insert r ↔ s ∈ t ∨ s = r := by
  simp [mem_iff, rows_insert h]

lemma forall_mem_insert {P : ρ → Prop} : (∀ s ∈ t.insert r, P s) ↔ (∀ s ∈ t, P s) ∧ P r := by
  simp only [mem_insert h, or_imp, forall_and, forall_eq]

lemma find?_insert (k : κ) : (t.insert r).find? k = if key r = k then some r else t.find? k := by
  split_ifs with hk
  · rw [find?_eq_some, mem_insert h]
    exact ⟨.inr rfl, hk⟩
  · unfold find?
    rw [rows_insert h, find?_append]
    simp [hk]

end

/-! ### Removal -/

/-- Removes the row with key `k`, if there is one. -/
def erase (t : Table κ ρ key) (k : κ) : Table κ ρ key where
  rows := t.rows.filter fun r => decide (key r ≠ k)
  nodup := (filter_sublist.map key).nodup t.nodup

@[simp]
lemma mem_erase : r ∈ t.erase k ↔ r ∈ t ∧ key r ≠ k := by
  simp [mem_iff, erase]

lemma find?_erase (t : Table κ ρ key) (k j : κ) :
    (t.erase k).find? j = if j = k then none else t.find? j := by
  split_ifs with h
  · rw [find?_eq_none]
    intro r hr
    rw [h]
    exact (mem_erase.mp hr).2
  · cases hf : t.find? j with
    | none =>
      rw [find?_eq_none]
      intro r hr
      exact find?_eq_none.mp hf r (mem_erase.mp hr).1
    | some r =>
      obtain ⟨hr, hk⟩ := find?_eq_some.mp hf
      rw [find?_eq_some, mem_erase]
      exact ⟨⟨hr, by rwa [hk]⟩, hk⟩

/-- Keeps the rows that satisfy `p`. -/
def filter (t : Table κ ρ key) (p : ρ → Bool) : Table κ ρ key where
  rows := t.rows.filter p
  nodup := (filter_sublist.map key).nodup t.nodup

omit [DecidableEq κ] in
@[simp]
lemma mem_filter {p : ρ → Bool} : r ∈ t.filter p ↔ r ∈ t ∧ p r = true := by
  simp [mem_iff, filter]

/-! ### Updates that keep the keys -/

/-- Rewrites every row by a function that keeps the key. -/
def mapRows (t : Table κ ρ key) (f : ρ → ρ) (hf : ∀ r, key (f r) = key r) : Table κ ρ key where
  rows := t.rows.map f
  nodup := by
    rw [List.map_map, show key ∘ f = key from funext hf]
    exact t.nodup

omit [DecidableEq κ] in
lemma mem_mapRows {f : ρ → ρ} {hf : ∀ r, key (f r) = key r} :
    r ∈ t.mapRows f hf ↔ ∃ s ∈ t, f s = r := by
  simp [mem_iff, mapRows]

lemma find?_mapRows (t : Table κ ρ key) (f : ρ → ρ) (hf : ∀ r, key (f r) = key r) (k : κ) :
    (t.mapRows f hf).find? k = (t.find? k).map f := by
  unfold find? mapRows
  rw [find?_map]
  simp only [Function.comp_def, hf]

/-- Rewrites the row with key `k` by a function that keeps the key. -/
def modify (t : Table κ ρ key) (k : κ) (f : ρ → ρ) (hf : ∀ r, key (f r) = key r) :
    Table κ ρ key :=
  t.mapRows (fun r => if key r = k then f r else r) fun r => by split_ifs <;> simp [hf]

lemma mem_modify {f : ρ → ρ} {hf : ∀ r, key (f r) = key r} :
    r ∈ t.modify k f hf ↔ (r ∈ t ∧ key r ≠ k) ∨ ∃ s ∈ t, key s = k ∧ f s = r := by
  unfold modify
  rw [mem_mapRows]
  constructor
  · rintro ⟨s, hs, rfl⟩
    by_cases hk : key s = k
    · exact .inr ⟨s, hs, hk, by simp [hk]⟩
    · exact .inl (by simp [hk, hs])
  · rintro (⟨hr, hk⟩ | ⟨s, hs, hk, rfl⟩)
    · exact ⟨r, hr, by simp [hk]⟩
    · exact ⟨s, hs, by simp [hk]⟩

/-- Replaces the row with the key of `r`, or adds `r` when the key is new. -/
def upsert (t : Table κ ρ key) (r : ρ) : Table κ ρ key :=
  if t.find? (key r) = none then t.insert r
  else t.mapRows (fun s => if key s = key r then r else s) fun s => by split_ifs <;> simp [*]

lemma find?_upsert (t : Table κ ρ key) (r : ρ) (k : κ) :
    (t.upsert r).find? k = if key r = k then some r else t.find? k := by
  unfold upsert
  by_cases h : t.find? (key r) = none
  · rw [if_pos h, find?_insert h]
  · rw [if_neg h, find?_mapRows]
    cases hs : t.find? k with
    | none =>
      have hk : key r ≠ k := fun hk => h (hk ▸ hs)
      simp [hk]
    | some s =>
      rw [Option.map_some, key_eq_of_find? hs]
      by_cases hk : key r = k
      · rw [if_pos hk, if_pos hk.symm]
      · rw [if_neg hk, if_neg (Ne.symm hk)]

lemma mem_of_mem_upsert (h : s ∈ t.upsert r) : s ∈ t ∧ key s ≠ key r ∨ s = r := by
  have hfind := find?_key h
  rw [find?_upsert] at hfind
  split_ifs at hfind with hkey
  · exact .inr (Option.some.inj hfind).symm
  · exact .inl ⟨mem_of_find? hfind, Ne.symm hkey⟩

lemma mem_upsert_self (t : Table κ ρ key) (r : ρ) : r ∈ t.upsert r := by
  apply mem_of_find? (k := key r)
  rw [find?_upsert, if_pos rfl]

lemma mem_upsert_of_ne (hs : s ∈ t) (h : key r ≠ key s) : s ∈ t.upsert r := by
  apply mem_of_find? (k := key s)
  rw [find?_upsert, if_neg h]
  exact find?_key hs

/-! ### Sums over the rows -/

section Sum

variable {M : Type*} [AddCommMonoid M]

/-- The sum of `f` over all rows. -/
def sumBy (t : Table κ ρ key) (f : ρ → M) : M := (t.rows.map f).sum

lemma sumBy_insert (h : t.find? (key r) = none) (f : ρ → M) :
    (t.insert r).sumBy f = t.sumBy f + f r := by
  simp [sumBy, rows_insert h]

/-- Splitting the row with key `k` off a list of rows with distinct keys. -/
lemma exists_rows_eq (h : t.find? k = some r) :
    ∃ l1 l2, t.rows = l1 ++ r :: l2 ∧ (∀ s ∈ l1, key s ≠ k) ∧ ∀ s ∈ l2, key s ≠ k := by
  obtain ⟨hr, rfl⟩ := find?_eq_some.mp h
  obtain ⟨l1, l2, hl⟩ := append_of_mem hr
  have hnd := t.nodup
  -- the keys are distinct, so the other rows have other keys
  rw [hl, map_append, map_cons, nodup_append, nodup_cons] at hnd
  obtain ⟨-, ⟨h2, -⟩, h1⟩ := hnd
  refine ⟨l1, l2, hl, ?_, ?_⟩
  · intro s hs hk
    exact h1 _ (List.mem_map_of_mem hs) _ mem_cons_self hk
  · intro s hs hk
    exact h2 (hk ▸ List.mem_map_of_mem hs)

lemma map_eq_self_of_key_ne {l : List ρ} {g : ρ → ρ} (h : ∀ s ∈ l, key s ≠ k) :
    l.map (fun s => if key s = k then g s else s) = l := by
  conv_rhs => rw [← List.map_id l]
  refine map_congr_left fun s hs => ?_
  rw [if_neg (h s hs), id]

lemma sumBy_erase (h : t.find? k = some r) (f : ρ → M) :
    (t.erase k).sumBy f + f r = t.sumBy f := by
  obtain ⟨l1, l2, hl, h1, h2⟩ := exists_rows_eq h
  have hk := key_eq_of_find? h
  have hf1 : l1.filter (fun s => decide (key s ≠ k)) = l1 :=
    filter_eq_self.mpr fun s hs => by simpa using h1 s hs
  have hf2 : (r :: l2).filter (fun s => decide (key s ≠ k)) = l2 := by
    rw [filter_cons_of_neg (by simp [hk])]
    exact filter_eq_self.mpr fun s hs => by simpa using h2 s hs
  simp only [sumBy, erase, hl, filter_append, hf1, hf2, map_append, map_cons,
    List.sum_append, sum_cons]
  abel

omit [DecidableEq κ] in
lemma sumBy_mapRows (t : Table κ ρ key) (g : ρ → ρ) (hg : ∀ r, key (g r) = key r) (f : ρ → M) :
    (t.mapRows g hg).sumBy f = t.sumBy fun r => f (g r) := by
  simp only [sumBy, mapRows, List.map_map]
  rfl

lemma sumBy_modify (h : t.find? k = some r) (g : ρ → ρ)
    (hg : ∀ r, key (g r) = key r) (f : ρ → M) :
    (t.modify k g hg).sumBy f + f r = t.sumBy f + f (g r) := by
  obtain ⟨l1, l2, hl, h1, h2⟩ := exists_rows_eq h
  have hk := key_eq_of_find? h
  unfold sumBy modify mapRows
  simp only [hl, map_append, map_cons, map_eq_self_of_key_ne h1,
    map_eq_self_of_key_ne h2, if_pos hk, List.sum_append, sum_cons]
  abel

lemma sumBy_upsert {s : ρ} (h : t.find? (key r) = some s) (f : ρ → M) :
    (t.upsert r).sumBy f + f s = t.sumBy f + f r := by
  have hm : t.upsert r = t.modify (key r) (fun x => if key x = key r then r else x)
      (fun x => by split_ifs <;> simp [*]) := by
    apply ext
    unfold upsert modify mapRows
    rw [if_neg (by simp [h])]
    refine map_congr_left fun x _ => ?_
    by_cases hx : key x = key r <;> simp [hx]
  rw [hm, sumBy_modify h, if_pos (key_eq_of_find? h)]

omit [DecidableEq κ] in
/-- Two tables that agree on the rows that count have the same sum. -/
lemma sumBy_eq_of_mem_iff {t' : Table κ ρ key} {f : ρ → M}
    (h : ∀ r, f r ≠ 0 → (r ∈ t ↔ r ∈ t')) : t.sumBy f = t'.sumBy f := by
  classical
  have hfilter : ∀ t : Table κ ρ key,
      t.sumBy f = ((t.rows.filter fun r => decide (f r ≠ 0)).map f).sum := by
    intro t
    unfold sumBy
    induction t.rows with
    | nil => rfl
    | cons r l ih => by_cases hr : f r = 0 <;> simp [hr, ih]
  have hnodup : ∀ t : Table κ ρ key, (t.rows.filter fun r => decide (f r ≠ 0)).Nodup :=
    fun t => (Nodup.of_map key t.nodup).filter _
  have hperm : (t.rows.filter fun r => decide (f r ≠ 0)).Perm
      (t'.rows.filter fun r => decide (f r ≠ 0)) := by
    refine (perm_ext_iff_of_nodup (hnodup t) (hnodup t')).mpr fun r => ?_
    simp only [List.mem_filter, decide_eq_true_eq]
    exact and_congr_left (h r)
  rw [hfilter t, hfilter t', (hperm.map f).sum_eq]

omit [DecidableEq κ] in
lemma countP_rows_eq_sumBy (t : Table κ ρ key) (p : ρ → Bool) :
    t.rows.countP p = t.sumBy fun r => if p r then 1 else 0 := by
  unfold sumBy
  induction t.rows with
  | nil => rfl
  | cons r l ih =>
    rw [countP_cons, map_cons, sum_cons, ih, Nat.add_comm]

end Sum

end Table

end Sysio
