import Mathlib.Data.List.Basic
import Mathlib.Logic.Function.Basic

/-!
# Deltas of keyed rows

A reader keeps rows by key and applies a list of entries to them, each of which puts a row in place
or takes one away.  `Delta.Describes` says when three lists of rows (changed, removed, created) tell
how one list of rows came from another, with numbers that say which old row a new one continues;
`Delta.Describes.applyEntries_eq` is the result: the entries, applied in that order to the old rows,
give the new ones.
-/

namespace Sysio.Delta

open List Function

variable {K S R : Type*} [DecidableEq K]

/-- A row, and whether it is there afterwards. -/
structure Entry (S : Type*) where
  present : Bool
  row : S
  deriving DecidableEq, Repr

/-- The entry's row, if it is there. -/
def Entry.row? (e : Entry S) : Option S := if e.present then some e.row else none

/-- The rows of a list, by key. -/
def rowAt (key : S → K) (rows : List S) (k : K) : Option S := rows.find? fun s => key s = k

/-- An entry inserts or replaces its row, or deletes what has its key. -/
def applyEntry (key : S → K) (m : K → Option S) (e : Entry S) : K → Option S :=
  Function.update m (key e.row) e.row?

/-- The entries in order. -/
def applyEntries (key : S → K) (m : K → Option S) (es : List (Entry S)) : K → Option S :=
  es.foldl (applyEntry key) m

variable {key : S → K} {m : K → Option S} {es es' : List (Entry S)} {k : K}

lemma applyEntries_append :
    applyEntries key m (es ++ es') = applyEntries key (applyEntries key m es) es' :=
  foldl_append

lemma applyEntries_of_ne (h : ∀ e ∈ es, key e.row ≠ k) : applyEntries key m es k = m k := by
  induction es generalizing m with
  | nil => rfl
  | cons e es ih =>
    obtain ⟨he, hes⟩ := forall_mem_cons.mp h
    show applyEntries key (applyEntry key m e) es k = m k
    rw [ih hes, applyEntry, update_of_ne he.symm]

lemma applyEntries_of_mem {e : Entry S} (he : e ∈ es) (hk : key e.row = k)
    (hu : ∀ e' ∈ es, key e'.row = k → e' = e) : applyEntries key m es k = e.row? := by
  induction es generalizing m with
  | nil => cases he
  | cons a es ih =>
    obtain ⟨ha, hes⟩ := forall_mem_cons.mp hu
    show applyEntries key (applyEntry key m a) es k = e.row?
    by_cases hmem : e ∈ es
    · exact ih hmem hes
    · -- then the entry is the first, and no later one has the key
      obtain rfl : e = a := (mem_cons.mp he).resolve_right hmem
      rw [applyEntries_of_ne fun e' he' hk' => hmem (hes e' he' hk' ▸ he'), applyEntry, ← hk,
        update_self]

variable {f : R → S} {rows : List R}

lemma rowAt_of_mem {r : R} (hr : r ∈ rows) (hk : key (f r) = k)
    (hu : ∀ r' ∈ rows, key (f r') = k → r' = r) : rowAt key (rows.map f) k = some (f r) := by
  cases hfind : rowAt key (rows.map f) k with
  | none =>
    have hnone := find?_eq_none.mp hfind (f r) (mem_map_of_mem hr)
    exact absurd (decide_eq_true hk) hnone
  | some s =>
    obtain ⟨r', hr', rfl⟩ := mem_map.mp (mem_of_find?_eq_some hfind)
    have hk' : key (f r') = k :=
      of_decide_eq_true (find?_some (p := fun s => decide (key s = k)) hfind)
    rw [hu r' hr' hk']

lemma rowAt_of_ne (h : ∀ r ∈ rows, key (f r) ≠ k) : rowAt key (rows.map f) k = none := by
  refine find?_eq_none.mpr fun s hs => ?_
  obtain ⟨r, hr, rfl⟩ := mem_map.mp hs
  exact fun hk => h r hr (of_decide_eq_true hk)

lemma rowAt_eq_some_iff {s : S} (hu : ∀ r ∈ rows, ∀ r' ∈ rows, key (f r) = key (f r') → r = r') :
    rowAt key (rows.map f) k = some s ↔ s ∈ rows.map f ∧ key s = k := by
  constructor
  · intro h
    exact ⟨mem_of_find?_eq_some h,
      of_decide_eq_true (find?_some (p := fun s => decide (key s = k)) h)⟩
  · rintro ⟨hs, rfl⟩
    obtain ⟨r, hr, rfl⟩ := mem_map.mp hs
    exact rowAt_of_mem hr rfl fun r' hr' hk => hu r' hr' r hr hk

/-- Rows `after` came from rows `before`: `changed` holds the ones that are no longer as they were,
`removed` tells which have gone and `created` which are new.  Rows are sent as values, by `old` from
before, by `new` from after and by `gone` from the removed ones. -/
structure Describes (key : S → K) (id : R → ℕ) (old new gone : R → S) (before after : List R)
    (changed removed created : List R) : Prop where
  /-- Keys are unique before. -/
  eq_of_old : ∀ o ∈ before, ∀ o' ∈ before, key (old o) = key (old o') → o = o'
  /-- Keys are unique after. -/
  eq_of_new : ∀ r ∈ after, ∀ r' ∈ after, key (new r) = key (new r') → r = r'
  /-- A row keeps its key. -/
  key_eq : ∀ o ∈ before, ∀ r ∈ after, id o = id r → key (old o) = key (new r)
  changed_mem : ∀ r ∈ changed, r ∈ after ∧ ∃ o ∈ before, id o = id r
  /-- What is not among the changed rows is sent as before. -/
  unchanged : ∀ o ∈ before, ∀ r ∈ after, id o = id r → r ∉ changed → old o = new r
  removed_mem : ∀ q ∈ removed, ∃ o ∈ before, key (gone q) = key (old o) ∧ ∀ r ∈ after, id o ≠ id r
  exists_removed : ∀ o ∈ before, (∀ r ∈ after, id o ≠ id r) →
    ∃ q ∈ removed, key (gone q) = key (old o)
  created_iff : ∀ r, r ∈ created ↔ r ∈ after ∧ ∀ o ∈ before, id o ≠ id r

/-- The entries of a delta: first the changed rows, then the removed ones, then the new ones. -/
def entries (new gone : R → S) (changed removed created : List R) : List (Entry S) :=
  changed.map (fun r => ⟨true, new r⟩) ++ removed.map (fun q => ⟨false, gone q⟩) ++
    created.map (fun r => ⟨true, new r⟩)

namespace Describes

variable {id : R → ℕ} {old new gone : R → S} {before after changed removed created : List R}

/-- What the entries of rows that are there afterwards do to the key of one of them. -/
lemma applyEntries_present (h : Describes key id old new gone before after changed removed created)
    {rows : List R} (hrows : ∀ r ∈ rows, r ∈ after) {r : R} (hr : r ∈ rows) :
    applyEntries key m (rows.map fun r => ⟨true, new r⟩) (key (new r)) = some (new r) := by
  refine applyEntries_of_mem (e := ⟨true, new r⟩) (mem_map_of_mem hr) rfl ?_
  intro e he hk
  obtain ⟨r', hr', rfl⟩ := mem_map.mp he
  rw [h.eq_of_new r' (hrows r' hr') r (hrows r hr) hk]

/-- What the entries of removed rows do to the key of one of them. -/
lemma applyEntries_removed (hq : ∃ q ∈ removed, key (gone q) = k) :
    applyEntries key m (removed.map fun q => ⟨false, gone q⟩) k = none := by
  induction removed generalizing m with
  | nil =>
    obtain ⟨q, hq, -⟩ := hq
    cases hq
  | cons a removed ih =>
    show applyEntries key (applyEntry key m ⟨false, gone a⟩) _ k = none
    by_cases hmem : ∃ q ∈ removed, key (gone q) = k
    · exact ih hmem
    · obtain ⟨q, hq, hk⟩ := hq
      have ha : q = a := (mem_cons.mp hq).resolve_right fun hq => hmem ⟨q, hq, hk⟩
      rw [applyEntries_of_ne, applyEntry, ← hk, ha, update_self]
      · rfl
      · intro e he hk'
        obtain ⟨q', hq', rfl⟩ := mem_map.mp he
        exact hmem ⟨q', hq', hk'⟩

/-- **A delta reconstructs the rows.**  Applied to the rows from before, by key, its entries give
the rows from after. -/
theorem applyEntries_eq (h : Describes key id old new gone before after changed removed created) :
    applyEntries key (rowAt key (before.map old)) (entries new gone changed removed created) =
      rowAt key (after.map new) := by
  funext k
  rw [entries, applyEntries_append, applyEntries_append]
  by_cases hk : ∃ r ∈ after, key (new r) = k
  · obtain ⟨r, hr, rfl⟩ := hk
    rw [rowAt_of_mem hr rfl fun r' hr' hk => h.eq_of_new r' hr' r hr hk]
    by_cases hnew : r ∈ created
    · exact h.applyEntries_present (fun r hr => ((h.created_iff r).mp hr).1) hnew
    · -- the row continues one from before, which has the same key
      obtain ⟨o, ho, hid⟩ : ∃ o ∈ before, id o = id r := by
        by_contra hno
        exact hnew ((h.created_iff r).mpr ⟨hr, fun o ho hid => hno ⟨o, ho, hid⟩⟩)
      have hkey := h.key_eq o ho r hr hid
      rw [applyEntries_of_ne, applyEntries_of_ne]
      · by_cases hch : r ∈ changed
        · exact h.applyEntries_present (fun r hr => (h.changed_mem r hr).1) hch
        · rw [applyEntries_of_ne, ← hkey, rowAt_of_mem ho rfl, h.unchanged o ho r hr hid hch]
          · exact fun o' ho' hk => h.eq_of_old o' ho' o ho hk
          · intro e he hk
            obtain ⟨r', hr', rfl⟩ := mem_map.mp he
            exact hch (h.eq_of_new r' (h.changed_mem r' hr').1 r hr hk ▸ hr')
      · intro e he hk
        obtain ⟨q, hq, rfl⟩ := mem_map.mp he
        obtain ⟨o', ho', hq', hgone⟩ := h.removed_mem q hq
        have hoo : o' = o := h.eq_of_old o' ho' o ho (hq'.symm.trans (hk.trans hkey.symm))
        exact hgone r hr (hoo ▸ hid)
      · intro e he hk
        obtain ⟨r', hr', rfl⟩ := mem_map.mp he
        exact hnew (h.eq_of_new r' ((h.created_iff r').mp hr').1 r hr hk ▸ hr')
  · -- no row has the key afterwards, so no entry puts one there
    have hne : ∀ r ∈ after, key (new r) ≠ k := fun r hr hrk => hk ⟨r, hr, hrk⟩
    rw [rowAt_of_ne hne, applyEntries_of_ne]
    · by_cases hq : ∃ q ∈ removed, key (gone q) = k
      · exact applyEntries_removed hq
      · rw [applyEntries_of_ne, applyEntries_of_ne, rowAt_of_ne]
        · intro o ho hok
          by_cases hid : ∃ r ∈ after, id o = id r
          · obtain ⟨r, hr, hid⟩ := hid
            exact hne r hr ((h.key_eq o ho r hr hid).symm.trans hok)
          · obtain ⟨q, hqr, hqk⟩ := h.exists_removed o ho fun r hr hid' => hid ⟨r, hr, hid'⟩
            exact hq ⟨q, hqr, hqk.trans hok⟩
        · intro e he
          obtain ⟨r, hr, rfl⟩ := mem_map.mp he
          exact hne r (h.changed_mem r hr).1
        · intro e he hek
          obtain ⟨q, hqr, rfl⟩ := mem_map.mp he
          exact hq ⟨q, hqr, hek⟩
    · intro e he
      obtain ⟨r, hr, rfl⟩ := mem_map.mp he
      exact hne r ((h.created_iff r).mp hr).1

end Describes

end Sysio.Delta
