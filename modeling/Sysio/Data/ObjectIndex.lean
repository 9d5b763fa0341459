import Sysio.Data.Table

/-!
# Indices that number their objects

`ObjectIndex κ ρ id key` is a container of an object database.  Every object gets the next number
when it is created and numbers are not used again; a second index is unique on `key`.  Both laws are
fields of the structure.  Each operation comes with what it does to membership; everything else
about an index follows from that, since objects are determined by their numbers and by their keys.
-/

namespace Sysio

open Table

/-- A collection of objects with a number and a key, both unique. -/
structure ObjectIndex (κ ρ : Type*) (id : ρ → ℕ) (key : ρ → κ) where
  /-- The objects by number. -/
  table : Table ℕ ρ id
  /-- The number of the next object. -/
  nextId : ℕ
  id_lt : ∀ r ∈ table, id r < nextId
  key_inj : ∀ r ∈ table, ∀ s ∈ table, key r = key s → r = s

namespace ObjectIndex

variable {κ ρ : Type*} {id : ρ → ℕ} {key : ρ → κ}

def empty : ObjectIndex κ ρ id key where
  table := .empty
  nextId := 0
  id_lt r hr := absurd hr (Table.not_mem_empty r)
  key_inj r hr := absurd hr (Table.not_mem_empty r)

instance : Membership ρ (ObjectIndex κ ρ id key) := ⟨fun x r => r ∈ x.table⟩

variable {r : ρ} {x : ObjectIndex κ ρ id key}

lemma mem_iff : r ∈ x ↔ r ∈ x.table := Iff.rfl

@[simp]
lemma not_mem_empty (r : ρ) : r ∉ (empty : ObjectIndex κ ρ id key) := Table.not_mem_empty r

lemma id_lt_of_mem (hr : r ∈ x) : id r < x.nextId := x.id_lt r hr

lemma eq_of_id_eq {r s : ρ} (hr : r ∈ x) (hs : s ∈ x) (h : id r = id s) : r = s :=
  Table.eq_of_key_eq hr hs h

lemma eq_of_key_eq {r s : ρ} (hr : r ∈ x) (hs : s ∈ x) (h : key r = key s) : r = s :=
  x.key_inj r hr s hs h

/-! ### Lookup -/

/-- The object with number `i`. -/
def findId? (x : ObjectIndex κ ρ id key) (i : ℕ) : Option ρ := x.table.find? i

lemma findId?_id (hr : r ∈ x) : x.findId? (id r) = some r := find?_key hr

variable [DecidableEq κ]

/-- The object with key `k`. -/
def find? (x : ObjectIndex κ ρ id key) (k : κ) : Option ρ :=
  x.table.rows.find? fun r => decide (key r = k)

lemma find?_eq_some {k : κ} : x.find? k = some r ↔ r ∈ x ∧ key r = k :=
  Table.find?_decide_eq_some x.key_inj

lemma find?_eq_none {k : κ} : x.find? k = none ↔ ∀ r ∈ x, key r ≠ k := by
  unfold find?
  rw [List.find?_eq_none]
  simp [mem_iff, Table.mem_iff]

/-! ### Creation -/

omit [DecidableEq κ] in
lemma find?_nextId (x : ObjectIndex κ ρ id key) : x.table.find? x.nextId = none := by
  rw [Table.find?_eq_none]
  intro r hr
  exact (x.id_lt r hr).ne

/-- Creates the object that `make` builds from the next number, unless its key is taken. -/
def create (x : ObjectIndex κ ρ id key) (make : ℕ → ρ) (hmake : ∀ n, id (make n) = n) :
    Option (ρ × ObjectIndex κ ρ id key) :=
  if hkey : x.find? (key (make x.nextId)) = none then
    have hnew : x.table.find? (id (make x.nextId)) = none := by
      rw [hmake]
      exact x.find?_nextId
    some (make x.nextId,
      { table := x.table.insert (make x.nextId)
        nextId := x.nextId + 1
        id_lt := by
          rw [forall_mem_insert hnew]
          exact ⟨fun r hr => (x.id_lt r hr).trans (Nat.lt_succ_self _),
            by rw [hmake]; exact Nat.lt_succ_self _⟩
        key_inj := by
          rw [find?_eq_none] at hkey
          intro r hr s hs h
          rcases (Table.mem_insert hnew).mp hr with hr | rfl
          · rcases (Table.mem_insert hnew).mp hs with hs | rfl
            · exact x.key_inj r hr s hs h
            · exact absurd h (hkey r hr)
          · rcases (Table.mem_insert hnew).mp hs with hs | rfl
            · exact absurd h.symm (hkey s hs)
            · rfl })
  else none

/-- `y` is `x` with the new object `r`. -/
structure Created (x : ObjectIndex κ ρ id key) (r : ρ) (y : ObjectIndex κ ρ id key) : Prop where
  id_eq : id r = x.nextId
  key_ne : ∀ s ∈ x, key s ≠ key r
  mem_iff : ∀ s, s ∈ y ↔ s ∈ x ∨ s = r
  nextId_eq : y.nextId = x.nextId + 1

lemma create_eq_some {x y : ObjectIndex κ ρ id key} {make : ℕ → ρ} {hmake : ∀ n, id (make n) = n}
    (h : x.create make hmake = some (r, y)) : r = make x.nextId ∧ x.Created r y := by
  unfold create at h
  split_ifs at h with hkey
  cases h
  have hnew : x.table.find? (id (make x.nextId)) = none := by
    rw [hmake]
    exact x.find?_nextId
  exact ⟨rfl, hmake _, find?_eq_none.mp hkey, fun _ => Table.mem_insert hnew, rfl⟩

/-! ### Changes and removal -/

omit [DecidableEq κ] in
lemma mem_table_modify {i : ℕ} {f : ρ → ρ} {hid : ∀ r, id (f r) = id r} :
    r ∈ x.table.modify i f hid ↔ ∃ s ∈ x, r = if id s = i then f s else s := by
  unfold Table.modify
  rw [mem_mapRows]
  simp only [eq_comm, ObjectIndex.mem_iff]

/-- Changes the object with number `i`, but not its number and key. -/
def modify (x : ObjectIndex κ ρ id key) (i : ℕ) (f : ρ → ρ) (hid : ∀ r, id (f r) = id r)
    (hkey : ∀ r, key (f r) = key r) : ObjectIndex κ ρ id key where
  table := x.table.modify i f hid
  nextId := x.nextId
  id_lt r hr := by
    obtain ⟨s, hs, rfl⟩ := mem_table_modify.mp hr
    split_ifs
    · rw [hid]
      exact x.id_lt s hs
    · exact x.id_lt s hs
  key_inj r hr s hs h := by
    obtain ⟨r', hr', rfl⟩ := mem_table_modify.mp hr
    obtain ⟨s', hs', rfl⟩ := mem_table_modify.mp hs
    have hf : ∀ t, key (if id t = i then f t else t) = key t := fun t => by
      split_ifs
      · exact hkey t
      · rfl
    rw [hf, hf] at h
    rw [x.key_inj r' hr' s' hs' h]

omit [DecidableEq κ] in
lemma mem_modify {i : ℕ} {f : ρ → ρ} (hid : ∀ r, id (f r) = id r)
    (hkey : ∀ r, key (f r) = key r) :
    r ∈ x.modify i f hid hkey ↔ ∃ s ∈ x, r = if id s = i then f s else s := by
  change r ∈ x.table.modify i f hid ↔ _
  exact mem_table_modify

/-- Removes the object with number `i`. -/
def remove (x : ObjectIndex κ ρ id key) (i : ℕ) : ObjectIndex κ ρ id key where
  table := x.table.erase i
  nextId := x.nextId
  id_lt r hr := x.id_lt r (mem_erase.mp hr).1
  key_inj r hr s hs := x.key_inj r (mem_erase.mp hr).1 s (mem_erase.mp hs).1

omit [DecidableEq κ] in
lemma mem_remove {i : ℕ} : r ∈ x.remove i ↔ r ∈ x ∧ id r ≠ i := mem_erase

end ObjectIndex

end Sysio
