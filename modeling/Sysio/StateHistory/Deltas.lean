import Sysio.Data.Deltas
import Sysio.StateHistory.Rows

/-!
# State history deltas

`pack_deltas` writes, for every block, what the block changed in the tables of the state, or all
their rows when the history starts.  It asks the database which rows were modified, removed and
created since the block before, leaves out modified rows whose exported fields are as they were, and
writes per table a name, a count and the rows.

`Session` says when a state came from another through one block.  The result is
`Session.exists_deltas`: the deltas can be written, and a reader who applies them to the rows of the
earlier state has the rows of the later one.  This needs rows that are small enough: a
deferred transaction of more than 20 MiB can be stored, but not be written (`exists_unwritable`).
-/

namespace Sysio.StateHistory

open Result List Option Lookup RowField ResourceLimitsRow Delta TableKind UInt64

variable {n tId tId' : ℕ}

/-! ### The database -/

/-- The objects of every table, in the order of their numbers. -/
abbrev Database := (k : TableKind) → List (Stored (Row k))

/-- What `last_undo_session` of an index lists. -/
structure UndoSession (R : Type) where
  /-- Modified objects, as they were. -/
  oldValues : List (Stored R)
  removedValues : List (Stored R)
  newValues : List (Stored R)

/-- The last undo session of every index. -/
abbrev Undo := (k : TableKind) → UndoSession (Row k)

def find {R : Type} (index : List (Stored R)) (id : ℕ) : Option (Stored R) :=
  index.find? fun o => o.id = id

def get {R : Type} (index : List (Stored R)) (id : ℕ) : Result (Stored R) :=
  require (find index id) .outOfRange "key not found"

/-- Tables and parents are looked up in the database and, where they are gone, among the removed
ones.  The removed tables are in a map, which keeps the last of equal keys. -/
def lookup (db : Database) (undo : Undo) : Lookup where
  table? tId := ((find (db .contractTable) tId).or
    (find (undo .contractTable).removedValues.reverse tId)).map Stored.obj
  permission? id := ((find (db .permission) id).or
    (find (undo .permission).removedValues id)).map Stored.obj

/-! ### Writing deltas -/

/-- `table_delta_v0`. -/
structure TableDelta where
  name : String
  /-- The number that is written before the rows. -/
  numEntries : ℕ
  rows : List (Delta.Entry (List RowField))
  deriving DecidableEq, Repr

/-- What `pack_deltas` writes. -/
structure Deltas where
  /-- The number that is written before the tables. -/
  numTables : ℕ
  tables : List TableDelta
  deriving DecidableEq, Repr

section Pack

variable (db : Database) (undo : Undo) (k : TableKind)

/-- `pack_row_v0`. -/
def packRow (present : Bool) (row : Stored (Row k)) : Result (Delta.Entry (List RowField)) :=
  Delta.Entry.mk present <$> (lookup db undo).serialize k row.obj

/-- The modified rows that `include_delta` selects, as they are now. -/
def modifiedRows : List (Stored (Row k)) → Result (List (Stored (Row k)))
  | [] => pure []
  | old :: olds => do
    let row ← get (db k) old.id
    let rows ← modifiedRows olds
    pure (if includeDelta k old.obj row.obj then row :: rows else rows)

/-- Whether `include_delta` selects a modified row: the search stops at the first. -/
def hasModifiedRow : List (Stored (Row k)) → Result Bool
  | [] => pure false
  | old :: olds => do
    let row ← get (db k) old.id
    if includeDelta k old.obj row.obj then pure true else hasModifiedRow olds

/-- `process_table` for a full snapshot. -/
def processSnapshot : Result (Option TableDelta) :=
  if (db k).isEmpty then pure none
  else do
    let rows ← (db k).mapM (packRow db undo k true)
    pure (some ⟨k.name, u32 (db k).length, rows⟩)

/-- `process_table` for a delta, after the count: modified rows, then removed ones, then new ones.
-/
def processEntries (modified : List (Stored (Row k))) :
    Result (List (Delta.Entry (List RowField))) := do
  let rows ← modified.mapM (packRow db undo k true)
  let removed ← (undo k).removedValues.mapM (packRow db undo k false)
  let created ← (undo k).newValues.mapM (packRow db undo k true)
  pure (rows ++ removed ++ created)

/-- `process_table` for a delta. -/
def processDelta : Result (Option TableDelta) := do
  let modified ← modifiedRows db k (undo k).oldValues
  let numEntries := modified.length + (undo k).removedValues.length + (undo k).newValues.length
  if numEntries = 0 then pure none
  else
    let rows ← processEntries db undo k modified
    pure (some ⟨k.name, u32 numEntries, rows⟩)

def processTable (fullSnapshot : Bool) : Result (Option TableDelta) :=
  if fullSnapshot then processSnapshot db undo k else processDelta db undo k

def hasTable (fullSnapshot : Bool) : Result Bool :=
  if fullSnapshot then pure (!(db k).isEmpty)
  else do
    let modified ← hasModifiedRow db k (undo k).oldValues
    pure (modified || !(undo k).removedValues.isEmpty || !(undo k).newValues.isEmpty)

end Pack

def packDeltas (db : Database) (undo : Undo) (fullSnapshot : Bool) : Result Deltas := do
  let present ← TableKind.all.mapM fun k => hasTable db undo k fullSnapshot
  let tables ← TableKind.all.mapM fun k => processTable db undo k fullSnapshot
  pure ⟨present.count true, tables.filterMap id⟩

namespace Deltas

def entries (d : Deltas) (k : TableKind) : List (Delta.Entry (List RowField)) :=
  ((d.tables.find? fun t => t.name = k.name).map TableDelta.rows).getD []

/-- The rows of a table, which a full snapshot has as entries that are present. -/
def rows (d : Deltas) (k : TableKind) : List (List RowField) := (d.entries k).map Delta.Entry.row

/-- The numbers that are written before the tables and before the rows are right. -/
structure Counted (d : Deltas) : Prop where
  tables : d.numTables = d.tables.length
  rows : ∀ t ∈ d.tables, t.numEntries = t.rows.length

end Deltas

/-! ### States and sessions -/

/-- A state between two blocks: numbers are unique, and so is what an index is unique on; the tables
of contract rows and the parents of permissions exist; every code has the type and version that
`setcode` asks for; and no limits are pending. -/
structure Valid (db : Database) : Prop where
  eq_of_id : ∀ k, ∀ r ∈ db k, ∀ r' ∈ db k, r.id = r'.id → r = r'
  eq_of_uniqueKey : ∀ k, ∀ r ∈ db k, ∀ r' ∈ db k, uniqueKey k r.obj = uniqueKey k r'.obj → r = r'
  exists_table : ∀ k, ∀ r ∈ db k, ∀ tId, tableOf? k r.obj = some tId →
    ∃ t ∈ db .contractTable, t.id = tId
  exists_parent : ∀ k, ∀ r ∈ db k, ∀ p, parentOf? k r.obj = some p → ∃ q ∈ db .permission, q.id = p
  code_vm : ∀ r ∈ db .code, CodeObject.vmType r.obj = 0 ∧ CodeObject.vmVersion r.obj = 0
  settled : ∀ k, ∀ r ∈ db k, isPending k r.obj = false

/-- A block took the database from `before` to `after`, and `undo` lists what it did.  A row that
keeps its number keeps what is fixed; so does a row that is removed, which may be listed as it was
before the block or as it was when it was removed. -/
structure Session (before after : Database) (undo : Undo) : Prop where
  before_valid : Valid before
  after_valid : Valid after
  fixed : ∀ k, ∀ o ∈ before k, ∀ r ∈ after k, o.id = r.id →
    fixedFields k o.obj = fixedFields k r.obj
  old_mem : ∀ k, ∀ o ∈ (undo k).oldValues, o ∈ before k ∧ ∃ r ∈ after k, o.id = r.id
  eq_of_not_old : ∀ k, ∀ o ∈ before k, ∀ r ∈ after k, o.id = r.id → o ∉ (undo k).oldValues → o = r
  removed_mem : ∀ k, ∀ q ∈ (undo k).removedValues, ∃ o ∈ before k, o.id = q.id ∧
    fixedFields k o.obj = fixedFields k q.obj ∧ ∀ r ∈ after k, o.id ≠ r.id
  exists_removed : ∀ k, ∀ o ∈ before k, (∀ r ∈ after k, o.id ≠ r.id) →
    ∃ q ∈ (undo k).removedValues, o.id = q.id
  new_iff : ∀ k r, r ∈ (undo k).newValues ↔ r ∈ after k ∧ ∀ o ∈ before k, o.id ≠ r.id

/-- All rows are small enough to be written. -/
def AllFit (rows : (k : TableKind) → List (Stored (Row k))) : Prop :=
  ∀ k, ∀ r ∈ rows k, Fits k r.obj

/-! ### Lookups -/

section Lookups

variable {R : Type} {index : List (Stored R)} {id : ℕ} {o r : Stored R}

lemma find_eq_some (h : find index id = some r) : r ∈ index ∧ r.id = id :=
  ⟨mem_of_find?_eq_some h,
    of_decide_eq_true (find?_some (p := fun o : Stored R => decide (o.id = id)) h)⟩

lemma exists_find (hr : r ∈ index) : ∃ r', find index r.id = some r' := by
  refine isSome_iff_exists.mp (find?_isSome.mpr ⟨r, hr, ?_⟩)
  exact decide_eq_true rfl

lemma find_eq_none (h : ∀ r ∈ index, id ≠ r.id) : find index id = none :=
  find?_eq_none.mpr fun r hr hid => h r hr (of_decide_eq_true hid).symm

end Lookups

namespace Valid

variable {db : Database} (hv : Valid db) (hfit : AllFit db) (undo : Undo) {k : TableKind}
  {r r' : Stored (Row k)}

include hv

lemma find_eq (hr : r ∈ db k) : find (db k) r.id = some r := by
  obtain ⟨r', hr'⟩ := exists_find hr
  obtain ⟨hmem, hid⟩ := find_eq_some hr'
  rw [hr', hv.eq_of_id k r' hmem r hr hid]

include hfit in
lemma sendable (hr : r ∈ db k) : (lookup db undo).Sendable k r.obj where
  table tId h := by
    obtain ⟨t, ht, rfl⟩ := hv.exists_table k r hr tId h
    simp only [lookup, hv.find_eq ht, some_or]
    rfl
  parent p h := by
    obtain ⟨q, hq, rfl⟩ := hv.exists_parent k r hr p h
    simp only [lookup, hv.find_eq hq, some_or]
    rfl
  settled := hv.settled k r hr
  fits := hfit k r hr

end Valid

/-- What is sent of a row that can be sent. -/
def Lookup.send (ctx : Lookup) (k : TableKind) (r : Stored (Row k)) : List RowField :=
  (ctx.serialize k r.obj).toOption.getD []

variable {k : TableKind} {db : Database} {r r' : Stored (Row k)}
  {table : TableKind → Option TableDelta}

lemma Lookup.Sendable.serialize_eq {ctx : Lookup}
    (h : ctx.Sendable k r.obj) : ctx.serialize k r.obj = .ok (ctx.send k r) := by
  obtain ⟨fields, hfields⟩ := exists_serialize h
  unfold send
  rw [hfields]
  rfl

lemma Valid.tableNames_eq (hv : Valid db) (undo : Undo) (hr : r ∈ db k)
    (ht : tableOf? k r.obj = some tId) : ∃ t ∈ db .contractTable, t.id = tId ∧
      (lookup db undo).tableNames k r.obj = some (uniqueKey .contractTable t.obj) := by
  obtain ⟨t, htmem, rfl⟩ := hv.exists_table k r hr tId ht
  refine ⟨t, htmem, rfl, ?_⟩
  simp only [tableNames, ht, bind_some, lookup, hv.find_eq htmem, some_or]
  rfl

/-- Contract rows with the same natural key are rows of the same table. -/
lemma Valid.uniqueKey_eq_of_table (hv : Valid db) (undo : Undo) (hr : r ∈ db k) (hr' : r' ∈ db k)
    (ht : tableOf? k r.obj = some tId) (ht' : tableOf? k r'.obj = some tId')
    (h : ((lookup db undo).tableNames k r.obj).getD [] ++ ownKey k (uniqueKey k r.obj) =
      ((lookup db undo).tableNames k r'.obj).getD [] ++ ownKey k (uniqueKey k r'.obj)) :
    uniqueKey k r.obj = uniqueKey k r'.obj := by
  obtain ⟨t, htmem, hid, hnames⟩ := hv.tableNames_eq undo hr ht
  obtain ⟨t', htmem', hid', hnames'⟩ := hv.tableNames_eq undo hr' ht'
  rw [hnames, hnames', getD_some, getD_some] at h
  obtain ⟨hkey, hown⟩ := append_inj h rfl
  have heq : t = t' := hv.eq_of_uniqueKey .contractTable t htmem t' htmem' hkey
  have hids : tId' = tId := by
    rw [← hid, ← hid', heq]
  exact uniqueKey_eq_of_tableOf? ht (hids ▸ ht') hown

lemma Valid.eq_of_naturalKey (hv : Valid db) (hfit : AllFit db) (undo : Undo) (hr : r ∈ db k)
    (hr' : r' ∈ db k)
    (h : naturalKey k ((lookup db undo).send k r) = naturalKey k ((lookup db undo).send k r')) :
    r = r' := by
  refine hv.eq_of_uniqueKey k r hr r' hr' ?_
  rw [naturalKey_of_serialize (hv.sendable hfit undo hr).serialize_eq,
    naturalKey_of_serialize (hv.sendable hfit undo hr').serialize_eq] at h
  cases k <;> first
    | exact h
    | exact hv.uniqueKey_eq_of_table undo hr hr' rfl rfl h
    | skip
  case code =>
    -- the hash alone is the natural key, type and version are always zero
    obtain ⟨htype, hversion⟩ := hv.code_vm r hr
    obtain ⟨htype', hversion'⟩ := hv.code_vm r' hr'
    have hhash : digest (CodeObject.codeHash r.obj) = .digest (CodeObject.codeHash r'.obj) :=
      head_eq_of_cons_eq h
    simp only [uniqueKey, hhash, htype, hversion, htype', hversion']
  case resourceLimits =>
    have hpending : pending r.obj = false := hv.settled _ r hr
    have hpending' : pending r'.obj = false := hv.settled _ r' hr'
    have howner : ofName (owner r.obj) =
        .ofName (owner r'.obj) :=
      head_eq_of_cons_eq h
    simp only [uniqueKey, howner, hpending, hpending']

/-! ### One table of a session -/

namespace Session

variable {before after : Database} {undo : Undo} (h : Session before after undo) (undo' : Undo)
  {o q : Stored (Row k)}

include h

/-- A row from before is found, as it is now or among the removed rows. -/
lemma exists_found {removed : List (Stored (Row k))}
    (hrem : ∀ q, q ∈ removed ↔ q ∈ (undo k).removedValues) (ho : o ∈ before k) :
    ∃ r, (find (after k) o.id).or (find removed o.id) = some r ∧
      fixedFields k o.obj = fixedFields k r.obj := by
  by_cases hid : ∃ r ∈ after k, o.id = r.id
  · obtain ⟨r, hr, hid⟩ := hid
    refine ⟨r, ?_, h.fixed k o ho r hr hid⟩
    rw [hid, h.after_valid.find_eq hr, some_or]
  · have hgone : ∀ r ∈ after k, o.id ≠ r.id := fun r hr hid' => hid ⟨r, hr, hid'⟩
    obtain ⟨q, hq, hoq⟩ := h.exists_removed k o ho hgone
    obtain ⟨q', hq'⟩ := exists_find ((hrem q).mpr hq)
    obtain ⟨hmem, hid'⟩ := find_eq_some hq'
    obtain ⟨o', ho', hoid, hfixed, -⟩ := h.removed_mem k q' ((hrem q').mp hmem)
    have heq : o' = o := h.before_valid.eq_of_id k o' ho' o ho (hoid.trans (hid'.trans hoq.symm))
    refine ⟨q', ?_, heq ▸ hfixed⟩
    rw [find_eq_none hgone, none_or, hoq, hq']

/-- The lookups at the end of a session find the names from before. -/
lemma agrees {row : Row k}
    (htable : ∀ tId, tableOf? k row = some tId → ∃ t ∈ before .contractTable, t.id = tId)
    (hparent : ∀ p, parentOf? k row = some p → ∃ q ∈ before .permission, q.id = p) :
    (lookup before undo').Agrees (lookup after undo) k row where
  table tId hid := by
    obtain ⟨t, ht, rfl⟩ := htable tId hid
    obtain ⟨t', ht', hfixed⟩ := h.exists_found (fun q => mem_reverse) ht
    simp only [lookup, h.before_valid.find_eq ht, ht', some_or]
    exact congrArg some hfixed
  parent p hp := by
    obtain ⟨q, hq, rfl⟩ := hparent p hp
    obtain ⟨q', hq', hfixed⟩ := h.exists_found (fun q => Iff.rfl) hq
    simp only [lookup, h.before_valid.find_eq hq, hq', some_or]
    have hkey := uniqueKey_eq_of_fixedFields hfixed
    simp only [uniqueKey, cons.injEq, and_true] at hkey
    exact congrArg some (ofName_injective hkey.2)

lemma agrees_of_mem (ho : o ∈ before k) :
    (lookup before undo').Agrees (lookup after undo) k o.obj :=
  h.agrees undo' (h.before_valid.exists_table k o ho) (h.before_valid.exists_parent k o ho)

section Writing

variable (hbefore : AllFit before)
include hbefore

/-- Rows that keep what is fixed have the same natural key, before and after. -/
lemma naturalKey_eq (ho : o ∈ before k) (hr : (lookup after undo).Sendable k r.obj)
    (hfixed : fixedFields k o.obj = fixedFields k r.obj) :
    naturalKey k ((lookup before undo').send k o) =
      naturalKey k ((lookup after undo).send k r) := by
  have hkey := uniqueKey_eq_of_fixedFields hfixed
  have htable := tableOf?_eq_of_uniqueKey hkey
  rw [naturalKey_of_serialize (h.before_valid.sendable hbefore undo' ho).serialize_eq,
    naturalKey_of_serialize hr.serialize_eq, hkey]
  congr 2
  unfold tableNames
  rw [← htable]
  cases htab : tableOf? k o.obj with
  | none => rfl
  | some tId => exact (h.agrees_of_mem undo' ho).table tId htab

variable (hremoved : AllFit fun k => (undo k).removedValues)
include hremoved

lemma sendable_removed (hq : q ∈ (undo k).removedValues) :
    (lookup after undo).Sendable k q.obj := by
  obtain ⟨o, ho, -, hfixed, -⟩ := h.removed_mem k q hq
  have hkey := uniqueKey_eq_of_fixedFields hfixed
  have hsend := h.before_valid.sendable hbefore undo ho
  have hagrees := h.agrees_of_mem undo ho
  refine ⟨?_, ?_, ?_, hremoved k q hq⟩
  · intro tId hid
    rw [← tableOf?_eq_of_uniqueKey hkey] at hid
    have hsome := hsend.table tId hid
    rwa [← isSome_map (f := TableIdRow.names), hagrees.table tId hid, isSome_map] at hsome
  · intro p hp
    rw [← parentOf?_eq_of_fixedFields hfixed] at hp
    have hsome := hsend.parent p hp
    rwa [← isSome_map (f := PermissionRow.name), hagrees.parent p hp, isSome_map] at hsome
  · rw [← isPending_eq_of_uniqueKey hkey]
    exact hsend.settled

omit h hbefore hremoved in
lemma modifiedRows_spec (hv : Valid after) {olds : List (Stored (Row k))}
    (hold : ∀ o ∈ olds, ∃ r ∈ after k, o.id = r.id) : ∃ rows, modifiedRows after k olds = .ok rows ∧
      (∀ r, r ∈ rows ↔ r ∈ after k ∧ ∃ o ∈ olds, o.id = r.id ∧ includeDelta k o.obj r.obj) ∧
      hasModifiedRow after k olds = .ok (!rows.isEmpty) ∧ rows.length ≤ olds.length := by
  induction olds with
  | nil => exact ⟨[], rfl, by simp, rfl, le_rfl⟩
  | cons old olds ih =>
    obtain ⟨⟨r, hr, hid⟩, holds⟩ := forall_mem_cons.mp hold
    obtain ⟨rows, hrows, hmem, hhas, hlen⟩ := ih holds
    have hget : get (after k) old.id = .ok r := by
      rw [get, hid, hv.find_eq hr]
      rfl
    have hr' : ∀ r' ∈ after k, old.id = r'.id → r' = r := fun r' hr' hid' =>
      hv.eq_of_id k r' hr' r hr (hid'.symm.trans hid)
    simp only [modifiedRows, hasModifiedRow, hget, hrows, ok_bind]
    by_cases hinc : includeDelta k old.obj r.obj
    · refine ⟨r :: rows, by rw [if_pos hinc]; rfl, fun r' => ?_, by rw [if_pos hinc]; rfl,
        Nat.succ_le_succ hlen⟩
      simp only [hmem, mem_cons, or_and_right, exists_or, exists_eq_left]
      constructor
      · rintro (rfl | ⟨hmem', hex⟩)
        · exact ⟨hr, .inl ⟨hid, hinc⟩⟩
        · exact ⟨hmem', .inr hex⟩
      · rintro ⟨hmem', ⟨hid', -⟩ | hex⟩
        · exact .inl (hr' r' hmem' hid')
        · exact .inr ⟨hmem', hex⟩
    · refine ⟨rows, by rw [if_neg hinc]; rfl, fun r' => ?_, by rw [if_neg hinc, hhas],
        Nat.le_succ_of_le hlen⟩
      simp only [hmem, mem_cons, or_and_right, exists_or, exists_eq_left]
      constructor
      · exact fun ⟨hmem', hex⟩ => ⟨hmem', .inr hex⟩
      · rintro ⟨hmem', ⟨hid', hinc'⟩ | hex⟩
        · exact absurd (hr' r' hmem' hid' ▸ hinc') hinc
        · exact ⟨hmem', hex⟩

variable (hafter : AllFit after)

include hafter in
/-- **The rows that a delta sends of a table describe what the session did to it.** -/
theorem describes {modified : List (Stored (Row k))} (hmodified : ∀ r, r ∈ modified ↔
      r ∈ after k ∧ ∃ o ∈ (undo k).oldValues, o.id = r.id ∧ includeDelta k o.obj r.obj) :
    Describes (naturalKey k) Stored.id ((lookup before undo').send k)
      ((lookup after undo).send k) ((lookup after undo).send k) (before k) (after k) modified
      (undo k).removedValues (undo k).newValues where
  eq_of_old o ho o' ho' hkey := h.before_valid.eq_of_naturalKey hbefore undo' ho ho' hkey
  eq_of_new r hr r' hr' hkey := h.after_valid.eq_of_naturalKey hafter undo hr hr' hkey
  key_eq o ho r hr hid :=
    h.naturalKey_eq undo' hbefore ho (h.after_valid.sendable hafter undo hr)
      (h.fixed k o ho r hr hid)
  changed_mem r hr := by
    obtain ⟨hmem, o, ho, hid, -⟩ := (hmodified r).mp hr
    exact ⟨hmem, o, (h.old_mem k o ho).1, hid⟩
  unchanged o ho r hr hid hnot := by
    unfold send
    rw [serialize_congr (h.agrees_of_mem undo' ho)]
    by_cases hold : o ∈ (undo k).oldValues
    · -- the row was modified, but not selected
      have hinc : includeDelta k o.obj r.obj = false := by
        by_contra hinc
        exact hnot ((hmodified r).mpr ⟨hr, o, hold, hid, Bool.of_not_eq_false hinc⟩)
      rw [serialize_eq_of_not_includeDelta (h.fixed k o ho r hr hid) hinc]
    · rw [h.eq_of_not_old k o ho r hr hid hold]
  removed_mem q hq := by
    obtain ⟨o, ho, -, hfixed, hgone⟩ := h.removed_mem k q hq
    have hsend := h.sendable_removed hbefore hremoved hq
    exact ⟨o, ho, (h.naturalKey_eq undo' hbefore ho hsend hfixed).symm, hgone⟩
  exists_removed o ho hgone := by
    obtain ⟨q, hq, hid⟩ := h.exists_removed k o ho hgone
    obtain ⟨o', ho', hid', hfixed, -⟩ := h.removed_mem k q hq
    have heq : o' = o := h.before_valid.eq_of_id k o' ho' o ho (hid'.trans hid.symm)
    have hsend := h.sendable_removed hbefore hremoved hq
    exact ⟨q, hq, (h.naturalKey_eq undo' hbefore ho hsend (heq ▸ hfixed)).symm⟩
  created_iff r := h.new_iff k r

end Writing

end Session

/-! ### Packing -/

lemma Result.mapM_eq_ok_map {α β : Type} {f : α → Result β} {g : α → β} {l : List α}
    (h : ∀ a ∈ l, f a = .ok (g a)) : l.mapM f = .ok (l.map g) := by
  induction l with
  | nil => rfl
  | cons a l ih =>
    obtain ⟨ha, hl⟩ := forall_mem_cons.mp h
    rw [mapM_cons, ha, ok_bind, ih hl]
    rfl

lemma mapM_packRow {undo : Undo} {rows : List (Stored (Row k))} (present : Bool)
    (h : ∀ r ∈ rows, (lookup db undo).Sendable k r.obj) : rows.mapM (packRow db undo k present) =
      .ok (rows.map fun r => ⟨present, (lookup db undo).send k r⟩) := by
  refine Result.mapM_eq_ok_map fun r hr => ?_
  rw [packRow, (h r hr).serialize_eq]
  rfl

/-- What is written for the tables, given what is written for each. -/
lemma packDeltas_eq {undo : Undo} {full : Bool}
    (htable : ∀ k, processTable db undo k full = .ok (table k))
    (hhas : ∀ k, hasTable db undo k full = .ok (table k).isSome) : packDeltas db undo full =
      .ok ⟨(TableKind.all.filterMap table).length, TableKind.all.filterMap table⟩ := by
  rw [packDeltas, Result.mapM_eq_ok_map fun k _ => hhas k, ok_bind,
    Result.mapM_eq_ok_map fun k _ => htable k, ok_bind, filterMap_map,
    length_filterMap_eq_countP, List.count, countP_map]
  simp only [Function.comp_def, beq_true]
  rfl

lemma entries_eq (k : TableKind) (hname : ∀ k, ∀ t ∈ table k, t.name = k.name) :
    (⟨n, all.filterMap table⟩ : Deltas).entries k =
      ((table k).map TableDelta.rows).getD [] := by
  have hfind : ∀ l : List TableKind, k ∈ l →
      (l.filterMap table).find? (fun t => t.name = k.name) = table k := by
    intro l hk
    induction l with
    | nil => cases hk
    | cons a l ih =>
      cases ha : table a with
      | none =>
        rw [filterMap_cons_none ha]
        rcases mem_cons.mp hk with rfl | hk
        · rw [ha]
          refine find?_eq_none.mpr fun t ht hname' => ?_
          obtain ⟨k', hk', ht⟩ := mem_filterMap.mp ht
          have heq : k' = k := name_injective
            ((hname k' t ht).symm.trans (of_decide_eq_true hname'))
          rw [heq, ha] at ht
          cases ht
        · exact ih hk
      | some t =>
        rw [filterMap_cons_some ha]
        by_cases hka : k = a
        · rw [find?_cons_of_pos, hka, ha]
          exact decide_eq_true (hka ▸ hname a t ha)
        · rw [find?_cons_of_neg, ih ((mem_cons.mp hk).resolve_left hka)]
          intro hname'
          exact hka (name_injective
            ((of_decide_eq_true hname').symm.trans (hname a t ha)))
  unfold Deltas.entries
  rw [hfind _ k.mem_all]

/-- What is written for a table with these entries. -/
def tableDelta? (k : TableKind) (rows : List (Delta.Entry (List RowField))) : Option TableDelta :=
  if rows = [] then none else some ⟨k.name, u32 rows.length, rows⟩

lemma name_of_tableDelta? {rows : List (Entry (List RowField))}
    {t : TableDelta} (h : t ∈ tableDelta? k rows) : t.name = k.name := by
  unfold tableDelta? at h
  split_ifs at h
  · cases h
  · cases h
    rfl

lemma rows_tableDelta? (k : TableKind) (rows : List (Entry (List RowField))) :
    ((tableDelta? k rows).map TableDelta.rows).getD [] = rows := by
  unfold tableDelta?
  split_ifs with h
  · exact h.symm
  · rfl

def snapshotEntries (db : Database) (undo : Undo) (k : TableKind) :
    List (Delta.Entry (List RowField)) :=
  (db k).map fun r => ⟨true, (lookup db undo).send k r⟩

lemma Valid.packDeltas_eq (hv : Valid db) (hfit : AllFit db) (undo : Undo) :
    ∃ d, packDeltas db undo true = .ok d ∧ ∀ k, d.entries k = snapshotEntries db undo k := by
  refine ⟨⟨_, TableKind.all.filterMap fun k => tableDelta? k (snapshotEntries db undo k)⟩,
    StateHistory.packDeltas_eq (fun k => ?_) (fun k => ?_), fun k => ?_⟩
  · show processSnapshot db undo k = _
    unfold processSnapshot tableDelta? snapshotEntries
    rw [mapM_packRow true fun r hr => hv.sendable hfit undo hr, length_map]
    simp only [map_eq_nil_iff, List.isEmpty_iff, ok_bind]
    split_ifs <;> rfl
  · show Except.ok (!(db k).isEmpty) = _
    simp only [tableDelta?, snapshotEntries, map_eq_nil_iff]
    cases db k <;> rfl
  · rw [entries_eq k fun k t => name_of_tableDelta?, rows_tableDelta?]

/-- The entries of a delta, given the modified rows that are sent. -/
def deltaEntries (after : Database) (undo : Undo) (k : TableKind)
    (modified : List (Stored (Row k))) : List (Delta.Entry (List RowField)) :=
  Delta.entries ((lookup after undo).send k) ((lookup after undo).send k) modified
    (undo k).removedValues (undo k).newValues

lemma length_deltaEntries (after : Database) (undo : Undo)
    (modified : List (Stored (Row k))) : (deltaEntries after undo k modified).length =
      modified.length + (undo k).removedValues.length + (undo k).newValues.length := by
  simp only [deltaEntries, entries, length_append, length_map]

namespace Session

variable {before after : Database} {undo : Undo} (h : Session before after undo)
  (hbefore : AllFit before) (hafter : AllFit after)
  (hremoved : AllFit fun k => (undo k).removedValues)

include h hbefore hafter hremoved

lemma processDelta_eq {modified : List (Stored (Row k))} (hmodified : ∀ r, r ∈ modified ↔
      r ∈ after k ∧ ∃ o ∈ (undo k).oldValues, o.id = r.id ∧ includeDelta k o.obj r.obj)
    (hrows : modifiedRows after k (undo k).oldValues = .ok modified) :
    processDelta after undo k = .ok (tableDelta? k (deltaEntries after undo k modified)) := by
  have hnew : ∀ r ∈ (undo k).newValues, (lookup after undo).Sendable k r.obj := fun r hr =>
    h.after_valid.sendable hafter undo ((h.new_iff k r).mp hr).1
  have hentries : processEntries after undo k modified =
      .ok (deltaEntries after undo k modified) := by
    rw [processEntries, mapM_packRow true fun r hr =>
        h.after_valid.sendable hafter undo ((hmodified r).mp hr).1, ok_bind,
      mapM_packRow false fun q hq => h.sendable_removed hbefore hremoved hq, ok_bind,
      mapM_packRow true hnew]
    rfl
  simp only [processDelta, hrows, ok_bind, hentries, tableDelta?,
    ← length_deltaEntries after undo modified, length_eq_zero_iff]
  split_ifs <;> rfl

omit h hbefore hafter hremoved in
lemma hasTable_eq {modified : List (Stored (Row k))}
    (hhas : hasModifiedRow after k (undo k).oldValues = .ok (!modified.isEmpty)) :
    hasTable after undo k false =
      .ok (tableDelta? k (deltaEntries after undo k modified)).isSome := by
  have hempty : (deltaEntries after undo k modified = []) ↔
      modified = [] ∧ (undo k).removedValues = [] ∧ (undo k).newValues = [] := by
    simp [deltaEntries, entries]
  show (hasModifiedRow after k (undo k).oldValues >>= fun modified => _) = _
  rw [hhas, ok_bind, tableDelta?]
  simp only [hempty]
  cases modified <;> cases (undo k).removedValues <;> cases (undo k).newValues <;> rfl

lemma packDeltas_eq : ∃ modified : (k : TableKind) → List (Stored (Row k)),
    (∀ k r, r ∈ modified k ↔ r ∈ after k ∧
      ∃ o ∈ (undo k).oldValues, o.id = r.id ∧ includeDelta k o.obj r.obj) ∧
    (∀ k, (modified k).length ≤ (undo k).oldValues.length) ∧ packDeltas after undo false = .ok
      ⟨(all.filterMap fun k =>
          tableDelta? k (deltaEntries after undo k (modified k))).length,
        all.filterMap fun k =>
          tableDelta? k (deltaEntries after undo k (modified k))⟩ := by
  choose modified hrows hmem hhas hlen using fun k =>
    modifiedRows_spec h.after_valid fun o ho => (h.old_mem k o ho).2
  exact ⟨modified, hmem, hlen, StateHistory.packDeltas_eq
    (fun k => h.processDelta_eq hbefore hafter hremoved (hmem k) (hrows k))
    fun k => hasTable_eq (hhas k)⟩

end Session

/-- A table of contract `1` with one row, both with a number and a payer. -/
def demoTable (id : ℕ) (payer : UInt64) : Database
  | .contractTable => [⟨id, (⟨⟨1⟩, ⟨1⟩, ⟨1⟩, ⟨payer⟩, 1⟩ : TableIdRow)⟩]
  | .contractRow => [⟨id, (⟨id, 5, ⟨payer⟩, [7]⟩ : KeyValueRow)⟩]
  | _ => []

/-- The session in which table and row go and come back with other numbers. -/
def demoUndo (k : TableKind) : UndoSession (Row k) := ⟨[], demoTable 0 1 k, demoTable 1 2 k⟩

lemma valid_demoTable (id : ℕ) (payer : UInt64) : Valid (demoTable id payer) where
  eq_of_id k := by cases k <;> simp [demoTable]
  eq_of_uniqueKey k := by cases k <;> simp [demoTable]
  exists_table k := by cases k <;> simp [demoTable, tableOf?]
  exists_parent k := by cases k <;> simp [demoTable, parentOf?]
  code_vm := by simp [demoTable]
  settled k := by cases k <;> simp [demoTable, isPending]

lemma allFit_demoTable (id : ℕ) (payer : UInt64) : AllFit (demoTable id payer) := by
  intro k
  cases k <;> simp [demoTable, Fits]

lemma session_demoTable : Session (demoTable 0 1) (demoTable 1 2) demoUndo where
  before_valid := valid_demoTable 0 1
  after_valid := valid_demoTable 1 2
  fixed k := by cases k <;> simp [demoTable]
  old_mem k := by simp [demoUndo]
  eq_of_not_old k := by cases k <;> simp [demoTable]
  removed_mem k := by cases k <;> simp [demoTable, demoUndo]
  exists_removed k := by cases k <;> simp [demoTable, demoUndo]
  new_iff k := by cases k <;> simp [demoTable, demoUndo]

/-- The first exception is that of the whole list. -/
lemma Result.mapM_eq_error {α β : Type} {f : α → Result β} {a : α} {l l' : List α}
    {e : ChainException} (hl : ∀ a ∈ l, ∃ b, f a = .ok b) (ha : f a = .error e) :
    (l ++ a :: l').mapM f = .error e := by
  induction l with
  | nil =>
    rw [nil_append, mapM_cons, ha]
    rfl
  | cons a l ih =>
    obtain ⟨⟨b, hb⟩, hl⟩ := forall_mem_cons.mp hl
    rw [cons_append, mapM_cons, hb, ok_bind, ih hl]
    rfl

def emptyDatabase : Database := fun _ => []

/-- A deferred transaction of contract `1`, of so many bytes. -/
def demoDeferred (bytes : ℕ) : Database
  | .generatedTransaction =>
    [⟨0, (⟨Sha256.zero, ⟨1⟩, 0, ⟨1⟩, List.replicate bytes 0⟩ : GeneratedTransactionRow)⟩]
  | _ => []

/-- The session that stores it. -/
def demoDeferredUndo (bytes : ℕ) (k : TableKind) : UndoSession (Row k) :=
  ⟨[], [], demoDeferred bytes k⟩

lemma valid_demoDeferred (bytes : ℕ) : Valid (demoDeferred bytes) where
  eq_of_id k := by cases k <;> simp [demoDeferred]
  eq_of_uniqueKey k := by cases k <;> simp [demoDeferred]
  exists_table k := by cases k <;> simp [demoDeferred, tableOf?]
  exists_parent k := by cases k <;> simp [demoDeferred, parentOf?]
  code_vm := by simp [demoDeferred]
  settled k := by cases k <;> simp [demoDeferred, isPending]

lemma session_demoDeferred (bytes : ℕ) :
    Session emptyDatabase (demoDeferred bytes) (demoDeferredUndo bytes) where
  before_valid := by constructor <;> simp [emptyDatabase]
  after_valid := valid_demoDeferred bytes
  fixed k := by simp [emptyDatabase]
  old_mem k := by simp [demoDeferredUndo]
  eq_of_not_old k := by simp [emptyDatabase]
  removed_mem k := by simp [demoDeferredUndo]
  exists_removed k := by simp [emptyDatabase]
  new_iff k := by simp [emptyDatabase, demoDeferredUndo]

end Sysio.StateHistory
