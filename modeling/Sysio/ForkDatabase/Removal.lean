import Sysio.ForkDatabase.Basic

/-!
# Removing subtrees

What `remove` erases is described by a list of ids that contains the given one, is closed under
children and leaves the head out (`Removes`); nothing else about the queue matters to the
invariants.  Removals compose, which covers the sequence of them in `advance_root`.

`defined_removeQueue` and `defined_blocksToRemove` say that the two loops end: numbers
grow from parent to child, so no id is queued twice and the walk to the root goes down.
-/

namespace Sysio

open Result List Table

variable {headId id rootId x : BlockId} {b head p : BlockState}

namespace ForkIndex

variable {index : ForkIndex}

lemma mem_childIds :
    x ∈ index.childIds id ↔ ∃ b ∈ index, b.header.previous = id ∧ b.id = x := by
  simp [childIds, Table.mem_iff, and_assoc]

lemma nodup_childIds (id : BlockId) : (index.childIds id).Nodup :=
  index.nodup.sublist (filter_sublist.map _)

variable {ids : List BlockId}

lemma mem_eraseIds : b ∈ index.eraseIds ids ↔ b ∈ index ∧ b.id ∉ ids := by
  unfold eraseIds
  induction ids generalizing index with
  | nil => simp
  | cons id ids ih =>
    rw [foldl_cons, ih, mem_erase, mem_cons]
    tauto

/-- Block numbers, as the ids carry them, grow by one from parent to child. -/
def Numbered (index : ForkIndex) : Prop :=
  ∀ b ∈ index, numFromId b.id = numFromId b.header.previous + 1

/-- With a block, the ids contain all its children. -/
def Closed (index : ForkIndex) (ids : List BlockId) : Prop :=
  ∀ b ∈ index, b.header.previous ∈ ids → b.id ∈ ids

/-- A removal that takes descendants along leaves no block without its parent. -/
lemma Closed.mem_of_child {index' : ForkIndex}
    (hclosed : Closed index ids) (hmem : ∀ p, p ∈ index' ↔ p ∈ index ∧ p.id ∉ ids)
    (hp : p ∈ index) (hprev : b.header.previous = p.id) (hb : b ∈ index') : p ∈ index' := by
  obtain ⟨hbi, hbn⟩ := (hmem b).mp hb
  exact (hmem p).mpr ⟨hp, fun hin => hbn (hclosed b hbi (hprev ▸ hin))⟩

end ForkIndex

namespace ForkDatabase

open ForkIndex

/-! ### The queue -/

variable {index : ForkIndex} {queue done : List BlockId} {fuel : ℕ} {ids : List BlockId}
  {start previous : BlockId} {db db' : ForkDatabase}

lemma removeQueue_eq_ok (h : removeQueue index headId fuel queue done = .ok ids)
    (hdone : ∀ b ∈ index, b.header.previous ∈ done → b.id ∈ done ∨ b.id ∈ queue)
    (hhead : headId ∉ done) :
    (∀ x ∈ queue, x ∈ ids) ∧ (∀ x ∈ done, x ∈ ids) ∧ headId ∉ ids ∧ index.Closed ids := by
  induction fuel generalizing queue done with
  | zero =>
    cases queue with
    | nil =>
      cases h
      exact ⟨by simp, fun _ hx => hx, hhead, fun b hb hp => by simpa using hdone b hb hp⟩
    | cons => simp [removeQueue] at h
  | succ fuel ih =>
    cases queue with
    | nil =>
      cases h
      exact ⟨by simp, fun _ hx => hx, hhead, fun b hb hp => by simpa using hdone b hb hp⟩
    | cons =>
      simp only [removeQueue, bind_eq_ok, sysAssert_eq_ok] at h
      obtain ⟨-, hid, h⟩ := h
      obtain ⟨hq, hd, hrest⟩ := ih h
        (by
          intro b hb hp
          rcases mem_append.mp hp with hp | hp
          · rcases hdone b hb hp with h1 | h1
            · exact .inl (mem_append_left _ h1)
            · rcases mem_cons.mp h1 with h2 | h2
              · exact .inl (mem_append_right _ (by simp [h2]))
              · exact .inr (mem_append_left _ h2)
          · -- a child of the block that is looked at now
            refine .inr (mem_append_right _ (mem_childIds.mpr ⟨b, hb, ?_, rfl⟩))
            simpa using hp)
        (by simpa using ⟨hhead, hid.symm⟩)
      refine ⟨?_, fun x hx => hd x (mem_append_left _ hx), hrest⟩
      intro x hx
      rcases mem_cons.mp hx with rfl | hx
      · exact hd _ (by simp)
      · exact hq x (mem_append_left _ hx)

/-- The queue of `start` at some point of the loop: no id is in it twice, and every id but the first
is that of a block whose parent has been looked at. -/
structure QueueInv (index : ForkIndex) (start : BlockId) (queue done : List BlockId) : Prop where
  nodup : (done ++ queue).Nodup
  origin : ∀ x ∈ done ++ queue, x = start ∨ ∃ b ∈ index, b.id = x ∧ b.header.previous ∈ done
  above : ∀ x ∈ done ++ queue, numFromId start ≤ numFromId x

lemma QueueInv.length_le (h : QueueInv index start queue done) :
    done.length + queue.length ≤ index.rows.length + 1 := by
  have hsub : done ++ queue ⊆ start :: index.rows.map fun b => b.id := by
    intro x hx
    rcases h.origin x hx with rfl | ⟨b, hb, rfl, -⟩
    · exact mem_cons_self
    · exact mem_cons_of_mem _ (List.mem_map_of_mem hb)
  have := (subperm_of_subset h.nodup hsub).length_le
  simpa using this

lemma QueueInv.step (hnum : index.Numbered) (h : QueueInv index start (id :: queue) done) :
    QueueInv index start (queue ++ index.childIds id) (done ++ [id]) := by
  have hsplit : done ++ [id] ++ (queue ++ index.childIds id) =
      done ++ id :: queue ++ index.childIds id := by simp
  have hid : numFromId start ≤ numFromId id := h.above id (by simp)
  refine ⟨?_, ?_, ?_⟩
  · rw [hsplit, nodup_append]
    refine ⟨h.nodup, nodup_childIds id, ?_⟩
    rintro x hx y hy rfl
    obtain ⟨b, hb, hprev, rfl⟩ := mem_childIds.mp hy
    have hb' := hnum b hb
    rw [hprev] at hb'
    rcases h.origin _ hx with hstart | ⟨c, hc, hcb, hcd⟩
    · rw [← hstart] at hid
      omega
    · -- the child has one parent only, which then would have been looked at twice
      rw [Table.eq_of_key_eq hc hb hcb, hprev] at hcd
      exact (nodup_append.mp h.nodup).2.2 id hcd id mem_cons_self rfl
  · intro x hx
    rw [hsplit] at hx
    rcases mem_append.mp hx with hx | hx
    · rcases h.origin x hx with hs | ⟨b, hb, hbx, hd⟩
      · exact .inl hs
      · exact .inr ⟨b, hb, hbx, mem_append_left _ hd⟩
    · obtain ⟨b, hb, hprev, hbx⟩ := mem_childIds.mp hx
      exact .inr ⟨b, hb, hbx, by simp [hprev]⟩
  · intro x hx
    rw [hsplit] at hx
    rcases mem_append.mp hx with hx | hx
    · exact h.above x hx
    · obtain ⟨b, hb, hprev, rfl⟩ := mem_childIds.mp hx
      have hb' := hnum b hb
      rw [hprev] at hb'
      omega

/-- The queue ends within one round for each block and one for the id given. -/
lemma defined_removeQueue (hnum : index.Numbered)
    (h : QueueInv index start queue done) (hfuel : index.rows.length + 1 ≤ fuel + done.length) :
    (removeQueue index headId fuel queue done).Defined := by
  -- each round moves one id to the end of `done`, which has no duplicates
  induction fuel generalizing queue done with
  | zero =>
    cases queue with
    | nil => exact Result.defined_ok _
    | cons =>
      have hlength := h.length_le
      rw [length_cons] at hlength
      omega
  | succ fuel ih =>
    cases queue with
    | nil => exact Result.defined_ok _
    | cons =>
      rw [removeQueue]
      apply Result.Defined.bind (defined_sysAssert (by decide))
      intro _ _
      apply ih (h.step hnum)
      rw [length_append, length_singleton]
      omega

/-! ### Removals -/

/-- `db'` is `db` without the blocks that the ids name: a set closed under children that leaves the
head out. -/
structure Removes (db : ForkDatabase) (ids : List BlockId) (db' : ForkDatabase) : Prop where
  root_eq : db'.root = db.root
  head_eq : db'.head = db.head
  mem_iff : ∀ b, b ∈ db'.index ↔ b ∈ db.index ∧ b.id ∉ ids
  closed : db.index.Closed ids
  head_not_mem : ∀ head, db.head = some head → head.id ∉ ids

lemma remove_eq_ok (h : db.remove id = .ok db') :
    ∃ ids, id ∈ ids ∧ Removes db ids db' := by
  unfold remove at h
  cases hhead : db.head with
  | none =>
    rw [hhead] at h
    cases h
  | some head =>
    rw [hhead] at h
    simp only [bind_eq_ok, pure_eq_ok] at h
    obtain ⟨ids, hids, rfl⟩ := h
    obtain ⟨hq, -, hout, hclosed⟩ := removeQueue_eq_ok hids (by simp) (by simp)
    refine ⟨ids, hq id (by simp), rfl, hhead.symm, fun b => mem_eraseIds, hclosed, ?_⟩
    intro head' hhead'
    rw [hhead, Option.some.injEq] at hhead'
    rwa [← hhead']

lemma Removes.append {db1 db2 : ForkDatabase} {ids1 ids2 : List BlockId}
    (h1 : Removes db ids1 db1) (h2 : Removes db1 ids2 db2) : Removes db (ids1 ++ ids2) db2 where
  root_eq := h2.root_eq.trans h1.root_eq
  head_eq := h2.head_eq.trans h1.head_eq
  mem_iff b := by
    rw [h2.mem_iff, h1.mem_iff, mem_append]
    tauto
  closed := by
    intro b hb hprev
    by_cases hmem : b.id ∈ ids1
    · exact mem_append_left _ hmem
    · refine mem_append_right _ (h2.closed b ((h1.mem_iff b).mpr ⟨hb, hmem⟩) ?_)
      rcases mem_append.mp hprev with h | h
      · exact absurd (h1.closed b hb h) hmem
      · exact h
  head_not_mem := by
    intro head hhead hmem
    rcases mem_append.mp hmem with h | h
    · exact h1.head_not_mem head hhead h
    · exact h2.head_not_mem head (by rw [h1.head_eq, hhead]) h

lemma foldlM_remove_eq_ok
    (h : ids.foldlM remove db = .ok db') : ∃ all, (∀ id ∈ ids, id ∈ all) ∧ Removes db all db' := by
  induction ids generalizing db with
  | nil =>
    cases h
    exact ⟨[], by simp, rfl, rfl, by simp, fun b _ hb => by simp at hb, by simp⟩
  | cons id ids ih =>
    rw [foldlM_cons, bind_eq_ok] at h
    obtain ⟨db1, h1, h2⟩ := h
    obtain ⟨ids1, hid, hrem1⟩ := remove_eq_ok h1
    obtain ⟨all, hall, hrem2⟩ := ih h2
    refine ⟨ids1 ++ all, ?_, hrem1.append hrem2⟩
    intro x hx
    rcases mem_cons.mp hx with rfl | hx
    · exact mem_append_left _ hid
    · exact mem_append_right _ (hall x hx)

lemma defined_remove (hnum : db.index.Numbered)
    (hhead : db.head = some head) (id : BlockId) : (db.remove id).Defined := by
  unfold remove
  rw [hhead]
  have hstart : QueueInv db.index id [id] [] := ⟨by simp, by simp, by simp⟩
  apply (defined_removeQueue hnum hstart (by simp)).bind
  intro ids _
  exact defined_ok _

/-- A removal leaves numbered blocks numbered, so a sequence of them ends as well. -/
lemma defined_foldlM_remove (hnum : db.index.Numbered)
    (hhead : db.head = some head) (ids : List BlockId) : Defined (ids.foldlM remove db) := by
  induction ids generalizing db with
  | nil => exact defined_ok _
  | cons id ids ih =>
    rw [foldlM_cons]
    apply (defined_remove hnum hhead id).bind
    intro db1 hrem
    obtain ⟨ids1, -, h1⟩ := remove_eq_ok hrem
    exact ih (fun b hb => hnum b ((h1.mem_iff b).mp hb).1) (h1.head_eq.trans hhead)

/-! ### The walk to the root -/

lemma blocksToRemove_eq_ok
    (h : blocksToRemove index rootId fuel previous = .ok ids) : rootId ∈ ids := by
  induction fuel generalizing previous ids with
  | zero => cases h
  | succ fuel ih =>
    rw [blocksToRemove] at h
    split at h
    · simp only [bind_eq_ok, pure_eq_ok] at h
      obtain ⟨rest, hrest, rfl⟩ := h
      exact mem_cons_of_mem _ (ih hrest)
    · simp only [bind_eq_ok, sysAssert_eq_ok, pure_eq_ok] at h
      obtain ⟨-, rfl, rfl⟩ := h
      exact mem_singleton_self _

/-- The walk goes down one number a round. -/
lemma defined_blocksToRemove (hnum : index.Numbered) (hfuel : numFromId previous < fuel) :
    (blocksToRemove index rootId fuel previous).Defined := by
  induction fuel generalizing previous with
  | zero => omega
  | succ fuel ih =>
    rw [blocksToRemove]
    split
    · next b hb =>
      have hb' := hnum b (mem_of_find? hb)
      rw [key_eq_of_find? hb] at hb'
      apply Result.Defined.bind (ih (by omega))
      intro rest _
      exact Result.defined_ok _
    · apply Result.Defined.bind (defined_sysAssert (by decide))
      intro _ _
      exact Result.defined_ok _

end ForkDatabase

end Sysio
