import Mathlib.Data.List.Chain
import Sysio.Log.Segments
import Sysio.StateHistory.Partitioned

/-!
# A partitioned state history log without holes

`write_entry` has to keep the entries without holes: it demands that no block is missed and that the
entry links to the one before it.  But it looks for that entry only in the active file, after its
first block.  For the first entry of a file, and for a fork that goes back to the beginning of the
active file or further, nothing is checked (`Unchecked`), and the log gets a hole if the caller
leaves one (`exists_hole`).  In a run in which these entries do link to what is stored, every block
of the range is there and linked to the one before it (`noHoles_of_run`).

The proof keeps the list of retained files in view: `Shape s files first` says that these files and
the active file hold the blocks from `first` on, and each operation has a lemma on the shape of the
log it leaves behind.
-/

namespace Sysio.PartitionedHistory

open Result List Option LogCatalog HistoryFile HistoryEntry Consecutive LogData Nat Except

/-! ### The shape of a log -/

/-- Consecutive entries link. -/
abbrev Linked (entries : List HistoryEntry) : Prop :=
  entries.IsChain fun p e => e.prevId = p.blockId

/-- The entries of some files. -/
def flat (files : List HistoryFile) : List HistoryEntry := files.flatMap entries

@[simp]
lemma flat_nil : flat [] = [] := rfl

@[simp]
lemma flat_append (files files' : List HistoryFile) :
    flat (files ++ files') = flat files ++ flat files' := flatMap_append

@[simp]
lemma flat_cons (f : HistoryFile) (files : List HistoryFile) :
    flat (f :: files) = f.entries ++ flat files := flatMap_cons

/-- **The log is in shape**: its retained files and the active file hold the blocks from `first` on,
each linked to the one before it, up to `_end_block`. -/
structure Shape (s : PartitionedHistory) (files : List HistoryFile) (first : ℕ) : Prop where
  holds : LogCatalog.Holds s.retained s.catalog files
  full : ∀ f ∈ files, f.entries ≠ []
  numbered : Consecutive blockNum first (flat files ++ s.log)
  linked : Linked (flat files ++ s.log)
  begin_eq : s.beginBlock = first + (flat files).length
  end_eq : s.endBlock = s.beginBlock + s.log.length
  index_eq : s.log ≠ [] → s.indexBeginBlock = s.beginBlock
  pos : 0 < first
  lt : s.endBlock < 2 ^ 32

def Inv (s : PartitionedHistory) : Prop :=
  (∃ files first, Shape s files first) ∧ ∀ e ∈ s.log.getLast?, s.lastBlockId = e.blockId

variable {s s' : PartitionedHistory} {files : List HistoryFile} {first n : ℕ} {e : HistoryEntry}

lemma segments_of_numbered (hfull : ∀ f ∈ files, f.entries ≠ [])
    (h : Consecutive blockNum first (flat files)) : Segments entries blockNum first files := by
  refine ⟨hfull, h, fun f _ a ha => ?_, fun _ _ => rfl⟩
  show (f.entries.head?.map blockNum).getD 0 = _
  rw [ha, map_some, getD_some]

lemma checkedId_eq (h : e.blockNum = n) : checkedId n e = .ok (some e.blockId) :=
  bind_eq_ok.mpr ⟨(), sysAssert_eq_ok.mpr h, rfl⟩

section

variable (h : Shape s files first)
include h

namespace Shape

lemma stored_eq : s.stored = flat files ++ s.log := by
  unfold stored flat
  rw [h.holds.collection, flatMap_map]
  congr 1
  refine flatMap_congr fun f hf => ?_
  rw [h.holds.find? hf]
  rfl

lemma segments : Segments entries blockNum first files :=
  segments_of_numbered h.full (Consecutive.append.mp h.numbered).1

lemma lastBlockNum_eq {f : HistoryFile} (hf : f ∈ files) : lastBlockNum f = endBlockNum f := by
  have hlast := getLast?_eq_some_getLast (h.full f hf)
  show (f.entries.getLast?.map blockNum).getD 0 = _
  rw [hlast, map_some, getD_some]
  exact h.segments.num_getLast? hf hlast

variable {after before : List HistoryFile}

omit h in
lemma file {f : HistoryFile}
    (h : Shape s (before ++ f :: after) first) : firstBlockNum f = first + (flat before).length ∧
      endBlockNum f + 1 = first + (flat before).length + f.entries.length :=
  ⟨h.segments.file.1, h.segments.file.2.1⟩

lemma numbered_log : Consecutive blockNum s.beginBlock s.log := by
  rw [h.begin_eq]
  exact (Consecutive.append.mp h.numbered).2

lemma getEntry_eq (hbegin : s.beginBlock ≤ n) (hend : n < s.endBlock) :
    ∃ e ∈ s.log, e.blockNum = n ∧ s.getEntry n = .ok e := by
  have hlog : s.log ≠ [] := by
    intro hnil
    have := h.end_eq
    rw [hnil, length_nil] at this
    omega
  have hlt := h.lt
  obtain ⟨e, he, hnum, hsome⟩ := h.numbered_log.exists_of_range hbegin (h.end_eq ▸ hend)
  refine ⟨e, he, hnum, ?_⟩
  have hpos : s.getPos n = n - s.beginBlock := by
    rw [getPos, h.index_eq hlog, subU32_of_le (by omega) hbegin]
  refine bind_eq_ok.mpr ⟨(), sysAssert_eq_ok.mpr ⟨hbegin, hend⟩, require_eq_ok.mpr ?_⟩
  rw [hpos, hsome]

/-- **`get_block_id`** finds the block if it is stored, and nothing else, if the lookup in the
catalog returns. -/
theorem getBlockIdI_spec {pos : Option ℕ} {catalog : LogCatalog HistoryFile}
    (hr : getBlockPosition s.retained s.catalog n = .ok (pos, catalog)) :
    ∃ id, s.getBlockIdI n = .ok (id, catalog) ∧ Shape { s with catalog } files first ∧
      ((∃ e ∈ s.stored, e.blockNum = n ∧ id = some e.blockId) ∨
        (∀ e ∈ s.stored, e.blockNum ≠ n) ∧ id = none) := by
  obtain ⟨hholds, -, hcase⟩ := getBlockPosition_spec h.holds hr
  have hshape : Shape { s with catalog } files first := { h with holds := hholds }
  have hstored := h.stored_eq
  unfold getBlockIdI
  rw [hr, ok_bind]
  rcases hcase with ⟨f, hf, hcov, rfl, hdata⟩ | ⟨hnone, rfl⟩
  · obtain ⟨e, he, hnum, hsome⟩ := h.segments.exists_of_covers hf hcov
    have hmem : e ∈ s.stored := by
      rw [hstored]
      exact mem_append_left _ (mem_flatMap.mpr ⟨f, hf, he⟩)
    refine ⟨some e.blockId, ?_, hshape, .inl ⟨e, hmem, hnum, rfl⟩⟩
    simp only [hdata, bind_some, hsome]
    exact bind_eq_ok.mpr ⟨e, rfl, bind_eq_ok.mpr ⟨_, checkedId_eq hnum, rfl⟩⟩
  · by_cases hin : s.beginBlock ≤ n ∧ n < s.endBlock
    · obtain ⟨e, he, hnum, hget⟩ := h.getEntry_eq hin.1 hin.2
      have hmem : e ∈ s.stored := hstored ▸ mem_append_right _ he
      refine ⟨some e.blockId, ?_, hshape, .inl ⟨e, hmem, hnum, rfl⟩⟩
      simp only [if_pos hin]
      exact bind_eq_ok.mpr ⟨e, hget, bind_eq_ok.mpr ⟨_, checkedId_eq hnum, rfl⟩⟩
    · refine ⟨none, ?_, hshape, .inr ⟨fun e he hnum => ?_, rfl⟩⟩
      · simp only [if_neg hin]
        rfl
      · -- a stored block is in one of the files or in the active one
        rw [hstored] at he
        rcases mem_append.mp he with he | he
        · obtain ⟨f, hf, hef⟩ := mem_flatMap.mp he
          exact hnone f hf (hnum ▸ h.segments.covers_of_mem hf hef)
        · have := h.numbered_log.mem_bounds he
          have := h.end_eq
          omega

lemma of_getBlockIdI {id : Option BlockId} {catalog : LogCatalog HistoryFile}
    (hid : s.getBlockIdI n = .ok (id, catalog)) : Shape { s with catalog } files first := by
  obtain ⟨⟨pos, catalog'⟩, hr, -⟩ := bind_eq_ok.mp hid
  obtain ⟨id', hid', hshape, -⟩ := h.getBlockIdI_spec hr
  rw [hid'] at hid
  obtain ⟨-, rfl⟩ := Prod.mk.inj (Except.ok.inj hid)
  exact hshape

omit h in
lemma length_before (h : Shape s (before ++ after) first) :
    (∀ f ∈ before.getLast?, endBlockNum f + 1 = first + (flat before).length) ∧
      (∀ f ∈ after.head?, firstBlockNum f = first + (flat before).length) ∧
      (after = [] → s.beginBlock = first + (flat before).length) := by
  refine ⟨fun f hf => ?_, fun f hf => ?_, fun hnil => ?_⟩
  · obtain ⟨init, rfl⟩ : ∃ init, before = init ++ [f] :=
      ⟨before.dropLast, (dropLast_append_getLast? f hf).symm⟩
    rw [append_assoc, singleton_append] at h
    have := h.file.2
    rw [flat_append, flat_cons, flat_nil, append_nil, length_append]
    omega
  · obtain ⟨rest, rfl⟩ : ∃ rest, after = f :: rest := by
      cases after with
      | nil => cases hf
      | cons g rest => exact ⟨rest, by rw [some.inj hf]⟩
    exact h.file.1
  · have := h.begin_eq
    rwa [hnil, append_nil] at this

lemma take (hn : n < s.endBlock) (hpos : 0 < n)
    {files' : List HistoryFile} (hholds : Holds s'.retained s'.catalog files')
    (hfull : ∀ f ∈ files', f.entries ≠ [])
    (hstored : flat files' ++ s'.log = (flat files ++ s.log).take (n - first))
    (hbegin : s'.beginBlock + s'.log.length = n) (hend : s'.endBlock = n)
    (hindex : s'.log ≠ [] → s'.indexBeginBlock = s'.beginBlock) :
    Shape s' files' (min first n) := by
  have hlength : (flat files').length + s'.log.length = n - first := by
    have hlen := congrArg List.length hstored
    rw [length_append, length_take, length_append] at hlen
    have := h.end_eq
    have := h.begin_eq
    omega
  have hnumbered : Consecutive blockNum (min first n) (flat files' ++ s'.log) := by
    rw [hstored]
    rcases le_total first n with hle | hle
    · rw [min_eq_left hle]
      exact h.numbered.take _
    · rw [Nat.sub_eq_zero_of_le hle, take_zero]
      exact nil
  have hlt := h.lt
  have hfirst := h.pos
  exact
    { holds := hholds
      full := hfull
      numbered := hnumbered
      linked := by
        rw [hstored]
        exact h.linked.take _
      begin_eq := by omega
      end_eq := by omega
      index_eq := hindex
      pos := by omega
      lt := by omega }

/-- The end of `truncate`: the files `before` stay, and the active file is cut off or left empty. -/
lemma truncateActive_spec (hn : n < s.endBlock) (hpos : 0 < n) {r : List HistoryEntry}
    (hholds : Holds s'.retained s'.catalog before) (hfull : ∀ f ∈ before, f.entries ≠ [])
    (hstored : flat files ++ s.log = flat before ++ r)
    (hindex : s'.log ≠ [] → s'.indexBeginBlock = s'.beginBlock)
    (hlow : n ≤ s'.beginBlock → (flat before).length = n - first)
    (hhigh : s'.beginBlock < n → s'.beginBlock = first + (flat before).length ∧
      n ≤ s'.beginBlock + s'.log.length ∧ s'.log <+: r) :
    Shape (s'.truncateActive n) before (min first n) ∧
      flat before ++ (s'.truncateActive n).log = (flat files ++ s.log).take (n - first) ∧
      (s'.truncateActive n).endBlock = n ∧ (s'.truncateActive n).stride = s'.stride := by
  unfold truncateActive
  rcases lt_or_ge s'.beginBlock n with hcut | hcut
  · obtain ⟨hbegin, hle, r', rfl⟩ := hhigh hcut
    have hlog : s'.log ≠ [] := by
      intro hnil
      rw [hnil, length_nil] at hle
      omega
    have hget : s'.getPos n = n - s'.beginBlock := by
      have := h.lt
      rw [getPos, hindex hlog, subU32_of_le (by omega) hcut.le]
    rw [if_neg (not_le.mpr hcut), hget]
    have heq : flat before ++ s'.log.take (n - s'.beginBlock) =
        (flat files ++ s.log).take (n - first) := by
      rw [hstored, show n - first = (flat before).length + (n - s'.beginBlock) by omega,
        take_length_add_append, take_append_of_le_length (by omega)]
    refine ⟨h.take hn hpos hholds hfull heq ?_ rfl (fun _ => hindex hlog), heq, rfl, rfl⟩
    show s'.beginBlock + (s'.log.take (n - s'.beginBlock)).length = n
    rw [length_take]
    omega
  · rw [if_pos hcut]
    have heq : flat before ++ [] = (flat files ++ s.log).take (n - first) := by
      rw [hstored, ← hlow hcut, append_nil, take_left]
    exact ⟨h.take hn hpos hholds hfull heq rfl rfl (fun h => absurd rfl h), heq, rfl, rfl⟩

end Shape

/-- **`truncate`** leaves the blocks below the given one. -/
theorem truncate_spec (hn : n < s.endBlock) (hpos : 0 < n) :
    ∃ s' files', s.truncate n = .ok s' ∧ Shape s' files' (min first n) ∧
      flat files' ++ s'.log = (flat files ++ s.log).take (n - first) ∧ s'.endBlock = n ∧
      s'.stride = s.stride := by
  obtain ⟨before, at?, after, retained, catalog, htrunc, rfl, hholds, -, hbefore, hat, hafter⟩ :=
    LogCatalog.truncate_spec h.holds n
  have hfull : ∀ f ∈ before, f.entries ≠ [] := fun f hf => h.full f (by simp [hf])
  have hend := h.end_eq
  cases at? with
  | some f =>
    -- the file with the block is the active file again
    obtain ⟨hle, hlast⟩ := hat f rfl
    have hsplit := h
    rw [toList_some, append_assoc, singleton_append] at hsplit
    obtain ⟨hfirst, hflast⟩ := hsplit.file
    have hfpos : 0 < firstBlockNum f := by
      have := h.pos
      omega
    have hback : takeBack { s with retained, catalog } (some (firstBlockNum f, f)) =
        { s with
          retained, catalog, log := f.entries, beginBlock := firstBlockNum f
          indexBeginBlock := firstBlockNum f } := if_pos hfpos
    refine ⟨_, before, bind_eq_ok.mpr ⟨_, htrunc,
      congrArg (fun s => Except.ok (truncateActive s n)) hback⟩, ?_⟩
    refine h.truncateActive_spec hn hpos hholds hfull (r := f.entries ++ (flat after ++ s.log))
      (by simp) (fun _ => rfl) (fun hcut => ?_) fun _ => ⟨hfirst, ?_, prefix_append _ _⟩
    · change n ≤ firstBlockNum f at hcut
      omega
    · change n ≤ firstBlockNum f + f.entries.length
      omega
  | none =>
    rw [toList_none, append_nil] at h ⊢
    obtain ⟨hlast, hhead, hnil⟩ := h.length_before
    have hbegin := h.begin_eq
    rw [flat_append, length_append] at hbegin
    refine ⟨_, before, bind_eq_ok.mpr ⟨_, htrunc, rfl⟩, ?_⟩
    refine h.truncateActive_spec hn hpos hholds hfull (r := flat after ++ s.log) (by simp)
      h.index_eq (fun hcut => ?_) fun hcut => ?_
    · -- the block comes right after the files that stay, or before all files
      have hupper : n ≤ first + (flat before).length := by
        cases after with
        | nil => rw [← hnil rfl]; exact hcut
        | cons g rest =>
          have := hhead g rfl
          have := hafter g (by simp)
          omega
      rcases eq_nil_or_concat before with rfl | ⟨init, f, rfl⟩
      · rw [flat_nil, length_nil] at hupper ⊢
        omega
      · have := hlast f (by simp)
        have := hbefore f (by simp)
        omega
    · -- the block is in the active file
      change s.beginBlock < n at hcut
      obtain rfl : after = [] := by
        rw [eq_nil_iff_forall_not_mem]
        intro f hf
        obtain ⟨l1, l2, rfl⟩ := append_of_mem hf
        have h1 := h
        rw [← append_assoc] at h1
        have h2 := h1.file.1
        have h3 := hafter f hf
        rw [flat_append, length_append] at h2 hbegin
        omega
      exact ⟨hnil rfl, by change n ≤ s.beginBlock + s.log.length; omega, prefix_refl _⟩

/-! ### Writing an entry -/

/-- **An entry that links** to the last one, at the end. -/
theorem append_spec (hnum : e.blockNum = s.endBlock)
    (hlink : ∀ p ∈ (flat files ++ s.log).getLast?, e.prevId = p.blockId)
    (hlt : e.blockNum + 1 < 2 ^ 32) :
    Shape (s.append e) files first ∧ (s.append e).log = s.log ++ [e] ∧
      (s.append e).lastBlockId = e.blockId := by
  have hbegin : (s.append e).beginBlock = s.beginBlock := by
    unfold append
    split_ifs with heq
    · exact hnum.trans heq.symm
    · rfl
  have hindex : (s.append e).indexBeginBlock = s.beginBlock := by
    unfold append
    split_ifs with heq
    · exact hnum.trans heq.symm
    · refine h.index_eq fun hnil => heq ?_
      rw [h.end_eq, hnil, length_nil, add_zero]
  have hend : (s.append e).endBlock = e.blockNum + 1 := u32_of_lt hlt
  have hlog : (s.append e).log = s.log ++ [e] := by
    unfold append
    split_ifs <;> rfl
  have hcatalog : (s.append e).catalog = s.catalog ∧ (s.append e).retained = s.retained := by
    unfold append
    split_ifs <;> exact ⟨rfl, rfl⟩
  refine ⟨?_, hlog, rfl⟩
  have hend' := h.end_eq
  have hbegin' := h.begin_eq
  exact
    { holds := by
        rw [hcatalog.1, hcatalog.2]
        exact h.holds
      full := h.full
      numbered := by
        rw [hlog, ← append_assoc, Consecutive.append]
        refine ⟨h.numbered, singleton ?_⟩
        rw [length_append]
        omega
      linked := by
        rw [hlog, ← append_assoc]
        refine isChain_append.mpr ⟨h.linked, isChain_singleton e, fun p hp q hq => ?_⟩
        obtain rfl := some.inj hq
        exact hlink p hp
      begin_eq := hbegin ▸ h.begin_eq
      end_eq := by
        rw [hend, hbegin, hlog, length_append, length_singleton]
        omega
      index_eq := fun _ => hindex.trans hbegin.symm
      pos := h.pos
      lt := by
        rw [hend]
        exact hlt }

/-- **`split_log`** makes the active file a retained one. -/
theorem splitLog_spec (hlog : s.log ≠ []) :
    ∃ files' first', Shape s.splitLog files' first' := by
  have hlength := length_pos_iff.mpr hlog
  have hend := h.end_eq
  have hlt := h.lt
  have hactive :
      Segments entries blockNum s.beginBlock [s.activeFile] := by
    refine segments_of_numbered (forall_mem_singleton.mpr hlog) ?_
    rw [flat_cons, flat_nil, append_nil]
    exact h.numbered_log
  obtain ⟨hfirst, hlast, -⟩ := hactive.head
  rw [show s.activeFile.entries = s.log from rfl] at hlast
  have hlast' : subU32 s.endBlock 1 = endBlockNum s.activeFile := by
    rw [subU32_of_le hlt (by omega)]
    omega
  have hsized : LogCatalog.Sized s.activeFile := by
    refine hactive.sized mem_cons_self ?_
    rw [flatMap_singleton]
    exact hend ▸ hlt.le
  have hafter : ∀ g ∈ files, endBlockNum g < firstBlockNum s.activeFile := by
    intro g hg
    rw [hfirst, h.begin_eq]
    exact (h.segments.numbered_file hg).2.2
  obtain ⟨k, -, hholds, -⟩ := add_spec h.holds hsized hafter
  have hsplit : s.splitLog =
      { s with
        log := []
        beginBlock := s.endBlock
        indexBeginBlock := s.endBlock
        retained := (add s.retained s.catalog (firstBlockNum s.activeFile)
          (endBlockNum s.activeFile) s.activeFile).1
        catalog := (add s.retained s.catalog (firstBlockNum s.activeFile)
          (endBlockNum s.activeFile) s.activeFile).2 } := by
    rw [hfirst, ← hlast']
    rfl
  -- the files that are dropped are the first ones
  have hstored : flat files ++ s.log =
      flat ((files ++ [s.activeFile]).take k) ++ flat ((files ++ [s.activeFile]).drop k) := by
    rw [← flat_append, take_append_drop, flat_append, flat_cons, flat_nil, append_nil]
    rfl
  have hnumbered := h.numbered
  have hlinked := h.linked
  rw [hstored] at hnumbered hlinked
  have hlen := congrArg List.length hstored
  rw [length_append, length_append] at hlen
  have hbegin := h.begin_eq
  have hpos := h.pos
  rw [hsplit]
  exact ⟨_, first + (flat ((files ++ [s.activeFile]).take k)).length,
    { holds := hholds
      full := by
        intro f hf
        rcases mem_append.mp (mem_of_mem_drop hf) with hf | hf
        · exact h.full f hf
        · rwa [mem_singleton.mp hf]
      numbered := by
        rw [append_nil]
        exact (Consecutive.append.mp hnumbered).2
      linked := by
        rw [append_nil]
        exact hlinked.right_of_append
      begin_eq := by
        show s.endBlock = _
        omega
      end_eq := rfl
      index_eq := fun h => absurd rfl h
      pos := by omega
      lt := hlt }⟩

omit h in
/-- What a call of `write_entry` that returns has checked and done. -/
lemma writeEntry_eq_ok (h : s.writeEntry e = .ok s') :
    (s.beginBlock = s.endBlock ∨ e.blockNum ≤ s.endBlock) ∧ s.checkLink e = .ok () ∧
      ((e.blockNum < s.endBlock ∧ ∃ present s1, s.forkBack e = .ok (present, s1) ∧
          s' = if present then s1 else s1.store e) ∨
        s.endBlock ≤ e.blockNum ∧ s' = s.store e) := by
  obtain ⟨_, hmissed, h⟩ := bind_eq_ok.mp h
  obtain ⟨_, hlink, h⟩ := bind_eq_ok.mp h
  refine ⟨sysAssert_eq_ok.mp hmissed, hlink, ?_⟩
  split_ifs at h with hfork
  · obtain ⟨⟨present, s1⟩, hback, h⟩ := bind_eq_ok.mp h
    exact .inl ⟨hfork, present, s1, hback, (pure_eq_ok.mp h).symm⟩
  · exact .inr ⟨not_lt.mp hfork, (pure_eq_ok.mp h).symm⟩

/-- **What is checked links**: an entry of the active file after its first one. -/
theorem links_of_checkLink (hlast : ∀ p ∈ s.log.getLast?, s.lastBlockId = p.blockId)
    (hmissed : s.beginBlock = s.endBlock ∨ e.blockNum ≤ s.endBlock)
    (hlink : s.checkLink e = .ok ()) (hchecked : ¬ Unchecked s e) : Links s e := by
  obtain ⟨hne, hafter⟩ := not_or.mp hchecked
  have hreached : e.blockNum ≤ s.endBlock := hmissed.resolve_left hne
  refine ⟨.inr hreached, fun p hp hnum => ?_⟩
  rw [h.stored_eq] at hp
  unfold checkLink at hlink
  rw [if_pos ⟨hne, not_le.mp hafter⟩] at hlink
  split_ifs at hlink with hend
  · -- the last entry is in the active file, which is not empty
    have hp' : (flat files ++ s.log).getLast? = some p := by
      refine h.numbered.getLast?_of_num hp ?_
      have := h.end_eq
      have := h.begin_eq
      rw [length_append]
      omega
    have hlog : s.log ≠ [] := by
      intro hnil
      have := h.end_eq
      rw [hnil, length_nil] at this
      omega
    rw [getLast?_append_of_ne_nil _ hlog] at hp'
    rw [sysAssert_eq_ok.mp hlink, hlast p hp']
  · obtain ⟨prev, hprev, hlink⟩ := bind_eq_ok.mp hlink
    obtain ⟨q, hq, hqnum, hget⟩ := h.getEntry_eq (n := e.blockNum - 1) (by omega) (by omega)
    rw [hget] at hprev
    obtain rfl := ok.inj hprev
    rw [sysAssert_eq_ok.mp hlink]
    have hpq : p = q :=
      h.numbered.eq_of_num_eq hp (mem_append_right _ hq) (by omega)
    rw [hpq]

/-- What `write_entry` does before it writes an entry for a block that is behind the end. -/
lemma forkBack_spec (hfork : e.blockNum < s.endBlock)
    {present : Bool} (hback : s.forkBack e = .ok (present, s')) :
    (present = true ∧ ∃ catalog, s' = { s with catalog } ∧ Shape s' files first) ∨
      present = false ∧ ∃ files', Shape s' files' (min first e.blockNum) ∧
        flat files' ++ s'.log = (flat files ++ s.log).take (e.blockNum - first) ∧
        s'.endBlock = e.blockNum := by
  obtain ⟨_, hgenesis, hback⟩ := bind_eq_ok.mp hback
  have hpos : 0 < e.blockNum := by
    have := sysAssert_eq_ok.mp hgenesis
    omega
  split_ifs at hback with hbefore
  · obtain ⟨s1, htrunc, hback⟩ := bind_eq_ok.mp hback
    obtain ⟨rfl, rfl⟩ := Prod.mk.inj (pure_eq_ok.mp hback)
    obtain ⟨s2, files', htrunc', hshape, hstored, hend, -⟩ := truncate_spec h hfork hpos
    rw [htrunc'] at htrunc
    obtain rfl := ok.inj htrunc
    exact .inr ⟨rfl, files', hshape, hstored, hend⟩
  · obtain ⟨⟨id, catalog⟩, hid, hback⟩ := bind_eq_ok.mp hback
    have hshape := h.of_getBlockIdI hid
    dsimp only at hback
    split_ifs at hback with heq
    · obtain ⟨rfl, rfl⟩ := Prod.mk.inj (pure_eq_ok.mp hback)
      exact .inl ⟨rfl, catalog, rfl, hshape⟩
    · obtain ⟨s1, htrunc, hback⟩ := bind_eq_ok.mp hback
      obtain ⟨rfl, rfl⟩ := Prod.mk.inj (pure_eq_ok.mp hback)
      obtain ⟨s2, files', htrunc', hshape', hstored, hend, -⟩ := truncate_spec hshape hfork hpos
      rw [htrunc'] at htrunc
      obtain rfl := ok.inj htrunc
      exact .inr ⟨rfl, files', hshape', hstored, hend⟩

/-- An entry that links, with the split that may follow. -/
lemma store_spec (hnum : e.blockNum = s.endBlock)
    (hlink : ∀ p ∈ (flat files ++ s.log).getLast?, e.prevId = p.blockId)
    (hlt : e.blockNum + 1 < 2 ^ 32) : Inv (s.store e) := by
  obtain ⟨hshape, hlog, hlast⟩ := append_spec h hnum hlink hlt
  unfold store
  split_ifs with hsplit
  · refine ⟨splitLog_spec hshape ?_, fun p hp => ?_⟩
    · rw [hlog]
      exact concat_ne_nil e s.log
    · cases hp
  · refine ⟨⟨files, first, hshape⟩, fun p hp => ?_⟩
    rw [hlog, getLast?_concat] at hp
    rw [hlast, ← some.inj hp]

lemma store_spec_of_empty (hempty : s.stored = [])
    (hnum : s.endBlock ≤ e.blockNum) (hlt : e.blockNum + 1 < 2 ^ 32) : Inv (s.store e) := by
  rw [h.stored_eq, append_eq_nil_iff] at hempty
  obtain ⟨hflat, hlog⟩ := hempty
  obtain rfl : files = [] := by
    rw [eq_nil_iff_forall_not_mem]
    intro f hf
    obtain ⟨a, ha⟩ := exists_mem_of_ne_nil _ (h.full f hf)
    rw [eq_nil_iff_forall_not_mem] at hflat
    exact hflat a (mem_flatMap.mpr ⟨f, hf, ha⟩)
  have hend := h.end_eq
  rw [hlog, length_nil, add_zero] at hend
  have hbegin := h.begin_eq
  have hpos := h.pos
  -- it is the same as to write to a log that begins with the block
  have hstore : s.store e =
      store { s with beginBlock := e.blockNum, endBlock := e.blockNum } e := by
    simp only [store, append, hend, if_true]
  rw [hstore]
  have hshape : Shape { s with beginBlock := e.blockNum, endBlock := e.blockNum } [] e.blockNum :=
    { holds := h.holds
      full := h.full
      numbered := by
        rw [hlog]
        exact nil
      linked := by
        rw [hlog]
        exact isChain_nil
      begin_eq := rfl
      end_eq := by
        rw [hlog]
        rfl
      index_eq := fun hne => absurd hlog hne
      pos := by omega
      lt := by
        show e.blockNum < 2 ^ 32
        omega }
  refine store_spec hshape rfl (fun p hp => ?_) hlt
  rw [hlog] at hp
  cases hp

end

/-! ### The invariant -/

lemma Inv.write (h : Inv s) (hharmless : (Event.write e).Harmless s)
    (hwrite : s.writeEntry e = .ok s') : Inv s' := by
  obtain ⟨⟨files, first, hshape⟩, hlast⟩ := h
  obtain ⟨hunchecked, hlt⟩ := hharmless
  obtain ⟨hmissed, hcheck, hcase⟩ := writeEntry_eq_ok hwrite
  have hlinks : Links s e := by
    by_cases hu : Unchecked s e
    · exact hunchecked hu
    · exact links_of_checkLink hshape hlast hmissed hcheck hu
  have hstored := hshape.stored_eq
  rcases hcase with ⟨hfork, present, s1, hback, rfl⟩ | ⟨hend, rfl⟩
  · rcases forkBack_spec hshape hfork hback with ⟨rfl, catalog, rfl, hs1⟩ |
      ⟨rfl, files', hs1, htake, hend⟩
    · exact ⟨⟨files, first, hs1⟩, hlast⟩
    · refine store_spec hs1 hend.symm (fun p hp => ?_) hlt
      -- the last entry that is left is the one for the block before
      have hnum := hs1.numbered.getLast? hp
      have hlen := hs1.end_eq
      have hbegin := hs1.begin_eq
      rw [length_append] at hnum
      rw [htake] at hp
      refine hlinks.linked p ?_ (by omega)
      rw [hstored]
      exact mem_of_mem_take (mem_of_getLast? hp)
  · rcases hlinks.reached with hempty | hle
    · exact store_spec_of_empty hshape hempty hend hlt
    · refine store_spec hshape (le_antisymm hle hend) (fun p hp => ?_) hlt
      have hnum := hshape.numbered.getLast? hp
      have hlen := hshape.end_eq
      have hbegin := hshape.begin_eq
      rw [length_append] at hnum
      refine hlinks.linked p ?_ (by omega)
      rw [hstored]
      exact mem_of_getLast? hp

/-- The constructor finds the log as it was left. -/
lemma Inv.reopen {listing : List (Bundle HistoryFile)} (h : Inv s)
    (hlisting : listing.Perm s.retained.rows) (hopen : s.reopen listing = .ok s') : Inv s' := by
  obtain ⟨⟨files, first, hshape⟩, -⟩ := h
  have hholds := openDir_spec hshape.holds hlisting (fun f hf => hshape.lastBlockNum_eq hf)
    s.catalog.maxRetainedFiles
  have hend := hshape.end_eq
  have hbegin := hshape.begin_eq
  have hlt := hshape.lt
  obtain ⟨s1, hlog, hopen⟩ := bind_eq_ok.mp hopen
  obtain rfl := pure_eq_ok.mp hopen
  unfold openLog at hlog
  rcases eq_nil_or_concat s.log with hnil | ⟨init, last, hcat⟩
  · -- the active file is empty: the log goes on after the retained files
    rw [hnil] at hlog
    obtain rfl := pure_eq_ok.mp hlog
    rw [hnil, length_nil, add_zero] at hend
    have hnext : ∃ first', 0 < first' ∧ Consecutive blockNum first' (flat files) ∧
        u32 ((openDir s.catalog.maxRetainedFiles listing).lastBlockNum + 1) =
          first' + (flat files).length ∧ first' + (flat files).length < 2 ^ 32 := by
      rw [LogCatalog.lastBlockNum, hholds.collection, getLast?_map]
      rcases eq_nil_or_concat files with rfl | ⟨before, f, rfl⟩
      · exact ⟨1, by omega, nil, rfl, by rw [flat_nil, length_nil]; omega⟩
      · rw [concat_eq_append] at hshape hbegin ⊢
        refine ⟨first, hshape.pos, (Consecutive.append.mp hshape.numbered).1, ?_, by omega⟩
        have hlast := hshape.file.2
        rw [getLast?_concat, map_some]
        show u32 (endBlockNum f + 1) = _
        rw [flat_append, flat_cons, flat_nil, append_nil, length_append] at hbegin ⊢
        rw [u32_of_lt (by omega)]
        omega
    obtain ⟨first', hpos, hnumbered, hnext, hlt'⟩ := hnext
    refine ⟨⟨files, first', ?_⟩, fun p hp => ?_⟩
    · simp only [if_true]
      exact
        { holds := hholds
          full := hshape.full
          numbered := by
            rwa [append_nil]
          linked := by
            rw [append_nil]
            exact hshape.linked.left_of_append
          begin_eq := hnext
          end_eq := rfl
          index_eq := fun hne => absurd rfl hne
          pos := hpos
          lt := by
            show u32 _ < _
            exact u32_lt _ }
    · simp only [if_true] at hp
      cases hp
  · rw [concat_eq_append] at hcat
    obtain ⟨a, ha⟩ : ∃ a, s.log.head? = some a := by
      rw [hcat]
      cases init <;> exact ⟨_, rfl⟩
    have hlast : s.log.getLast? = some last := by
      rw [hcat, getLast?_concat]
    have hanum := hshape.numbered_log.head? ha
    have hlnum := hshape.numbered_log.getLast? hlast
    rw [← hend] at hlnum
    rw [ha, hlast] at hlog
    obtain ⟨_, -, hlog⟩ := bind_eq_ok.mp hlog
    obtain rfl := pure_eq_ok.mp hlog
    have hu : u32 (last.blockNum + 1) = s.endBlock := by
      rw [u32_of_lt (by omega), hlnum]
    have hne : ¬ u32 (last.blockNum + 1) = 0 := by
      rw [hu]
      omega
    simp only [if_neg hne]
    refine ⟨⟨files, first, ?_⟩, fun p hp => ?_⟩
    · exact
        { hshape with
          holds := hholds
          begin_eq := hanum.trans hbegin
          end_eq := by
            show u32 (last.blockNum + 1) = a.blockNum + s.log.length
            omega
          index_eq := fun _ => rfl
          lt := by
            show u32 _ < _
            exact u32_lt _ }
    · rw [hlast] at hp
      rw [some.inj hp]

lemma Inv.step {event : Event} (h : Inv s) (hharmless : event.Harmless s)
    (hstep : Step s event s') : Inv s' := by
  cases event with
  | write e => exact h.write hharmless hstep
  | getBlockId n =>
    obtain ⟨⟨files, first, hshape⟩, hlast⟩ := h
    obtain ⟨id, catalog, hid, rfl⟩ := hstep
    exact ⟨⟨files, first, hshape.of_getBlockIdI hid⟩, hlast⟩
  | reopen => exact h.reopen hstep.1 hstep.2

lemma Inv.fresh (stride maxRetainedFiles : ℕ) : Inv (fresh stride maxRetainedFiles) := by
  refine ⟨⟨[], 1, ?_⟩, fun p hp => by cases hp⟩
  exact
    { holds := ⟨rfl, by simp [PartitionedHistory.fresh], by simp, List.Pairwise.nil, by
        simp [PartitionedHistory.fresh, openDir]⟩
      full := by simp
      numbered := nil
      linked := isChain_nil
      begin_eq := rfl
      end_eq := rfl
      index_eq := fun h => absurd rfl h
      pos := one_pos
      lt := by
        show 1 < 2 ^ 32
        norm_num }

/-! ### No holes -/

/-- The entry for a block links to the one for the block before. -/
lemma Shape.linked_of_num (h : Shape s files first) {p : HistoryEntry} (hp : p ∈ s.stored)
    (he : e ∈ s.stored) (hnum : e.blockNum = p.blockNum + 1) : e.prevId = p.blockId := by
  rw [h.stored_eq] at hp he
  have hp' := (h.numbered.mem_bounds hp).2.2
  have hpge := (h.numbered.mem_bounds hp).1
  have he' := (h.numbered.mem_bounds he).2.2
  rw [show e.blockNum - first = p.blockNum - first + 1 by omega] at he'
  obtain ⟨hi, hpeq⟩ := List.getElem?_eq_some_iff.mp hp'
  obtain ⟨hj, heeq⟩ := List.getElem?_eq_some_iff.mp he'
  have := isChain_iff_getElem.mp h.linked (p.blockNum - first) hj
  rwa [hpeq, heeq] at this

lemma Shape.exists_stored (h : Shape s files first) (hfrom : s.blockRange.1 ≤ n)
    (hto : n < s.blockRange.2) : ∃ e ∈ s.stored, e.blockNum = n := by
  have hend := h.end_eq
  have hbegin := h.begin_eq
  have hlt := h.lt
  have hto' : n < s.endBlock := hto
  have hfirst : first ≤ n := by
    unfold blockRange LogCatalog.firstBlockNum at hfrom
    rw [h.holds.collection] at hfrom
    cases files with
    | nil =>
      rw [flat_nil, length_nil] at hbegin
      simp only [map_nil, head?_nil] at hfrom
      omega
    | cons f files =>
      have hf := h.segments.head.1
      simp only [map_cons, head?_cons] at hfrom
      change min (firstBlockNum f) s.beginBlock ≤ n at hfrom
      omega
  obtain ⟨e, he, hnum, -⟩ := h.numbered.exists_of_range (n := n) hfirst (by
    rw [length_append]
    omega)
  exact ⟨e, h.stored_eq ▸ he, hnum⟩

/-- **No holes**: in every run in which the entries that are not checked link to what is stored,
every block of the range is found, the entries for consecutive blocks link, across files as well as
inside a file, and an entry for a block after the first one of the active file that skips a block
or does not link to the stored one before it is rejected. -/
theorem noHoles_of_run {stride maxRetainedFiles : ℕ}
    {tr : List (Transition PartitionedHistory Event)}
    (hr : Run Step (fresh stride maxRetainedFiles) tr s)
    (hharmless : ∀ t ∈ tr, t.event.Harmless t.pre) : (∀ n, s.blockRange.1 ≤ n → n < s.blockRange.2 →
      ∃ e ∈ s.stored, e.blockNum = n ∧ ∃ catalog, s.getBlockIdI n = .ok (some e.blockId, catalog)) ∧
    (∀ p ∈ s.stored, ∀ e ∈ s.stored, e.blockNum = p.blockNum + 1 → e.prevId = p.blockId) ∧
    ∀ e, ¬ Unchecked s e → ¬ Links s e → ∃ ex, s.writeEntry e = .error ex := by
  obtain ⟨⟨⟨files, first, hshape⟩, hlast⟩, -⟩ := hr.forall_transition
    (P := Inv) (C := fun s e _ => e.Harmless s) (Inv.fresh stride maxRetainedFiles)
    (fun _ _ _ h hC hstep => h.step hC hstep) hharmless
  refine ⟨fun n hfrom hto => ?_, fun p hp e he => hshape.linked_of_num hp he, fun e hu hnot => ?_⟩
  · obtain ⟨e, he, hnum⟩ := hshape.exists_stored hfrom hto
    have hlt := hshape.lt
    have hto' : n < s.endBlock := hto
    obtain ⟨⟨pos, catalog⟩, hpos⟩ :=
      exists_getBlockPosition hshape.holds (n := n) (.inr (by omega))
    obtain ⟨id, hid, -, hcase⟩ := hshape.getBlockIdI_spec hpos
    rcases hcase with ⟨e', he', hnum', rfl⟩ | ⟨hnone, -⟩
    · exact ⟨e', he', hnum', catalog, hid⟩
    · exact absurd hnum (hnone e he)
  · cases hwrite : s.writeEntry e with
    | error ex => exact ⟨ex, rfl⟩
    | ok s' =>
      obtain ⟨hmissed, hcheck, -⟩ := writeEntry_eq_ok hwrite
      exact absurd (links_of_checkLink hshape hlast hmissed hcheck hu) hnot

/-! ### A log with a stride of two -/

/-- An id for a block, in the given branch. -/
def demoHistoryId (num branch : UInt64) : BlockId := ⟨endianReverseU32 num, 0, 0, branch⟩

/-- An entry for a block, after the block with the given number and branch. -/
def demoEntry (num branch prev prevBranch : UInt64) : Event :=
  .write ⟨demoHistoryId num branch, demoHistoryId prev prevBranch, []⟩

/-- Four blocks, a fork back into the second file, a read of a retained file, and a restart with the
files listed backwards. -/
def demoFork : List Event :=
  [demoEntry 1 0 0 0, demoEntry 2 0 1 0, demoEntry 3 0 2 0, demoEntry 4 0 3 0, demoEntry 4 1 3 0,
    .getBlockId 1,
    .reopen [⟨(3, 4), ⟨[⟨demoHistoryId 3 0, demoHistoryId 2 0, []⟩,
          ⟨demoHistoryId 4 1, demoHistoryId 3 0, []⟩]⟩⟩,
        ⟨(1, 2), ⟨[⟨demoHistoryId 1 0, demoHistoryId 0 0, []⟩,
          ⟨demoHistoryId 2 0, demoHistoryId 1 0, []⟩]⟩⟩],
    demoEntry 5 1 4 1]

theorem noHoles_of_run_demoFork : ∃ tr s, Run Step (fresh 2 10) tr s ∧ s.blockRange = (1, 6) ∧
      ∃ e ∈ s.stored, e.blockNum = 4 ∧
        ∃ catalog, s.getBlockIdI 4 = .ok (some e.blockId, catalog) := by
  obtain ⟨tr, s, hr, hP⟩ := exists_run_of_carryOut next (fresh 2 10) demoFork
    (fun _ _ _ h => step_of_next h)
    (P := fun tr s => (∀ t ∈ tr, t.event.Harmless t.pre) ∧ s.blockRange = (1, 6))
    (by decide +kernel)
  obtain ⟨hharmless, hrange⟩ := hP
  refine ⟨tr, s, hr, hrange, (noHoles_of_run hr hharmless).1 4 ?_ ?_⟩
  · rw [hrange]
    decide
  · rw [hrange]
    decide

/-- **A hole**: the first entry after a split is not checked.  After the blocks 1 and 2 an entry for
block 5 is accepted, the range is from 1 to 5, and block 3 is not found. -/
theorem exists_hole : ∃ tr s, Run Step (fresh 2 10) tr s ∧ s.blockRange = (1, 6) ∧
      ∃ catalog, s.getBlockIdI 3 = .ok (none, catalog) := by
  obtain ⟨tr, s, hr, hP⟩ := exists_run_of_carryOut next (fresh 2 10)
    [demoEntry 1 0 0 0, demoEntry 2 0 1 0, demoEntry 5 0 4 0] (fun _ _ _ h => step_of_next h)
    (P := fun _ s => s.blockRange = (1, 6) ∧
      (s.getBlockIdI 3).toOption.map Prod.fst = some none) (by decide +kernel)
  obtain ⟨hrange, hid⟩ := hP
  obtain ⟨⟨id, catalog⟩, hid, hnone⟩ := map_eq_some_iff.mp hid
  obtain rfl : id = none := hnone
  exact ⟨tr, s, hr, hrange, catalog, eq_ok_of_toOption hid⟩

end Sysio.PartitionedHistory
