import Sysio.Log.Catalog

/-!
# Lookups in the catalog of a log

A lookup leaves the file open that it read, and the next one may answer from that file without a
search.  Over any sequence of calls the answers are still those of the plain list of retained files,
in which a lookup changes nothing (`runCalls_eq`), with two exceptions:

* an empty catalog has the largest block number for its first one, so a lookup of that number is not
  refused, and searches in the empty map;
* if the files only begin in ascending order and their ranges overlap, the open file can answer for
  a later one.
-/

namespace Sysio.LogCatalog

open List LogData

variable {F : Type} [LogData F]

/-- A call of the catalog. -/
inductive Call (F : Type)
  | add (file : F)
  | truncate (n : ℕ)
  | getBlockPosition (n : ℕ)
  deriving DecidableEq

/-- What a call gives back. -/
inductive Answer (F : Type)
  | added
  /-- The number that `truncate` returns, and the bundle under the new name. -/
  | truncated (start : ℕ) (file : Option F)
  /-- The position of the block, and `log_data`, where it is read. -/
  | found (position : Option (F × ℕ))
  deriving DecidableEq

/-- `ro_stream_for_block`: the position, in the file that is open then. -/
def roStreamForBlock (dir : RetainedDir F) (c : LogCatalog F) (n : ℕ) :
    Result (Option (F × ℕ) × LogCatalog F) := do
  let (pos, c') ← c.getBlockPosition dir n
  pure (pos.bind fun pos => c'.logData.map fun file => (file, pos), c')

/-- One call. -/
def call (s : RetainedDir F × LogCatalog F) :
    Call F → Result (Answer F × RetainedDir F × LogCatalog F)
  | .add file =>
    .ok (.added, s.2.add s.1 (firstBlockNum file) (endBlockNum file) file)
  | .truncate n => do
    let (back, s') ← s.2.truncate s.1 n
    .ok (.truncated ((back.map Prod.fst).getD 0) (back.map Prod.snd), s')
  | .getBlockPosition n => do
    let (position, c') ← s.2.roStreamForBlock s.1 n
    .ok (.found position, s.1, c')

/-- The calls one after the other. -/
def runCalls (s : RetainedDir F × LogCatalog F) :
    List (Call F) → Result (List (Answer F) × RetainedDir F × LogCatalog F)
  | [] => .ok ([], s)
  | e :: calls => do
    let (a, s') ← call s e
    let (answers, s'') ← runCalls s' calls
    .ok (a :: answers, s'')

/-! ### The retained files -/

instance (f : F) (n : ℕ) : Decidable (Covers f n) := inferInstanceAs (Decidable (_ ∧ _))

/-- The files that a call leaves: `add` drops the oldest ones, `truncate` removes those that start
above the block and hands back the one with the block. -/
def retain (maxRetainedFiles : ℕ) (files : List F) : Call F → List F
  | .add file => (files ++ [file]).drop (itemsToErase maxRetainedFiles (files.length + 1))
  | .truncate n => files.filter fun f => decide (firstBlockNum f ≤ n ∧ ¬ Covers f n)
  | .getBlockPosition _ => files

/-- The answer that the files give. -/
def answer (files : List F) : Call F → Answer F
  | .add _ => .added
  | .truncate n =>
    let file := files.find? fun f => decide (Covers f n)
    .truncated ((file.map firstBlockNum).getD 0) file
  | .getBlockPosition n =>
    .found ((files.find? fun f => decide (Covers f n)).map fun f => (f, n - firstBlockNum f))

/-- The answers to all calls, and the files at the end. -/
def answers (maxRetainedFiles : ℕ) (files : List F) : List (Call F) → List (Answer F) × List F
  | [] => ([], files)
  | e :: calls =>
    let r := answers maxRetainedFiles (retain maxRetainedFiles files e) calls
    (answer files e :: r.1, r.2)

/-- **The condition on a call**: a file is added behind the retained ones, and the largest block
number is looked up only while there is a file. -/
def Call.Regular (files : List F) : Call F → Prop
  | .add file => Sized file ∧ ∀ g ∈ files, endBlockNum g < firstBlockNum file
  | .truncate _ => True
  | .getBlockPosition n => files ≠ [] ∨ n + 1 < 2 ^ 32

def AllRegular (maxRetainedFiles : ℕ) (files : List F) : List (Call F) → Prop
  | [] => True
  | e :: calls =>
    e.Regular files ∧ AllRegular maxRetainedFiles (retain maxRetainedFiles files e) calls

variable {dir : RetainedDir F} {c : LogCatalog F} {files : List F} {f : F} {n : ℕ}

lemma Holds.find?_covers (h : Holds dir c files) (hf : f ∈ files) (hn : Covers f n) :
    files.find? (fun f => decide (Covers f n)) = some f := by
  cases hfind : files.find? fun f => decide (Covers f n) with
  | none => exact absurd (decide_eq_true hn) (find?_eq_none.mp hfind f hf)
  | some g =>
    have hg : Covers g n := of_decide_eq_true (find?_some (p := fun f => decide (Covers f n)) hfind)
    rcases eq_or_rel_of_pairwise h.ordered hf (mem_of_find?_eq_some hfind) with rfl | hlt | hlt
    · rfl
    · exact absurd (hg.1.trans hn.2) (not_le.mpr hlt)
    · exact absurd (hn.1.trans hg.2) (not_le.mpr hlt)

lemma find?_covers_none (h : ∀ f ∈ files, ¬ Covers f n) :
    files.find? (fun f => decide (Covers f n)) = none :=
  find?_eq_none.mpr fun f hf => by rw [decide_eq_true_eq]; exact h f hf

section

variable (h : Holds dir c files)
include h

lemma Holds.roStreamForBlock (hn : files ≠ [] ∨ n + 1 < 2 ^ 32) :
    ∃ position c', c.roStreamForBlock dir n = .ok (position, c') ∧ Holds dir c' files ∧
      c'.maxRetainedFiles = c.maxRetainedFiles ∧
      Answer.found position = answer files (.getBlockPosition n) := by
  obtain ⟨⟨pos, c'⟩, hr⟩ := exists_getBlockPosition h hn
  obtain ⟨hholds, hmax, hcase⟩ := getBlockPosition_spec h hr
  refine ⟨_, c', by rw [LogCatalog.roStreamForBlock, hr, Result.ok_bind]; rfl, hholds, hmax, ?_⟩
  rcases hcase with ⟨f, hf, hcov, rfl, hdata⟩ | ⟨hnone, rfl⟩
  · rw [answer, h.find?_covers hf hcov, hdata]
    rfl
  · rw [answer, find?_covers_none hnone]
    rfl

/-- `truncate` leaves the files that end before the block. -/
lemma Holds.truncate (n : ℕ) : ∃ back dir' c', c.truncate dir n = .ok (back, dir', c') ∧
      Holds dir' c' (retain c.maxRetainedFiles files (.truncate n)) ∧
      c'.maxRetainedFiles = c.maxRetainedFiles ∧
      Answer.truncated ((back.map Prod.fst).getD 0) (back.map Prod.snd) =
        answer files (.truncate n) := by
  obtain ⟨before, at?, after, dir', c', heq, rfl, hholds, hmax, hbefore, hat, hafter⟩ :=
    truncate_spec h n
  have hkeep : ∀ f ∈ before, firstBlockNum f ≤ n ∧ ¬ Covers f n := fun f hf =>
    ⟨((hholds.sized f hf).le.trans_lt (hbefore f hf)).le,
      fun hn => absurd hn.2 (not_le.mpr (hbefore f hf))⟩
  have hretain : retain c.maxRetainedFiles (before ++ at?.toList ++ after) (.truncate n) =
      before := by
    rw [retain, append_assoc, filter_append, filter_eq_self.mpr fun f hf =>
      decide_eq_true (hkeep f hf), filter_eq_nil_iff.mpr, append_nil]
    intro f hf hkept
    obtain ⟨hle, hnot⟩ := of_decide_eq_true hkept
    rcases mem_append.mp hf with hf | hf
    · exact hnot (hat f (Option.mem_toList.mp hf))
    · exact absurd hle (not_le.mpr (hafter f hf))
  refine ⟨_, dir', c', heq, by rw [hretain]; exact hholds, hmax, ?_⟩
  cases at? with
  | some f =>
    rw [answer, h.find?_covers (f := f) (by simp) (hat f rfl)]
    rfl
  | none =>
    rw [answer, find?_covers_none fun f hf hn => ?_]
    · rfl
    · rw [Option.toList_none, append_nil] at hf
      rcases mem_append.mp hf with hf | hf
      · exact (hkeep f hf).2 hn
      · exact absurd hn.1 (not_le.mpr (hafter f hf))

/-- **One call answers as the retained files do**, and the catalog describes those that it
leaves. -/
theorem call_spec {e : Call F} (hreg : e.Regular files) :
    ∃ dir' c', call (dir, c) e = .ok (answer files e, dir', c') ∧
      Holds dir' c' (retain c.maxRetainedFiles files e) ∧
      c'.maxRetainedFiles = c.maxRetainedFiles := by
  cases e with
  | add file =>
    obtain ⟨k, rfl, hholds, hmax⟩ := add_spec h hreg.1 hreg.2
    exact ⟨_, _, rfl, hholds, hmax⟩
  | truncate n =>
    obtain ⟨back, dir', c', heq, hholds, hmax, hanswer⟩ := h.truncate n
    refine ⟨dir', c', ?_, hholds, hmax⟩
    rw [call, heq, Result.ok_bind, ← hanswer]
  | getBlockPosition n =>
    obtain ⟨position, c', heq, hholds, hmax, hanswer⟩ := h.roStreamForBlock hreg
    refine ⟨dir, c', ?_, hholds, hmax⟩
    rw [call, heq, Result.ok_bind, ← hanswer]

lemma runCalls_spec {calls : List (Call F)}
    (hreg : AllRegular c.maxRetainedFiles files calls) : ∃ dir' c', runCalls (dir, c) calls =
        .ok ((answers c.maxRetainedFiles files calls).1, dir', c') ∧
      Holds dir' c' (answers c.maxRetainedFiles files calls).2 := by
  induction calls generalizing dir c files with
  | nil => exact ⟨dir, c, rfl, h⟩
  | cons e calls ih =>
    obtain ⟨dir1, c1, hcall, h1, hmax⟩ := call_spec h hreg.1
    obtain ⟨dir2, c2, hruns, h2⟩ := ih h1 (hmax ▸ hreg.2)
    rw [hmax] at hruns h2
    refine ⟨dir2, c2, ?_, h2⟩
    rw [runCalls, hcall, Result.ok_bind]
    show (runCalls (dir1, c1) calls >>= _) = _
    rw [hruns]
    rfl

end

/-- **The lookups do not show the cache**: on a new catalog all calls answer as the retained files
do, and the directory has these files at the end. -/
theorem runCalls_eq (maxRetainedFiles : ℕ) (calls : List (Call F))
    (hreg : AllRegular maxRetainedFiles [] calls) :
    ∃ dir c, runCalls (Table.empty, openDir maxRetainedFiles []) calls =
        .ok ((answers maxRetainedFiles [] calls).1, dir, c) ∧
      ∀ b, b ∈ dir ↔ ∃ f ∈ (answers maxRetainedFiles [] calls).2, b = bundle f := by
  have hempty : Holds (Table.empty : RetainedDir F) (openDir maxRetainedFiles []) [] :=
    ⟨rfl, by simp, by simp, .nil, by simp [openDir]⟩
  obtain ⟨dir, c, heq, hholds⟩ := runCalls_spec hempty hreg
  exact ⟨dir, c, heq, hholds.stored⟩

/-- A file that is only its range of blocks. -/
structure BlockRange where
  first : ℕ
  last : ℕ
  deriving DecidableEq

instance : LogData BlockRange := ⟨BlockRange.first, BlockRange.last, fun f => f.last - f.first + 1⟩

/-- Two files, of which the first is dropped while it is open, and the second is handed back; the
largest number is looked up while there is a file. -/
theorem runCalls_eq_two :
    ∃ dir c, runCalls (Table.empty, openDir 1 []) [.getBlockPosition 3, .add ⟨1, 10⟩,
        .getBlockPosition 3, .add (⟨11, 20⟩ : BlockRange), .getBlockPosition 3,
        .getBlockPosition 4294967295, .truncate 12] =
        .ok ([.found none, .added, .found (some (⟨1, 10⟩, 2)), .added, .found none, .found none,
          .truncated 11 (some ⟨11, 20⟩)], dir, c) ∧ ∀ b, b ∉ dir := by
  obtain ⟨dir, c, heq, hdir⟩ := runCalls_eq 1 [.getBlockPosition 3, .add ⟨1, 10⟩,
    .getBlockPosition 3, .add (⟨11, 20⟩ : BlockRange), .getBlockPosition 3,
    .getBlockPosition 4294967295, .truncate 12] (by
      refine ⟨.inr (by decide), ⟨⟨by decide, by decide⟩, by decide⟩, .inl (by decide),
        ⟨⟨by decide, by decide⟩, ?_⟩, .inl (by decide), .inl (by decide), trivial, trivial⟩
      decide)
  refine ⟨dir, c, heq, fun b hb => ?_⟩
  obtain ⟨f, hf, -⟩ := (hdir b).mp hb
  cases hf

/-- **A lookup without an answer**: of the largest block number, in a new catalog.  **Two files that
overlap**: block 7 is found in the second one, or in the first one if that was opened for block 3
before. -/
theorem exists_wrong_lookup :
    runCalls (Table.empty, openDir 2 [])
        [(.getBlockPosition 4294967295 : Call BlockRange)] =
        .error ⟨.undefinedBehavior, "decrement of the begin of a map"⟩ ∧
      (∃ r, runCalls (Table.empty, openDir 2 []) [.add ⟨1, 10⟩, .add (⟨5, 20⟩ : BlockRange),
        .getBlockPosition 7] = .ok r ∧ r.1.getLast? = some (.found (some (⟨5, 20⟩, 2)))) ∧
      ∃ r, runCalls (Table.empty, openDir 2 []) [.add ⟨1, 10⟩, .add (⟨5, 20⟩ : BlockRange),
        .getBlockPosition 3, .getBlockPosition 7] = .ok r ∧
        r.1.getLast? = some (.found (some (⟨1, 10⟩, 6))) := by
  exact ⟨rfl, by decide +kernel, by decide +kernel⟩

end Sysio.LogCatalog
