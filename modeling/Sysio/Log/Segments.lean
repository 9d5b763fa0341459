import Sysio.Data.Consecutive
import Sysio.Log.Catalog

/-!
# The blocks in the files of a log

`Segments entries num first files` says that the files hold consecutive blocks from `first` on, each
file as many as its index has positions.  From the place of a file then follow its first and last
block, and the file that has a block covers its number.
-/

namespace Sysio

open List LogData Consecutive

variable {F E : Type} [LogData F]

/-- **Files of consecutive blocks**, from `first` on. -/
structure Segments (entries : F → List E) (num : E → ℕ) (first : ℕ) (files : List F) : Prop where
  full : ∀ f ∈ files, entries f ≠ []
  numbered : Consecutive num first (files.flatMap entries)
  first_eq : ∀ f ∈ files, ∀ a ∈ (entries f).head?, firstBlockNum f = num a
  size : ∀ f ∈ files, numBlocks f = (entries f).length

namespace Segments

variable {entries : F → List E} {num : E → ℕ} {first n : ℕ} {files before after : List F} {f : F}
  {e : E}

lemma nil : Segments entries num first [] :=
  ⟨by simp, Consecutive.nil, by simp, by simp⟩

lemma append_iff : Segments entries num first (before ++ after) ↔
    Segments entries num first before ∧
      Segments entries num (first + (before.flatMap entries).length) after := by
  constructor
  · intro h
    have hnumbered := h.numbered
    rw [flatMap_append, append] at hnumbered
    have hleft : ∀ f ∈ before, f ∈ before ++ after := fun f hf => mem_append_left _ hf
    have hright : ∀ f ∈ after, f ∈ before ++ after := fun f hf => mem_append_right _ hf
    exact ⟨⟨fun f hf => h.full f (hleft f hf), hnumbered.1, fun f hf => h.first_eq f (hleft f hf),
        fun f hf => h.size f (hleft f hf)⟩,
      ⟨fun f hf => h.full f (hright f hf), hnumbered.2, fun f hf => h.first_eq f (hright f hf),
        fun f hf => h.size f (hright f hf)⟩⟩
  · rintro ⟨h1, h2⟩
    refine ⟨forall_mem_append.mpr ⟨h1.full, h2.full⟩, ?_,
      forall_mem_append.mpr ⟨h1.first_eq, h2.first_eq⟩,
      forall_mem_append.mpr ⟨h1.size, h2.size⟩⟩
    rw [flatMap_append, append]
    exact ⟨h1.numbered, h2.numbered⟩

lemma head (h : Segments entries num first (f :: after)) : firstBlockNum f = first ∧
      endBlockNum f + 1 = first + (entries f).length ∧ Consecutive num first (entries f) := by
  have hf := h.full f mem_cons_self
  have hnumbered := h.numbered
  rw [flatMap_cons, append] at hnumbered
  have hhead : (entries f).head? = some ((entries f).head hf) := head?_eq_some_head hf
  have hfirst : firstBlockNum f = first := by
    rw [h.first_eq f mem_cons_self _ hhead]
    exact hnumbered.1.head? hhead
  refine ⟨hfirst, ?_, hnumbered.1⟩
  have := length_pos_iff.mpr hf
  rw [endBlockNum, hfirst, h.size f mem_cons_self]
  omega

lemma file (h : Segments entries num first (before ++ f :: after)) :
    firstBlockNum f = first + (before.flatMap entries).length ∧ endBlockNum f + 1 =
        first + (before.flatMap entries).length + (entries f).length ∧
      Consecutive num (firstBlockNum f) (entries f) := by
  obtain ⟨hfirst, hlast, hnumbered⟩ := (append_iff.mp h).2.head
  rw [hfirst]
  exact ⟨rfl, hlast, hnumbered⟩

section

variable (h : Segments entries num first files)
include h

lemma numbered_file (hf : f ∈ files) : Consecutive num (firstBlockNum f) (entries f) ∧
      endBlockNum f + 1 = firstBlockNum f + (entries f).length ∧
      endBlockNum f < first + (files.flatMap entries).length := by
  obtain ⟨before, after, rfl⟩ := append_of_mem hf
  obtain ⟨hfirst, hlast, hnumbered⟩ := h.file
  refine ⟨hnumbered, by omega, ?_⟩
  rw [flatMap_append, flatMap_cons, length_append, length_append]
  omega

lemma sized (hf : f ∈ files)
    (hlt : first + (files.flatMap entries).length ≤ 2 ^ 32) : LogCatalog.Sized f := by
  obtain ⟨-, hlast, hbound⟩ := h.numbered_file hf
  have hlen := length_pos_iff.mpr (h.full f hf)
  have hsize := h.size f hf
  exact ⟨by omega, by omega⟩

/-- The last entry of a file has the number that its size gives. -/
lemma num_getLast? (hf : f ∈ files) (he : e ∈ (entries f).getLast?) : num e = endBlockNum f := by
  obtain ⟨hnumbered, hlast, -⟩ := h.numbered_file hf
  have := hnumbered.getLast? he
  omega

lemma exists_of_covers (hf : f ∈ files) (hn : LogCatalog.Covers f n) :
    ∃ e ∈ entries f, num e = n ∧ (entries f)[n - firstBlockNum f]? = some e := by
  obtain ⟨hnumbered, hlast, -⟩ := h.numbered_file hf
  obtain ⟨hle, hlt⟩ := hn
  exact hnumbered.exists_of_range hle (by omega)

lemma covers_of_mem (hf : f ∈ files) (he : e ∈ entries f) : LogCatalog.Covers f (num e) := by
  obtain ⟨hnumbered, hlast, -⟩ := h.numbered_file hf
  have := hnumbered.mem_bounds he
  exact ⟨by omega, by omega⟩

end

end Segments

end Sysio
