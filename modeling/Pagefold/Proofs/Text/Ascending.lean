import Mathlib.Data.Char
import Mathlib.Data.List.Lex
import Pagefold.Text

/-!
# Ascending lists of texts

* `Text.mem_sortedUnique`: sorting neither loses nor adds a text;
* `Text.pairwise_sortedUnique`, `Text.nodup_sortedUnique`: each text is there once.
-/

namespace Pagefold.Text

theorem mem_insertUnique {s t : Text} {ts : List Text} :
    s ∈ insertUnique t ts ↔ s = t ∨ s ∈ ts := by
  induction ts with
  | nil => simp [insertUnique]
  | cons u us ih =>
    rw [insertUnique]
    split
    · rw [List.mem_cons]
    · split
      · next heq => simp [heq]
      · rw [List.mem_cons, ih, List.mem_cons]
        tauto

theorem mem_sortedUnique {s : Text} {ts : List Text} : s ∈ sortedUnique ts ↔ s ∈ ts := by
  suffices h : ∀ acc, s ∈ ts.foldl (fun acc t => insertUnique t acc) acc ↔ s ∈ acc ∨ s ∈ ts by
    rw [sortedUnique, h]
    simp
  induction ts with
  | nil => simp
  | cons t ts ih =>
    intro acc
    rw [List.foldl_cons, ih, mem_insertUnique, List.mem_cons]
    tauto

theorem pairwise_insertUnique (t : Text) {ts : List Text} (h : ts.Pairwise (· < ·)) :
    (insertUnique t ts).Pairwise (· < ·) := by
  induction ts with
  | nil => simp [insertUnique]
  | cons u us ih =>
    obtain ⟨hu, hus⟩ := List.pairwise_cons.1 h
    rw [insertUnique]
    split
    · next hlt =>
      refine List.pairwise_cons.2 ⟨fun v hv => ?_, h⟩
      rcases List.mem_cons.1 hv with rfl | hv
      · exact hlt
      · exact lt_trans hlt (hu v hv)
    · split
      · exact h
      · next hnlt hne =>
        refine List.pairwise_cons.2 ⟨fun v hv => ?_, ih hus⟩
        rcases mem_insertUnique.1 hv with rfl | hv
        · exact lt_of_le_of_ne (not_lt.1 hnlt) (Ne.symm hne)
        · exact hu v hv

theorem pairwise_sortedUnique (ts : List Text) : (sortedUnique ts).Pairwise (· < ·) := by
  suffices h : ∀ acc : List Text, acc.Pairwise (· < ·) →
      (ts.foldl (fun acc t => insertUnique t acc) acc).Pairwise (· < ·) from h [] .nil
  induction ts with
  | nil => exact fun acc hacc => hacc
  | cons t ts ih => exact fun acc hacc => ih _ (pairwise_insertUnique t hacc)

theorem nodup_sortedUnique (ts : List Text) : (sortedUnique ts).Nodup :=
  (pairwise_sortedUnique ts).imp fun h => ne_of_lt h

end Pagefold.Text
