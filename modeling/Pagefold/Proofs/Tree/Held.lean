import Mathlib.Data.Set.Card
import Pagefold.Proofs.Disk.Growth
import Pagefold.Proofs.Text.Ascending

/-!
# What a folder holds

* `Tree.held`, `Tree.mem_held`, `Tree.pairwise_held`: the entries of a folder, each once;
* `Tree.Counts`: how many files are in a part of a tree, and `Tree.Counts.add`, how parts add up;
* `Tree.Counts.of_held`: the files of a folder are those at and below its entries.
-/

namespace Pagefold

namespace Tree

variable {t t' : Tree} {l m : Location} {n : Text} {e : Entry} {x : Text × Entry} {i j : Nat}
  {P Q : Location → Prop} {bytes : ByteArray}

/-! ## What a folder holds -/

def held (t : Tree) (l : Location) : List (Text × Entry) :=
  (t.names l).filterMap fun n => (t.at? (l ++ [n])).map (n, ·)

theorem mem_names (h : t.at? (l ++ [n]) = some e) : n ∈ t.names l := by
  rw [names, Text.mem_sortedUnique, List.mem_filterMap]
  exact ⟨_, mem_entries (by simp) h, by simp [nameIn?]⟩

theorem mem_held : x ∈ t.held l ↔ t.at? (l ++ [x.1]) = some x.2 := by
  rw [held, List.mem_filterMap]
  constructor
  · rintro ⟨n, -, hn⟩
    obtain ⟨e, he, rfl⟩ := Option.map_eq_some_iff.1 hn
    exact he
  · intro h
    exact ⟨x.1, mem_names h, by rw [h]; rfl⟩

theorem pairwise_held (t : Tree) (l : Location) : (t.held l).Pairwise fun x y => x.1 ≠ y.1 := by
  refine List.Pairwise.filterMap _ (fun n n' hne x hx y hy => ?_) (Text.nodup_sortedUnique _)
  obtain ⟨e, -, rfl⟩ := Option.map_eq_some_iff.1 hx
  obtain ⟨e', -, rfl⟩ := Option.map_eq_some_iff.1 hy
  exact hne

theorem WellFormed.none_below_file (ht : t.WellFormed) (hl : t.at? l = some (.file bytes))
    (hlm : l <+: m) (hne : l ≠ m) : t.at? m = none := by
  by_contra hm
  obtain ⟨e, he⟩ := Option.ne_none_iff_exists'.1 hm
  have hfolder := ht.folder_above he hlm hne
  rw [hl] at hfolder
  cases hfolder

/-! ## How many files there are -/

/-- Of the locations that `P` speaks of, `n` hold a file. -/
def Counts (t : Tree) (P : Location → Prop) (n : Nat) : Prop :=
  ∃ ls : List Location, ls.Nodup ∧
    (∀ m, m ∈ ls ↔ P m ∧ ∃ bytes, t.at? m = some (.file bytes)) ∧ ls.length = n

theorem Counts.ncard_eq (h : t.Counts P i) :
    {m | P m ∧ ∃ bytes, t.at? m = some (.file bytes)}.ncard = i := by
  obtain ⟨ls, hnodup, hmem, rfl⟩ := h
  have hset : {m | P m ∧ ∃ bytes, t.at? m = some (.file bytes)} = (ls.toFinset : Set Location) := by
    ext m
    simp [hmem]
  rw [hset, Set.ncard_coe_finset, List.toFinset_card_of_nodup hnodup]

theorem Counts.congr (h : t.Counts P i)
    (hPQ : ∀ m bytes, t.at? m = some (.file bytes) → (P m ↔ Q m)) : t.Counts Q i := by
  obtain ⟨ls, hnodup, hmem, hlength⟩ := h
  refine ⟨ls, hnodup, fun m => ?_, hlength⟩
  rw [hmem]
  exact and_congr_left fun ⟨bytes, hbytes⟩ => hPQ m bytes hbytes

theorem Counts.of_same (h : t.Counts P i) (hsame : ∀ m, P m → t'.at? m = t.at? m) :
    t'.Counts P i := by
  obtain ⟨ls, hnodup, hmem, hlength⟩ := h
  refine ⟨ls, hnodup, fun m => ?_, hlength⟩
  rw [hmem]
  exact and_congr_right fun hm => by rw [hsame m hm]

theorem counts_zero (h : ∀ m, ¬ P m) : t.Counts P 0 :=
  ⟨[], List.nodup_nil, fun m => by simp [h m], rfl⟩

theorem Counts.add (hP : t.Counts P i) (hQ : t.Counts Q j) (hPQ : ∀ m, P m → ¬ Q m) :
    t.Counts (fun m => P m ∨ Q m) (i + j) := by
  obtain ⟨ls, hls, hmem, rfl⟩ := hP
  obtain ⟨ms, hms, hmem', rfl⟩ := hQ
  refine ⟨ls ++ ms, ?_, fun m => ?_, List.length_append⟩
  · refine List.Nodup.append hls hms fun m hm hm' => ?_
    exact hPQ m ((hmem m).1 hm).1 ((hmem' m).1 hm').1
  · rw [List.mem_append, hmem, hmem']
    tauto

theorem counts_file (ht : t.WellFormed) (hl : t.at? l = some (.file bytes)) :
    t.Counts (l <+: ·) 1 := by
  refine ⟨[l], List.nodup_singleton l, fun m => ?_, rfl⟩
  rw [List.mem_singleton]
  constructor
  · rintro rfl
    exact ⟨List.prefix_refl m, bytes, hl⟩
  · rintro ⟨hlm, bytes', hm⟩
    by_contra hne
    rw [ht.none_below_file hl hlm (Ne.symm hne)] at hm
    cases hm

/-- What is in a folder is at or below one of its entries. -/
theorem Counts.of_held (h : t.Counts (fun m => ∃ x ∈ t.held l, l ++ [x.1] <+: m) i)
    (ht : t.WellFormed) (hl : t.at? l = some .folder) : t.Counts (l <+: ·) i := by
  refine h.congr fun m bytes hfile => ⟨?_, ?_⟩
  · rintro ⟨x, -, hx⟩
    exact (List.prefix_append l [x.1]).trans hx
  · rintro ⟨s, rfl⟩
    cases s with
    | nil =>
      rw [List.append_nil, hl] at hfile
      cases hfile
    | cons n s =>
      cases he : t.at? (l ++ [n]) with
      | none =>
        rw [ht.none_below he (by simp : l ++ [n] <+: l ++ n :: s)] at hfile
        cases hfile
      | some e => exact ⟨(n, e), mem_held.2 he, by simp⟩

end Tree

end Pagefold
