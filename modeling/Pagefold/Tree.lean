import Pagefold.Path

/-!
# File trees

A tree holds folders, files and symbolic links, each at its location: the names that lead to it from
the root.

* `Location`, `Entry`, `Tree`: the tree as a finite list of entries by location;
* `Tree.at?`: the view of a tree, through which all its operations are described;
* `Tree.put`, `Tree.pruneBelow`, `Tree.prune`: one entry set, and a folder emptied or removed;
* `Tree.names`, `Tree.changes`: the names in a folder, and what differs between two trees.
-/

namespace Pagefold

/-- The names that lead to an entry, from the root. -/
abbrev Location := List Text

-- Entries are compared by this instance, whatever else is imported.
instance decidableEqBytes : DecidableEq ByteArray := ByteArray.instDecidableEq

inductive Entry where
  /-- A regular file with its bytes. -/
  | file (bytes : ByteArray)
  | folder
  /-- A symbolic link with its target as written. -/
  | link (target : Path)
deriving DecidableEq

/-- A tree of files: the entries below the root, which is a folder. -/
structure Tree where
  entries : List (Location × Entry)

namespace Tree

def at? (t : Tree) (l : Location) : Option Entry :=
  if l = [] then some .folder else t.entries.lookup l

def put (t : Tree) (l : Location) (e : Entry) : Tree :=
  ⟨(l, e) :: t.entries.filter (·.1 ≠ l)⟩

/-- The tree without everything strictly below a location. -/
def pruneBelow (t : Tree) (l : Location) : Tree :=
  ⟨t.entries.filter fun m => m.1 = l || !l.isPrefixOf m.1⟩

/-- The tree without a location and everything below it. -/
def prune (t : Tree) (l : Location) : Tree := ⟨t.entries.filter fun m => !l.isPrefixOf m.1⟩

/-- The name by which a location lies right in a folder. -/
def nameIn? (folder l : Location) : Option Text :=
  if l.dropLast = folder then l.getLast? else none

def names (t : Tree) (folder : Location) : List Text :=
  Text.sortedUnique (t.entries.filterMap fun m => nameIn? folder m.1)

/-- The locations below a folder that differ between two trees, with what stands there in the second
one. Locations are relative to the folder. -/
def changes (before after : Tree) (folder : Location) : List (Location × Option Entry) :=
  let gone := before.entries.filter fun m => (after.at? m.1).isNone
  let ls := (after.entries ++ gone).map Prod.fst
  let ls := ls.filter fun l => folder.isPrefixOf l && l ≠ folder && before.at? l ≠ after.at? l
  ls.map fun l => (l.drop folder.length, after.at? l)

/-! ## The view of the operations -/

theorem lookup_filter {p : Location → Bool} (es : List (Location × Entry)) (m : Location) :
    (es.filter fun x => p x.1).lookup m = if p m then es.lookup m else none := by
  induction es with
  | nil => simp
  | cons x es ih =>
    obtain ⟨l, e⟩ := x
    by_cases h : m = l
    · subst h
      by_cases hp : p m <;> simp [hp, ih]
    · have hm : (m == l) = false := by simpa using h
      by_cases hp : p l <;> simp [hp, ih, List.lookup_cons, hm]

theorem at?_nil (t : Tree) : t.at? [] = some .folder := rfl

theorem at?_put {t : Tree} {l m : Location} {e : Entry} (hm : m ≠ []) :
    (t.put l e).at? m = if m = l then some e else t.at? m := by
  by_cases h : m = l
  · subst h
    simp [at?, put, hm]
  · have hl : (m == l) = false := by simpa using h
    have := lookup_filter (p := fun x => x ≠ l) t.entries m
    simp only [at?, put, hm, List.lookup_cons, hl, h, if_false]
    simpa [h] using this

theorem at?_prune {t : Tree} {l m : Location} (hm : m ≠ []) :
    (t.prune l).at? m = if l <+: m then none else t.at? m := by
  have := lookup_filter (p := fun x => !l.isPrefixOf x) t.entries m
  simp only [at?, prune, hm, if_false, this]
  by_cases h : l <+: m
  · have h' : l.isPrefixOf m = true := List.isPrefixOf_iff_prefix.2 h
    simp [h, h']
  · have : l.isPrefixOf m = false := by
      rw [← Bool.not_eq_true, List.isPrefixOf_iff_prefix]
      exact h
    simp [h, this]

theorem at?_prune_self {t : Tree} {l : Location} (hl : l ≠ []) : (t.prune l).at? l = none := by
  rw [at?_prune hl, if_pos (List.prefix_refl l)]

theorem at?_pruneBelow {t : Tree} {l m : Location} (hm : m ≠ []) :
    (t.pruneBelow l).at? m = if l <+: m ∧ m ≠ l then none else t.at? m := by
  have := lookup_filter (p := fun x => x = l || !l.isPrefixOf x) t.entries m
  simp only [at?, pruneBelow, hm, if_false, this]
  by_cases hl : m = l
  · simp [hl]
  · by_cases h : l <+: m
    · have h' : l.isPrefixOf m = true := List.isPrefixOf_iff_prefix.2 h
      simp [h, h', hl]
    · have : l.isPrefixOf m = false := by
        rw [← Bool.not_eq_true, List.isPrefixOf_iff_prefix]
        exact h
      simp [h, this]

end Tree

end Pagefold
