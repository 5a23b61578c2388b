import Pagefold.Starter.Splice

/-!
# Where a page goes in its layout

A page goes before the first mark of a layout, before the end of its body, or behind all of it. What
is known about the three cases is the same: the layout falls into a part in front of the page and a
part behind it, and the part behind it starts with the mark, if there is one.

* `Starter.front`: the part of a layout in front of the page;
* `Starter.insert_cases`: a layout with a page in it, by its parts;
* `Starter.CutsAtTags`: every mark starts a tag, so a layout is cut before a `<`.
-/

namespace Pagefold.Starter

open Text

variable {s : StarterSettings}

/-- The part of a layout in front of the place where a page goes; all of it if the page is
appended. -/
def front (s : StarterSettings) (layout : Text) : Text :=
  match firstMarker? layout s.insertionMarkers with
  | some (_, before, _) => before
  | none =>
    match cutBefore? layout s.bodyClose with
    | some (before, _) => before
    | none => layout

/-- A page stands before the rest of its layout, which a mark opens, or behind the layout. -/
theorem insert_cases (s : StarterSettings) (layout page : Text) :
    (∃ m ∈ s.bodyClose :: s.insertionMarkers, m ≠ [] ∧ ∃ after, m <+: after ∧
      layout = front s layout ++ after ∧
      (insert s layout page).1 = between (front s layout) page after) ∨
    (front s layout = layout ∧ (insert s layout page).1 = layout ++ '\n' :: page) := by
  unfold insert front
  cases hmark : firstMarker? layout s.insertionMarkers with
  | some cut =>
    obtain ⟨m, hm, hcut⟩ := List.exists_of_findSome?_eq_some hmark
    obtain ⟨⟨before, after⟩, hparts, rfl⟩ := Option.map_eq_some_iff.1 hcut
    obtain ⟨hlayout, hne, hprefix⟩ := cutBefore?_eq_some hparts
    exact .inl ⟨m, List.mem_cons_of_mem _ hm, hne, after, hprefix, hlayout, rfl⟩
  | none =>
    cases hcut : cutBefore? layout s.bodyClose with
    | some parts =>
      obtain ⟨hlayout, hne, hprefix⟩ := cutBefore?_eq_some hcut
      exact .inl ⟨s.bodyClose, List.mem_cons_self, hne, parts.2, hprefix, hlayout, rfl⟩
    | none => exact .inr ⟨rfl, rfl⟩

/-! ## Marks that are tags -/

/-- The marks at which layouts are cut start with a `<`. -/
def CutsAtTags (s : StarterSettings) : Prop :=
  ∀ m ∈ s.bodyClose :: s.insertionMarkers, m ≠ [] → m.head? = some '<'

instance (s : StarterSettings) : Decidable (CutsAtTags s) := by unfold CutsAtTags; infer_instance

theorem CutsAtTags.insert_cases (h : CutsAtTags s) (layout page : Text) :
    (∃ u, layout = front s layout ++ '<' :: u ∧
      (insert s layout page).1 = between (front s layout) page ('<' :: u)) ∨
    (front s layout = layout ∧ (insert s layout page).1 = layout ++ '\n' :: page) := by
  rcases Starter.insert_cases s layout page with ⟨m, hm, hne, after, ⟨r, rfl⟩, hcut⟩ | happended
  · obtain ⟨u, rfl⟩ := List.head?_eq_some_iff.1 (h m hm hne)
    exact .inl ⟨u ++ r, hcut⟩
  · exact .inr happended

end Pagefold.Starter
