import Pagefold.Starter

/-!
# Pages in layouts

The content of a page goes into its layout at one place, and a title block that the layout makes
needless is left out.

* `Starter.withoutTitle`: a page without its first title block;
* `Starter.pageFor`: a page without the title block that a layout makes needless;
* `Starter.insert`: a layout with a page in it, and where the page went;
* `Starter.splice`: both together.
-/

namespace Pagefold.Starter

open Text

inductive Insertion where
  /-- Before a mark. -/
  | container (marker : Text)
  /-- Before the end of the body. -/
  | bodyClose
  /-- Behind the layout. -/
  | appended
deriving Repr, DecidableEq

/-- A page without its first title block, which runs to the next end of one. -/
def withoutTitle (s : StarterSettings) (page : Text) : Text :=
  match cut? s.titleStart page with
  | none => page
  | some (before, block) =>
    match cut? s.titleEnd block with
    | none => page
    | some (_, after) => before ++ after

def hasTitle (s : StarterSettings) (layout : Text) : Bool :=
  (s.titleProbe != [] && Text.contains s.titleProbe layout) || Text.contains s.titleStart layout

def pageFor (s : StarterSettings) (layout page : Text) : Text :=
  if hasTitle s layout then withoutTitle s page else page

/-- A layout cut at the first place of a mark, which stays behind the cut; an empty mark has no
place. -/
def cutBefore? (layout marker : Text) : Option (Text × Text) :=
  if marker = [] then none
  else (cut? marker layout).map fun (before, after) => (before, marker ++ after)

theorem cutBefore?_eq_some {layout marker before after : Text}
    (h : cutBefore? layout marker = some (before, after)) :
    layout = before ++ after ∧ marker ≠ [] ∧ marker <+: after := by
  unfold cutBefore? at h
  split at h
  · cases h
  · next hne =>
    obtain ⟨m, hm, h⟩ := Option.map_eq_some_iff.1 h
    cases h
    exact ⟨by rw [cut?_append hm, List.append_assoc], hne, List.prefix_append _ _⟩

/-- The first of the marks that is in a layout, and the layout cut before it. -/
def firstMarker? (layout : Text) (markers : List Text) : Option (Text × Text × Text) :=
  markers.findSome? fun m => (cutBefore? layout m).map (m, ·)

/-- A page and a line break between two parts of a layout. -/
def between (before page after : Text) : Text := before ++ page ++ '\n' :: after

def insert (s : StarterSettings) (layout page : Text) : Text × Insertion :=
  match firstMarker? layout s.insertionMarkers with
  | some (m, before, after) => (between before page after, .container m)
  | none =>
    match cutBefore? layout s.bodyClose with
    | some (before, after) => (between before page after, .bodyClose)
    | none => (layout ++ '\n' :: page, .appended)

/-- A layout with a page in it, less a needless title block. -/
def splice (s : StarterSettings) (layout page : Text) : Text :=
  (insert s layout (pageFor s layout page)).1

end Pagefold.Starter
