import Pagefold.Proofs.Text.First
import Pagefold.Starter.Splice

/-!
# Pages in layouts, by their parts

What a page in its layout is made of, said without the searches: the layout is cut at one place, the
page stands there with a line break behind it, and nothing but one title block of the page is gone.

* `Starter.HasTitle`, `Starter.TitleBlock`, `Starter.Trimmed`: the page that goes into a layout;
* `Starter.Placed`: the place where it goes;
* `Starter.pageFor_eq_iff`, `Starter.insert_eq_iff`: the page and the place are found;
* `Starter.splice_eq_iff`: a page in its layout is exactly that.

Marks may be any texts: they may overlap, stand in each other, or stand nowhere.
-/

namespace Pagefold.Starter

open Text

variable {s : StarterSettings} {layout page page' out marker before after : Text}

/-! ## What a page in its layout is -/

/-- A layout has a title: there is a probe and the probe stands in it, or a title block starts
there. -/
def HasTitle (s : StarterSettings) (layout : Text) : Prop :=
  (s.titleProbe ≠ [] ∧ s.titleProbe <:+: layout) ∨ s.titleStart <:+: layout

/-- A page falls into the text before its first title block, the block, and the text after it. The
block runs from the first start of a block to the first end behind that. -/
def TitleBlock (s : StarterSettings) (page before after : Text) : Prop :=
  ∃ block title, CutAt s.titleStart page before block ∧ CutAt s.titleEnd block title after

inductive Trimmed (s : StarterSettings) (layout page : Text) : Text → Prop where
  /-- The layout has no title. -/
  | untitled (h : ¬ HasTitle s layout) : Trimmed s layout page page
  /-- The page has no title block. -/
  | unblocked (h : ¬ ∃ before after, TitleBlock s page before after) : Trimmed s layout page page
  /-- The layout has a title, so the first title block of the page goes. -/
  | cut {before after : Text} (h : HasTitle s layout) (hblock : TitleBlock s page before after) :
    Trimmed s layout page (before ++ after)

/-- A mark is not empty and stands in a layout. -/
def IsMarkOf (layout marker : Text) : Prop := marker ≠ [] ∧ marker <:+: layout

inductive Placed (s : StarterSettings) (layout page : Text) : Text → Prop where
  /-- The page goes before the first place of a mark, and no mark in front of that one is in the
  layout. -/
  | marker {early later : List Text} {m before after : Text}
      (hmarkers : s.insertionMarkers = early ++ m :: later)
      (hearly : ∀ k ∈ early, ¬ IsMarkOf layout k) (hne : m ≠ [])
      (hcut : CutAt m layout before after) :
    Placed s layout page (before ++ page ++ '\n' :: (m ++ after))
  /-- No mark is in the layout, and the page goes before the first end of its body. -/
  | bodyClose {before after : Text} (hmarkers : ∀ k ∈ s.insertionMarkers, ¬ IsMarkOf layout k)
      (hne : s.bodyClose ≠ []) (hcut : CutAt s.bodyClose layout before after) :
    Placed s layout page (before ++ page ++ '\n' :: (s.bodyClose ++ after))
  /-- There is no end of the body either, and the page goes behind the layout. -/
  | appended (hmarkers : ∀ k ∈ s.insertionMarkers, ¬ IsMarkOf layout k)
      (hbody : ¬ IsMarkOf layout s.bodyClose) :
    Placed s layout page (layout ++ '\n' :: page)

/-! ## The page -/

theorem hasTitle_iff : hasTitle s layout = true ↔ HasTitle s layout := by
  rw [hasTitle, Bool.or_eq_true, Bool.and_eq_true, bne_iff_ne, contains_iff, contains_iff]
  rfl

theorem withoutTitle_eq (hblock : TitleBlock s page before after) :
    withoutTitle s page = before ++ after := by
  obtain ⟨block, title, hstart, hend⟩ := hblock
  simp only [withoutTitle, cut?_eq_some_iff.2 hstart, cut?_eq_some_iff.2 hend]

theorem withoutTitle_cases (s : StarterSettings) (page : Text) :
    (∃ before after, TitleBlock s page before after ∧ withoutTitle s page = before ++ after) ∨
    ((¬ ∃ before after, TitleBlock s page before after) ∧ withoutTitle s page = page) := by
  cases hstart : cut? s.titleStart page with
  | none =>
    refine .inr ⟨?_, ?_⟩
    · rintro ⟨before, after, block, title, hcut, -⟩
      exact cut?_eq_none_iff.1 hstart hcut.infix
    · rw [withoutTitle, hstart]
  | some parts =>
    obtain ⟨before, block⟩ := parts
    cases hend : cut? s.titleEnd block with
    | none =>
      refine .inr ⟨?_, ?_⟩
      · rintro ⟨before', after, block', title, hcut, hcut'⟩
        -- There is one first start, and behind it no end.
        obtain ⟨-, rfl⟩ := hcut.unique (cut?_eq_some_iff.1 hstart)
        exact cut?_eq_none_iff.1 hend hcut'.infix
      · simp only [withoutTitle, hstart, hend]
    | some parts =>
      obtain ⟨title, after⟩ := parts
      refine .inl ⟨before, after, ⟨block, title, ?_, ?_⟩, ?_⟩
      · exact cut?_eq_some_iff.1 hstart
      · exact cut?_eq_some_iff.1 hend
      · simp only [withoutTitle, hstart, hend]

/-- The page that goes into a layout is found. -/
theorem pageFor_eq_iff : pageFor s layout page = page' ↔ Trimmed s layout page page' := by
  constructor
  · rintro rfl
    unfold pageFor
    split
    · next htitle =>
      rcases withoutTitle_cases s page with ⟨before, after, hblock, heq⟩ | ⟨hnone, heq⟩
      · rw [heq]
        exact .cut (hasTitle_iff.1 htitle) hblock
      · rw [heq]
        exact .unblocked hnone
    · next htitle => exact .untitled fun h => htitle (hasTitle_iff.2 h)
  · intro h
    cases h with
    | untitled h => rw [pageFor, if_neg fun htitle => h (hasTitle_iff.1 htitle)]
    | unblocked h =>
      rcases withoutTitle_cases s page with ⟨before, after, hblock, -⟩ | ⟨-, heq⟩
      · exact absurd ⟨before, after, hblock⟩ h
      · rw [pageFor, heq, ite_self]
    | cut h hblock => rw [pageFor, if_pos (hasTitle_iff.2 h), withoutTitle_eq hblock]

/-! ## The place -/

theorem cutBefore?_eq_some_iff : cutBefore? layout marker = some (before, after) ↔
    ∃ rest, marker ≠ [] ∧ CutAt marker layout before rest ∧ after = marker ++ rest := by
  unfold cutBefore?
  split
  · next hnil => exact iff_of_false nofun fun ⟨_, hne, _⟩ => hne hnil
  · next hne =>
    rw [Option.map_eq_some_iff]
    constructor
    · rintro ⟨⟨before, rest⟩, hcut, heq⟩
      cases heq
      exact ⟨rest, hne, cut?_eq_some_iff.1 hcut, rfl⟩
    · rintro ⟨rest, -, hcut, rfl⟩
      exact ⟨(before, rest), cut?_eq_some_iff.2 hcut, rfl⟩

theorem cutBefore?_eq_none_iff : cutBefore? layout marker = none ↔ ¬ IsMarkOf layout marker := by
  unfold cutBefore? IsMarkOf
  split
  · next hnil => exact iff_of_true rfl fun h => h.1 hnil
  · next hne =>
    rw [Option.map_eq_none_iff, cut?_eq_none_iff]
    exact ⟨fun h hmark => h hmark.2, fun h hin => h ⟨hne, hin⟩⟩

theorem firstMarker?_eq_none_iff {markers : List Text} :
    firstMarker? layout markers = none ↔ ∀ k ∈ markers, ¬ IsMarkOf layout k := by
  rw [firstMarker?, List.findSome?_eq_none_iff]
  simp only [Option.map_eq_none_iff, cutBefore?_eq_none_iff]

theorem firstMarker?_eq_some_iff {markers : List Text} {m : Text} :
    firstMarker? layout markers = some (m, before, after) ↔
      ∃ early later, markers = early ++ m :: later ∧ (∀ k ∈ early, ¬ IsMarkOf layout k) ∧
        cutBefore? layout m = some (before, after) := by
  rw [firstMarker?, List.findSome?_eq_some_iff]
  simp only [Option.map_eq_none_iff, cutBefore?_eq_none_iff, Option.map_eq_some_iff, Prod.mk.injEq]
  constructor
  · rintro ⟨early, k, later, hmarkers, ⟨parts, hparts, rfl, rfl⟩, hearly⟩
    exact ⟨early, later, hmarkers, hearly, hparts⟩
  · rintro ⟨early, later, hmarkers, hearly, hparts⟩
    exact ⟨early, m, later, hmarkers, ⟨_, hparts, rfl, rfl⟩, hearly⟩

/-- The place of a page in its layout is found. -/
theorem insert_eq_iff : (insert s layout page).1 = out ↔ Placed s layout page out := by
  constructor
  · rintro rfl
    unfold insert
    cases hmarker : firstMarker? layout s.insertionMarkers with
    | some cut =>
      obtain ⟨m, before, after⟩ := cut
      obtain ⟨early, later, hmarkers, hearly, hparts⟩ := firstMarker?_eq_some_iff.1 hmarker
      obtain ⟨rest, hne, hcut, rfl⟩ := cutBefore?_eq_some_iff.1 hparts
      exact .marker hmarkers hearly hne hcut
    | none =>
      rw [firstMarker?_eq_none_iff] at hmarker
      cases hbody : cutBefore? layout s.bodyClose with
      | some parts =>
        obtain ⟨before, after⟩ := parts
        obtain ⟨rest, hne, hcut, rfl⟩ := cutBefore?_eq_some_iff.1 hbody
        exact .bodyClose hmarker hne hcut
      | none => exact .appended hmarker (cutBefore?_eq_none_iff.1 hbody)
  · intro h
    cases h with
    | marker hmarkers hearly hne hcut =>
      have hparts := cutBefore?_eq_some_iff.2 ⟨_, hne, hcut, rfl⟩
      rw [insert, firstMarker?_eq_some_iff.2 ⟨_, _, hmarkers, hearly, hparts⟩]
      rfl
    | bodyClose hmarkers hne hcut =>
      have hparts := cutBefore?_eq_some_iff.2 ⟨_, hne, hcut, rfl⟩
      rw [insert, firstMarker?_eq_none_iff.2 hmarkers, hparts]
      rfl
    | appended hmarkers hbody =>
      rw [insert, firstMarker?_eq_none_iff.2 hmarkers, cutBefore?_eq_none_iff.2 hbody]

/-- A page in its layout is the layout with the page and a line break at one place, where the page
has lost its first title block if the layout has a title, and nothing else. -/
theorem splice_eq_iff (s : StarterSettings) (layout page out : Text) :
    splice s layout page = out ↔
      ∃ page', Trimmed s layout page page' ∧ Placed s layout page' out := by
  rw [splice, insert_eq_iff]
  constructor
  · exact fun h => ⟨_, pageFor_eq_iff.1 rfl, h⟩
  · rintro ⟨page', hpage, hplace⟩
    rwa [pageFor_eq_iff.2 hpage]

/-- The end of a title block stands in its start, and a second block stays. -/
example : splice { titleStart := ['<', '>'], titleEnd := ['>'], insertionMarkers := [['#']] }
    "a<>b#".toList "1<>2>3<>4>".toList = "a<>b13<>4>\n#".toList := rfl

end Pagefold.Starter
