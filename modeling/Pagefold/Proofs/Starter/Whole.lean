import Pagefold.Proofs.Starter.Spliced

/-!
# Pages that go into layouts whole

A page is whole in its layout if nothing of it is gone: the layout is cut at one place, and the page
stands there with a line break. A layout takes whatever goes in as it is, so all that a page can
lose is the title block that its layout makes needless.

* `Starter.Whole`: a layout with all of a page in it;
* `Starter.whole_insert`, `Starter.splice_whole_iff`: a page is whole in its layout exactly if it
  goes in with nothing gone;
* `Starter.hasTitle_iff_blank`, `Starter.trimmed_self_iff`: when it does, for a layout that no mark
  of a title is in;
* `Starter.splice_untitled`: the outcome for such a layout, with any of the marks empty.

An empty mark is looked for in different ways. As a probe of a title, as a mark for the place of a
page and as the end of a body it stands nowhere. As the start of a title block it stands in every
layout and at the front of every page, and then the first end of a block takes all in front of it
along.
-/

namespace Pagefold.Starter

open Text

variable {s : StarterSettings} {layout page page' out before after title rest : Text}

/-! ## Whole pages -/

/-- A text is a layout with a page in it: the layout is cut at one place, and the page and a line
break stand there, or the page stands behind the layout and a line break. -/
def Whole (layout page out : Text) : Prop :=
  (∃ before after, layout = before ++ after ∧ out = before ++ page ++ '\n' :: after) ∨
    out = layout ++ '\n' :: page

theorem Whole.length_eq (h : Whole layout page out) :
    out.length = layout.length + page.length + 1 := by
  obtain ⟨before, after, rfl, rfl⟩ | rfl := h
  · simp only [List.length_append, List.length_cons]
    omega
  · rw [List.length_append, List.length_cons]
    rfl

theorem Placed.whole (h : Placed s layout page out) : Whole layout page out := by
  cases h with
  | marker _ _ _ hcut =>
    refine .inl ⟨_, _, ?_, rfl⟩
    rw [hcut.text_eq, List.append_assoc]
  | bodyClose _ _ hcut =>
    refine .inl ⟨_, _, ?_, rfl⟩
    rw [hcut.text_eq, List.append_assoc]
  | appended => exact .inr rfl

theorem whole_insert (s : StarterSettings) (layout page : Text) :
    Whole layout page (insert s layout page).1 :=
  (insert_eq_iff.1 rfl).whole

theorem Trimmed.sublist (h : Trimmed s layout page page') : page'.Sublist page := by
  cases h with
  | untitled => exact List.Sublist.refl page
  | unblocked => exact List.Sublist.refl page
  | cut _ hblock =>
    obtain ⟨block, title, hstart, hend⟩ := hblock
    rw [hstart.text_eq, hend.text_eq, List.append_assoc]
    refine List.Sublist.append (List.Sublist.refl _) ?_
    exact ((List.suffix_append _ _).trans (List.suffix_append _ _)).sublist

/-- A page is whole in its layout exactly if it goes in with nothing gone. -/
theorem splice_whole_iff :
    Whole layout page (splice s layout page) ↔ Trimmed s layout page page := by
  rw [← pageFor_eq_iff]
  constructor
  · intro h
    have htrimmed : Trimmed s layout page (pageFor s layout page) := pageFor_eq_iff.1 rfl
    refine htrimmed.sublist.eq_of_length ?_
    -- Both the page and what goes in make up for the length of the outcome.
    have hpage := h.length_eq
    have hin := (whole_insert s layout (pageFor s layout page)).length_eq
    rw [splice] at hpage
    omega
  · intro h
    rw [splice, h]
    exact whole_insert s layout page

/-! ## Layouts without a mark of a title -/

section Untitled

variable (hprobe : s.titleProbe = [] ∨ ¬ s.titleProbe <:+: layout)
  (hstart : s.titleStart = [] ∨ ¬ s.titleStart <:+: layout)

include hprobe hstart

/-- A layout without any mark of a title has one nevertheless, if a title block starts with
nothing. -/
theorem hasTitle_iff_blank : HasTitle s layout ↔ s.titleStart = [] := by
  constructor
  · rintro (⟨hne, hin⟩ | hin)
    · exact absurd hin (hprobe.resolve_left hne)
    · exact hstart.resolve_right (not_not_intro hin)
  · intro hblank
    refine .inr ?_
    rw [hblank]
    exact List.nil_infix

omit hprobe hstart in
/-- A title block that starts with nothing is all of a page up to its first end. -/
theorem titleBlock_iff_of_blank (hblank : s.titleStart = []) :
    TitleBlock s page before after ↔ before = [] ∧ ∃ title, CutAt s.titleEnd page title after := by
  have hfront : CutAt s.titleStart page [] page := by
    rw [hblank]
    exact CutAt.front [] page
  constructor
  · rintro ⟨block, title, hcut, hend⟩
    obtain ⟨rfl, rfl⟩ := hcut.unique hfront
    exact ⟨rfl, title, hend⟩
  · rintro ⟨rfl, title, hend⟩
    exact ⟨page, title, hfront, hend⟩

/-- Behind a title block that starts with nothing is all that goes in. -/
theorem trimmed_rest (hblank : s.titleStart = []) (hcut : CutAt s.titleEnd page title rest) :
    Trimmed s layout page rest :=
  .cut ((hasTitle_iff_blank hprobe hstart).2 hblank)
    ((titleBlock_iff_of_blank hblank).2 ⟨rfl, title, hcut⟩)

/-- Nothing of a page is gone, unless a title block starts with nothing and has an end in the
page. -/
theorem trimmed_self_iff : Trimmed s layout page page ↔
    ¬ (s.titleStart = [] ∧ s.titleEnd ≠ [] ∧ s.titleEnd <:+: page) := by
  constructor
  · rintro htrimmed ⟨hblank, hne, hin⟩
    obtain ⟨title, rest, hcut⟩ := exists_cutAt hin
    have hrest : rest = page := by
      rw [← pageFor_eq_iff.2 (trimmed_rest hprobe hstart hblank hcut), pageFor_eq_iff.2 htrimmed]
    have hlength := congrArg List.length hcut.text_eq
    rw [hrest, List.length_append, List.length_append] at hlength
    exact hne (List.length_eq_zero_iff.1 (by omega))
  · intro h
    by_cases hblank : s.titleStart = []
    · by_cases hend : s.titleEnd = []
      · -- The title block is empty, and the page without it is the page.
        have hcut : CutAt s.titleEnd page [] page := by
          rw [hend]
          exact CutAt.front [] page
        exact trimmed_rest hprobe hstart hblank hcut
      · refine .unblocked ?_
        rintro ⟨before, after, hblock⟩
        obtain ⟨-, title, hcut⟩ := (titleBlock_iff_of_blank hblank).1 hblock
        exact h ⟨hblank, hend, hcut.infix⟩
    · exact .untitled fun htitle => hblank ((hasTitle_iff_blank hprobe hstart).1 htitle)

end Untitled

/-- A layout without any mark of a title has a page whole, whichever marks are empty, unless a title
block starts with nothing and has an end in the page. Then what stands behind the first end is there
whole, and nothing else of the page. -/
theorem splice_untitled (s : StarterSettings) (layout page : Text)
    (hprobe : s.titleProbe = [] ∨ ¬ s.titleProbe <:+: layout)
    (hstart : s.titleStart = [] ∨ ¬ s.titleStart <:+: layout) :
    (Whole layout page (splice s layout page) ↔
      ¬ (s.titleStart = [] ∧ s.titleEnd ≠ [] ∧ s.titleEnd <:+: page)) ∧
    ∀ title rest, s.titleStart = [] → CutAt s.titleEnd page title rest →
      Whole layout rest (splice s layout page) := by
  refine ⟨splice_whole_iff.trans (trimmed_self_iff hprobe hstart), fun title rest hblank hcut => ?_⟩
  rw [splice, pageFor_eq_iff.2 (trimmed_rest hprobe hstart hblank hcut)]
  exact whole_insert s layout rest

/-- All marks are empty but the end of a title block, which is in the second page only. -/
theorem splice_untitled_of_blank :
    let s : StarterSettings :=
      { insertionMarkers := [[]], bodyClose := [], titleProbe := [], titleStart := [] }
    let layout := "<html>".toList
    let kept := "<p>a</p>".toList
    let eaten := "<p>a</p><!-- end page title --><p>b</p>".toList
    (s.titleProbe = [] ∨ ¬ s.titleProbe <:+: layout) ∧
    (s.titleStart = [] ∨ ¬ s.titleStart <:+: layout) ∧
    Whole layout kept (splice s layout kept) ∧
    ¬ Whole layout eaten (splice s layout eaten) ∧
    Whole layout "<p>b</p>".toList (splice s layout eaten) := by
  intro s layout kept eaten
  have hprobe : s.titleProbe = [] ∨ ¬ s.titleProbe <:+: layout := .inl rfl
  have hstart : s.titleStart = [] ∨ ¬ s.titleStart <:+: layout := .inl rfl
  have hcut : CutAt s.titleEnd eaten "<p>a</p>".toList "<p>b</p>".toList :=
    cut?_eq_some_iff.1 rfl
  obtain ⟨hkept, -⟩ := splice_untitled s layout kept hprobe hstart
  obtain ⟨heaten, hrest⟩ := splice_untitled s layout eaten hprobe hstart
  have hnone : ¬ s.titleEnd <:+: kept := cut?_eq_none_iff.1 rfl
  have hend : s.titleEnd ≠ [] := by decide
  exact ⟨hprobe, hstart, hkept.2 fun h => hnone h.2.2,
    fun hwhole => heaten.1 hwhole ⟨rfl, hend, hcut.infix⟩, hrest _ _ rfl hcut⟩

/-- The layout has neither the probe nor the start of a title block, and the front of the page is
gone. -/
theorem front_of_page_lost :
    let s : StarterSettings := { titleStart := [] }
    let page := "a<!-- end page title -->b".toList
    ¬ (s.titleProbe ≠ [] ∧ s.titleProbe <:+: ['L']) ∧
    ¬ (s.titleStart ≠ [] ∧ s.titleStart <:+: ['L']) ∧
    splice s ['L'] page = "L\nb".toList ∧ ¬ Whole ['L'] page (splice s ['L'] page) := by
  intro s page
  have hsplice : splice s ['L'] page = "L\nb".toList := rfl
  refine ⟨by decide, by decide, hsplice, fun hwhole => ?_⟩
  have hlength := hwhole.length_eq
  rw [hsplice] at hlength
  exact absurd hlength (by decide)

end Pagefold.Starter
