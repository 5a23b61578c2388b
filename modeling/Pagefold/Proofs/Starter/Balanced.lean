import Pagefold.Proofs.Report.Tags
import Pagefold.Proofs.Starter.Insertion

/-!
# Tags of pages in layouts

A page in its layout is three texts put together, and a line break. The part of the layout in front
of the page may end in the middle of a tag, which the page could complete; where that part is shut,
the layout and the page that goes into it have their tags, and together they have no others.

* `Starter.tags_between`: a page between two parts of a layout;
* `Starter.tags_splice`: a page in its layout has the tags of both;
* `Starter.splice_balanced`: so a check finds nothing wrong with them, if it does not in the layout,
  and the page that goes in has none;
* `Starter.splice_joined_tag`: that the page had none before its title block was cut out is not enough.
-/

namespace Pagefold.Starter

open Text
open Report (tags IsTag isTag_of_mem tags_append seam_of_shut seam_break tags_cons_of_ne)

variable {s : StarterSettings} {tag layout before : Text}

theorem tags_between (htag : IsTag tag) (h : Shut before) (page u : Text) :
    tags tag (between before page ('<' :: u))
      = tags tag (before ++ '<' :: u) + tags tag page := by
  calc tags tag (between before page ('<' :: u))
      = tags tag (before ++ (page ++ '\n' :: '<' :: u)) := by rw [between, List.append_assoc]
    _ = tags tag before + (tags tag page + tags tag ('\n' :: '<' :: u)) := by
        rw [tags_append htag (seam_of_shut h _), tags_append htag (seam_break page u)]
    _ = tags tag before + tags tag ('<' :: u) + tags tag page := by
        rw [tags_cons_of_ne (by decide), add_comm (tags tag page), add_assoc]
    _ = tags tag (before ++ '<' :: u) + tags tag page := by
        rw [tags_append htag (seam_of_shut h _)]

/-- A page in its layout has the tags of the layout and those of the page that goes into it. -/
theorem tags_splice (hs : CutsAtTags s) (htag : IsTag tag) (h : Shut (front s layout))
    (page : Text) :
    tags tag (splice s layout page) = tags tag layout + tags tag (pageFor s layout page) := by
  rw [splice]
  rcases hs.insert_cases layout (pageFor s layout page) with ⟨u, hlayout, hinsert⟩ | ⟨hall, hinsert⟩
  · rw [hinsert, tags_between htag h, ← hlayout]
  · rw [hall] at h
    rw [hinsert, tags_append htag (seam_of_shut h _), tags_cons_of_ne (by decide)]

/-- Pages in layouts keep the tags of a document balanced. If a layout is shut in front of the place
of a page, the outcome has the openings and closings of each tag that the layout has and those that
the page has that goes in, without a title that the layout makes needless. So if the layout has one
of each and this page has none, a check tells of no tag. -/
theorem splice_balanced (layout page : Text) (h : Shut (front {} layout)) :
    (∀ tag ∈ Report.documentTags, tags tag (splice {} layout page)
      = tags tag layout + tags tag (pageFor {} layout page)) ∧
    ((∀ tag ∈ Report.documentTags,
        tags tag layout = (1, 1) ∧ tags tag (pageFor {} layout page) = (0, 0)) →
      ∀ (d : Disk) (roots : AssetRoots) (tag : Text) (opens closes : Nat),
        .tagCount tag opens closes ∉ (Report.check d roots (splice {} layout page)).findings) := by
  have hsum : ∀ tag ∈ Report.documentTags, tags tag (splice {} layout page)
      = tags tag layout + tags tag (pageFor {} layout page) :=
    fun tag htag => tags_splice (by decide) (isTag_of_mem htag) h page
  refine ⟨hsum, fun hone d roots tag opens closes hfinding => ?_⟩
  obtain ⟨htag, hcounts, hne⟩ := Report.tagCount_mem_check_iff.1 hfinding
  obtain ⟨hlayout, hpage⟩ := hone tag htag
  rw [hsum tag htag, hlayout, hpage] at hcounts
  exact hne hcounts.symm

theorem splice_balanced_of_titles :
    let layout := ("<html><head></head><body><!-- start page title --><div>\n"
      ++ "</div><!-- container --></body></html>").toList
    let page := "<!-- start page title --><h4>x</h4><!-- end page title --><p>y</p>".toList
    Shut (front {} layout) ∧
    (∀ tag ∈ Report.documentTags,
      tags tag layout = (1, 1) ∧ tags tag (pageFor {} layout page) = (0, 0)) ∧
    (∀ tag ∈ Report.documentTags, tags tag (splice {} layout page)
      = tags tag layout + tags tag (pageFor {} layout page)) ∧
    ∀ (d : Disk) (roots : AssetRoots) (tag : Text) (opens closes : Nat),
      .tagCount tag opens closes ∉ (Report.check d roots (splice {} layout page)).findings := by
  intro layout page
  have hfront : front {} layout
      = "<html><head></head><body><!-- start page title --><div".toList ++ ">\n".toList := rfl
  have hshut : Shut (front {} layout) :=
    .inr ⟨_, ['\n'], List.forall_mem_singleton.2 rfl, hfront⟩
  have hone : ∀ tag ∈ Report.documentTags,
      tags tag layout = (1, 1) ∧ tags tag (pageFor {} layout page) = (0, 0) := by
    simp only [Report.documentTags, List.forall_mem_cons]
    exact ⟨⟨rfl, rfl⟩, ⟨rfl, rfl⟩, ⟨rfl, rfl⟩, by simp⟩
  obtain ⟨hsum, hnone⟩ := splice_balanced layout page hshut
  exact ⟨hshut, hone, hsum, hnone hone⟩

/-- The page itself may have none of the tags and its title block may keep apart what makes one. -/
theorem splice_joined_tag :
    let layout := ("<html><head></head><body><!-- start page title -->T<!-- end page title -->"
      ++ "</body></html>").toList
    let page := "<ht<!-- start page title -->x<!-- end page title -->ml>".toList
    Shut (front {} layout) ∧
    (∀ tag ∈ Report.documentTags, tags tag layout = (1, 1) ∧ tags tag page = (0, 0)) ∧
    tags "html".toList (splice {} layout page) = (2, 1) ∧
    ∀ (d : Disk) (roots : AssetRoots),
      .tagCount "html".toList 2 1 ∈ (Report.check d roots (splice {} layout page)).findings := by
  intro layout page
  have hfront : front {} layout
      = "<html><head></head><body><!-- start page title -->T<!-- end page title --".toList
        ++ ">".toList := rfl
  have hshut : Shut (front {} layout) := .inr ⟨_, [], List.forall_mem_nil _, hfront⟩
  have hone : ∀ tag ∈ Report.documentTags, tags tag layout = (1, 1) ∧ tags tag page = (0, 0) := by
    simp only [Report.documentTags, List.forall_mem_cons]
    exact ⟨⟨rfl, rfl⟩, ⟨rfl, rfl⟩, ⟨rfl, rfl⟩, by simp⟩
  have htag : "html".toList ∈ Report.documentTags := List.mem_cons_self
  -- Without its title block, the page is an opening of the tag.
  have hpage : pageFor {} layout page = "<html>".toList := rfl
  have hcounts : tags "html".toList (splice {} layout page) = (2, 1) := by
    rw [tags_splice (by decide) (isTag_of_mem htag) hshut, (hone _ htag).1, hpage]
    rfl
  refine ⟨hshut, hone, hcounts, ?_⟩
  intro d roots
  exact Report.tagCount_mem_check_iff.2 ⟨htag, hcounts, by decide⟩

/-- A layout that is not shut there, in front of what completes a tag. -/
example : splice {} "<</body>".toList "html".toList = "<html\n</body>".toList ∧
    tags "html".toList "<html\n</body>".toList = (1, 0) := ⟨rfl, rfl⟩

end Pagefold.Starter
