import Pagefold.Diagnostic
import Pagefold.Proofs.Context.Placeholder
import Pagefold.Proofs.Reference.Redirect
import Pagefold.Proofs.Starter.Insertion
import Pagefold.Proofs.Text.Places

/-!
# The marks of missing files

A mark starts with `<`, which does not come again in it, and nothing that is replaced on the way to
a finished document starts in a mark or has a `<` in it.

* `Diagnostic.marks`, `Diagnostic.length_hits_mark`: how many marks a text has;
* `Context.marks_substitute`: values that are put in place take no mark away;
* `Starter.marks_splice`: a page in its layout has the marks of both;
* `Reference.marks_redirect`, `Token.marks_strip`: nor do changed references and removed tokens take
  one away.
-/

namespace Pagefold

open Text

namespace Diagnostic

/-- What follows the first character of a mark. -/
def markTail : Text := "!-- include not found:".toList

def marks (t : Text) : Nat := places missingMark t

theorem length_hits_mark (t : Text) : ((Pattern.literal missingMark).hits t).length = marks t :=
  length_hits_literal (unbordered_of_not_mem (c := '<') (m := markTail) (by decide)) (by decide) t

theorem marks_append_le (s t : Text) : marks s + marks t ≤ marks (s ++ t) :=
  places_append_le missingMark s t

theorem one_le_marks_markFor (path : Text) : 1 ≤ marks (markFor path) :=
  Nat.lt_of_le_of_lt (Nat.zero_le _) (places_lt (by decide) _)

theorem marks_cut (s t : Text) : marks (s ++ '<' :: t) = marks s + marks ('<' :: t) :=
  places_cut (m := markTail) (by decide) s t

end Diagnostic

open Diagnostic (marks markTail)

variable {α : Type} {p : Pattern α} {f : α → Text} {t : Text}

theorem marks_replace (h : p.Spares '<' markTail) (t : Text) : marks t ≤ marks (p.replace f t) :=
  h.places_le t

/-- What starts with a marker of tokens and goes on with a name lies apart from marks. -/
theorem spares_of_marked (h : ∀ s v r, p.read? (s ++ r) = some (v, r) →
    ∃ n, Token.IsRun n ∧ s = Context.marker ++ n) : p.Spares '<' markTail := by
  refine .of_keywords [Context.marker] (by decide) fun s v r hr => ?_
  obtain ⟨n, hn, rfl⟩ := h s v r hr
  have hname : '<' ∉ n := fun hmem => absurd (Token.isRun_iff.1 hn '<' hmem) (by decide)
  exact ⟨List.not_mem_append (by decide) hname, Context.marker, List.mem_singleton_self _,
    List.prefix_append _ _⟩

/-! ## Contexts -/

namespace Context

variable {context : Context} {k : Text} {ks : List Text}

/-- What was passed with a marker and a key behind it. -/
theorem source_eq {s r u : Text} (hu : dropPrefix? marker (s ++ r) = some u)
    (hk : dropPrefix? k u = some r) : s = marker ++ k := by
  rw [dropPrefix?_eq_some_iff] at hu hk
  rw [hk, ← List.append_assoc] at hu
  exact List.append_cancel_right hu

theorem spares_placeholder (hks : ∀ k ∈ ks, Token.IsRun k) :
    (placeholder ks).Spares '<' markTail := by
  refine spares_of_marked fun s k r hr => ?_
  rw [placeholder_read?_eq, Option.bind_eq_some_iff] at hr
  obtain ⟨u, hu, hkey⟩ := hr
  obtain ⟨n, hn, hread⟩ := List.exists_of_findSome?_eq_some hkey
  obtain ⟨r', hr', heq⟩ := Option.map_eq_some_iff.1 hread
  cases heq
  exact ⟨k, hks k hn, source_eq hu hr'⟩

theorem spares_literal (hk : Token.IsRun k) :
    (Pattern.literal (marker ++ k)).Spares '<' markTail := by
  refine spares_of_marked fun s v r hr => ⟨k, hk, ?_⟩
  exact List.append_cancel_right (text_eq_of_literal_read? hr)

theorem marks_foldl_supply (hks : ∀ k ∈ ks, Token.IsRun k) (t : Text) :
    marks t ≤ marks (ks.foldl context.supply t) := by
  induction ks generalizing t with
  | nil => exact Nat.le_refl _
  | cons k ks ih =>
    rw [List.forall_mem_cons] at hks
    calc marks t
        ≤ marks (context.supply t k) := marks_replace (spares_literal hks.1) t
      _ ≤ marks (ks.foldl context.supply (context.supply t k)) := ih hks.2 _

/-- Values in the places of names take no mark away. -/
theorem marks_substitute [Matcher] (h : context.Plain) (t : Text) :
    marks t ≤ marks (context.substitute t) := by
  rw [substitute_eq]
  split
  · rw [inTurn_eq]
    exact marks_foldl_supply (fun k hk => h.isRun hk) t
  · exact marks_replace (spares_placeholder fun k hk => h.isRun hk) t

end Context

/-! ## Layouts -/

namespace Starter

variable {s : StarterSettings} {layout : Text}

theorem marks_between (before page u : Text) :
    marks (before ++ '<' :: u) + marks page ≤ marks (between before page ('<' :: u)) := by
  have hpage := Diagnostic.marks_append_le before page
  have hbreak := Diagnostic.marks_append_le (before ++ page) ['\n']
  have hparts : between before page ('<' :: u) = (before ++ page ++ ['\n']) ++ '<' :: u := by
    simp [between]
  rw [hparts, Diagnostic.marks_cut, Diagnostic.marks_cut]
  omega

/-- A page in its layout has the marks of both, if no title is left out. -/
theorem marks_splice (hs : CutsAtTags s) (htitle : hasTitle s layout = false) (page : Text) :
    marks layout + marks page ≤ marks (splice s layout page) := by
  have hpage : pageFor s layout page = page := by rw [pageFor, htitle]; rfl
  rw [splice, hpage]
  rcases hs.insert_cases layout page with ⟨u, hlayout, hinsert⟩ | ⟨-, hinsert⟩
  · rw [hinsert, congrArg marks hlayout]
    exact marks_between _ page u
  · have hlayout := Diagnostic.marks_append_le layout ('\n' :: page)
    have hbreak := Diagnostic.marks_append_le ['\n'] page
    rw [List.singleton_append] at hbreak
    rw [hinsert]
    omega

end Starter

/-! ## References and tokens -/

namespace Reference

variable {dir kw o : Text}

theorem not_mem_of_opening {o' : Text} (h : Opening kw o o') : '<' ∉ o := by
  intro hmem
  rcases h.mem hmem with hc | hc | hc
  all_goals exact absurd hc (by decide)

theorem IsFolderName.not_mem (h : IsFolderName dir) : '<' ∉ dir ++ ['/'] :=
  List.not_mem_append (fun hmem => absurd (h.named '<' hmem) (by decide)) (by decide)

/-- What starts with a keyword and goes on with an opening and a folder lies apart from marks. -/
theorem spares_of_start (hdir : IsFolderName dir) (kws : List Text)
    (hkws : ∀ kw ∈ kws, '<' ∉ kw ∧ ∀ u ∈ markTail.tails, u ≠ [] → ¬ kw <+: u ∧ ¬ u <+: kw)
    (h : ∀ s v r, p.read? (s ++ r) = some (v, r) →
      ∃ kw ∈ kws, ∃ o o', Opening kw o o' ∧ s = kw ++ o ++ (dir ++ ['/'])) :
    p.Spares '<' markTail := by
  refine .of_keywords kws (fun kw hkw => (hkws kw hkw).2) fun s v r hr => ?_
  obtain ⟨kw, hkw, o, o', hop, rfl⟩ := h s v r hr
  have hlead : '<' ∉ kw ++ o := List.not_mem_append (hkws kw hkw).1 (not_mem_of_opening hop)
  exact ⟨List.not_mem_append hlead hdir.not_mem, kw, hkw,
    (List.prefix_append kw o).trans (List.prefix_append _ _)⟩

theorem spares_attributeStart (hdir : IsFolderName dir) :
    (attributeStart dir).Spares '<' markTail := by
  refine spares_of_start hdir attributes (by decide) fun s v r hr => ?_
  obtain ⟨kw, hkw, o, hop, hs, -⟩ := attributeStart?_eq_some_iff.1 hr
  exact ⟨kw, hkw, o, _, hop, List.append_cancel_right hs⟩

theorem spares_urlStart (hdir : IsFolderName dir) : (urlStart dir).Spares '<' markTail := by
  refine spares_of_start hdir ["url(".toList] (by decide) fun s v r hr => ?_
  obtain ⟨o, hop, hs⟩ := (urlStart?_eq_some_iff hdir).1 hr
  exact ⟨"url(".toList, List.mem_singleton_self _, o, _, hop, List.append_cancel_right hs⟩

/-- References that start differently take no mark away. -/
theorem marks_redirect (hdir : IsFolderName dir) (start t : Text) :
    marks t ≤ marks (redirect dir start t) := by
  simp only [redirect, folderName_eq hdir]
  exact Nat.le_trans (marks_replace (spares_attributeStart hdir) t)
    (marks_replace (spares_urlStart hdir) _)

end Reference

theorem Token.marks_strip (t : Text) : marks t ≤ marks (Token.strip t).1 := by
  refine marks_replace (spares_of_marked fun s v r hr => ?_) t
  obtain ⟨n, -, hn, -, hs, -⟩ := Token.exists_name_of_read? hr
  exact ⟨n, hn, List.append_cancel_right hs⟩

end Pagefold
