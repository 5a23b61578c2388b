import Mathlib.Algebra.Group.Prod
import Pagefold.Proofs.Text.Fold
import Pagefold.Proofs.Text.Matches
import Pagefold.Report

/-!
# The tags of two texts put together

Openings and closings are counted by patterns, so two texts put together could have more of them, or
fewer: one that starts in the first text could go on in the second, and the name of a tag at the end
of the first could turn into a longer word. Neither happens where a `>` shuts the first text, nor
where a line break and a `<` follow it.

* `Text.Shut`: what is not blank in a text ends with a `>`;
* `Report.tags`: how many openings and closings of a tag a text has;
* `Report.Seam`, `Report.tags_append`: two texts that have the tags of both together;
* `Report.tagCount_mem_check_iff`: what a check finds wrong with tags.
-/

namespace Pagefold

namespace Text

/-- A text is blank, or its last character that is not blank is a `>`. -/
def Shut (a : Text) : Prop := Blanks a ∨ ∃ x w, Blanks w ∧ a = x ++ '>' :: w

end Text

namespace Report

open Text

variable {tag a r t u y : Text} {c : Char}

/-! ## Counts -/

def tags (tag t : Text) : Nat × Nat :=
  (((openTag tag).hits t).length, ((closeTag tag).hits t).length)

/-- A name of a tag: not empty, and without a `<`, a `>` or a line break in it. -/
structure IsTag (tag : Text) : Prop where
  ne_nil : tag ≠ []
  open_not_mem : '<' ∉ tag
  close_not_mem : '>' ∉ tag
  break_not_mem : '\n' ∉ tag

theorem isTag_of_mem (h : tag ∈ documentTags) : IsTag tag := by
  have hall : ∀ tag ∈ documentTags, tag ≠ [] ∧ '<' ∉ tag ∧ '>' ∉ tag ∧ '\n' ∉ tag := by
    simp [documentTags]
  obtain ⟨hne, hopen, hclose, hbreak⟩ := hall tag h
  exact ⟨hne, hopen, hclose, hbreak⟩

/-! ## Nothing goes on behind a seam -/

/-- What is read off the front of `y` does not go on in `u`: there is a `>` in `y`, or a line break
and a `<` open `u`. -/
def Apart (y u : Text) : Prop := '>' ∈ y ∨ ∃ b, u = '\n' :: '<' :: b

namespace Apart

/-- Blanks end in front of the seam, or the `<` behind it ends them. -/
theorem skipBlanks (h : Apart y u) :
    (∃ c z, Text.skipBlanks y = c :: z ∧ Text.skipBlanks (y ++ u) = c :: (z ++ u) ∧
      Apart (c :: z) u) ∨
    (Text.skipBlanks y = [] ∧ ∃ b, Text.skipBlanks (y ++ u) = '<' :: b) := by
  obtain ⟨w, hw, hy⟩ := exists_blanks y
  cases hskip : Text.skipBlanks y with
  | nil =>
    rw [hskip, List.append_nil] at hy
    obtain ⟨b, rfl⟩ := h.resolve_left (hy ▸ hw.not_mem (by decide))
    have hblanks : Blanks (w ++ ['\n']) :=
      List.forall_mem_append.2 ⟨hw, List.forall_mem_singleton.2 rfl⟩
    exact .inr ⟨rfl, b, (skipBlanks_eq_cons_iff (by decide)).2 ⟨_, hblanks, by simp [hy]⟩⟩
  | cons c z =>
    have hne : Text.skipBlanks y ≠ [] := by simp [hskip]
    refine .inl ⟨c, z, rfl, by rw [skipBlanks_append_of_ne_nil hne, hskip, List.cons_append], ?_⟩
    rw [← hskip]
    exact h.imp_left (mem_skipBlanks (by decide))

theorem tagName?_append (htag : IsTag tag) (h : Apart y u) :
    tagName? tag (y ++ u) = (tagName? tag y).map (· ++ u) := by
  rw [tagName?, tagName?]
  rcases h.skipBlanks with ⟨c, z, hz, hzu, hapart⟩ | ⟨hz, b, hb⟩
  · rw [hz, hzu, ← List.cons_append]
    rcases hapart with hmem | ⟨b, rfl⟩
    · exact dropFolded?_append (by decide) htag.close_not_mem (.inl hmem)
    · exact dropFolded?_append (by decide) htag.break_not_mem (.inr rfl)
  · obtain ⟨d, name, rfl⟩ := List.exists_cons_of_ne_nil htag.ne_nil
    have hd : caseKey d ≠ caseKey '<' := fun heq =>
      htag.open_not_mem ((caseKey_inj (by decide)).1 heq ▸ List.mem_cons_self)
    rw [hz, hb, dropFolded?, dropFolded?, if_neg hd, Option.map_none]

/-- Behind a name the same holds. -/
theorem of_tagName? (htag : IsTag tag) (h : Apart y u) (hr : tagName? tag y = some r) :
    Apart r u := by
  refine h.imp_left fun hmem => ?_
  exact mem_of_dropFolded? (by decide) htag.close_not_mem hr (mem_skipBlanks (by decide) hmem)

theorem atWordEnd_append (h : Apart r u) : atWordEnd (r ++ u) = atWordEnd r := by
  cases r with
  | nil =>
    obtain ⟨b, rfl⟩ := h.resolve_left List.not_mem_nil
    rfl
  | cons c r => rfl

end Apart

/-! ## One opening or closing -/

theorem openTag?_of_ne (hc : c ≠ '<') (t : Text) : openTag? tag (c :: t) = none := by
  simp [openTag?, dropPrefix?, Ne.symm hc]

theorem closeTag?_of_ne (hc : c ≠ '<') (t : Text) : closeTag? tag (c :: t) = none := by
  simp [closeTag?, dropPrefix?, Ne.symm hc]

theorem openTag?_append (htag : IsTag tag) (h : Apart y u) :
    openTag? tag ('<' :: (y ++ u)) = (openTag? tag ('<' :: y)).map fun m => (m.1, m.2 ++ u) := by
  simp only [openTag?, dropPrefix?, if_true, Option.bind_eq_bind, Option.bind_some,
    h.tagName?_append htag]
  cases hr : tagName? tag y with
  | none => rfl
  | some r =>
    simp only [Option.map_some, Option.bind_some, (h.of_tagName? htag hr).atWordEnd_append]
    split <;> rfl

theorem closeTag?_append (htag : IsTag tag) (h : Apart y u) :
    closeTag? tag ('<' :: (y ++ u)) = (closeTag? tag ('<' :: y)).map fun m => (m.1, m.2 ++ u) := by
  cases y with
  | nil =>
    obtain ⟨b, rfl⟩ := h.resolve_left List.not_mem_nil
    rfl
  | cons d y =>
    by_cases hd : d = '/'
    · -- The `/` is no `>`, so what follows it lies apart as well.
      subst hd
      have hy : Apart y u := h.imp_left fun hmem => (List.mem_cons.1 hmem).resolve_left (by decide)
      show closeTag? tag ("</".toList ++ (y ++ u)) = (closeTag? tag ("</".toList ++ y)).map _
      simp only [closeTag?, dropPrefix?_eq_some_iff.2 rfl, Option.bind_eq_bind, Option.bind_some,
        hy.tagName?_append htag]
      cases hr : tagName? tag y with
      | none => rfl
      | some r =>
        simp only [Option.map_some, Option.bind_some]
        rcases (hy.of_tagName? htag hr).skipBlanks with ⟨c, z, hz, hzu, -⟩ | ⟨hz, b, hb⟩
        · rw [hz, hzu]
          by_cases hc : c = '>'
          · subst hc
            rfl
          · simp [hc]
        · rw [hz, hb]
          rfl
    · simp [closeTag?, dropPrefix?, Ne.symm hd]

/-! ## Seams -/

/-- Wherever a tag could start in `a`, it does not go on in `u`. -/
def Seam (a u : Text) : Prop := ∀ y, '<' :: y <:+ a → Apart y u

theorem seam_break (a b : Text) : Seam a ('\n' :: '<' :: b) := fun _ _ => .inr ⟨b, rfl⟩

/-- Anything follows a text that is shut as if it stood alone. -/
theorem seam_of_shut (h : Shut a) (u : Text) : Seam a u := by
  intro y hy
  rcases h with hblank | ⟨x, w, hw, rfl⟩
  · exact absurd (hy.subset List.mem_cons_self) (hblank.not_mem (by decide))
  · have hopen : '<' ∉ '>' :: w := by
      rw [List.mem_cons, not_or]
      exact ⟨by decide, hw.not_mem (by decide)⟩
    obtain ⟨z, hz⟩ := hy
    rw [List.append_eq_append_iff] at hz
    rcases hz with ⟨v, -, hv⟩ | ⟨v, -, hv⟩
    · -- The `<` stands in front of the `>`.
      cases v with
      | nil =>
        rw [List.nil_append] at hv
        exact absurd (hv ▸ List.mem_cons_self) hopen
      | cons d v =>
        rw [List.cons_append, List.cons.injEq] at hv
        exact .inl (hv.2 ▸ by simp)
    · exact absurd (hv ▸ by simp) hopen

/-- A pattern that starts with a `<`, and is read in front of what it lies apart from as if it stood
alone, has no match across a seam. -/
theorem cutBetween_of_seam {p : Pattern Unit} (hstart : ∀ c t, c ≠ '<' → p.read? (c :: t) = none)
    (happend : ∀ y, Apart y u →
      p.read? ('<' :: (y ++ u)) = (p.read? ('<' :: y)).map fun m => (m.1, m.2 ++ u))
    (h : Seam a u) : p.CutBetween a u := by
  intro x hne hx
  obtain ⟨c, y, rfl⟩ := List.exists_cons_of_ne_nil hne
  by_cases hc : c = '<'
  · subst hc
    exact happend y (h y hx)
  · rw [List.cons_append, hstart c _ hc, hstart c _ hc]
    rfl

/-- Two texts at a seam have the tags of both together. -/
theorem tags_append (htag : IsTag tag) (h : Seam a u) :
    tags tag (a ++ u) = tags tag a + tags tag u := by
  have hopen : (openTag tag).CutBetween a u :=
    cutBetween_of_seam (fun _ t hc => openTag?_of_ne hc t) (fun _ => openTag?_append htag) h
  have hclose : (closeTag tag).CutBetween a u :=
    cutBetween_of_seam (fun _ t hc => closeTag?_of_ne hc t) (fun _ => closeTag?_append htag) h
  simp only [tags, hopen.hits, hclose.hits, List.length_append, Prod.mk_add_mk]

theorem tags_cons_of_ne (hc : c ≠ '<') (t : Text) : tags tag (c :: t) = tags tag t := by
  rw [tags, Pattern.hits_of_none _ (openTag?_of_ne hc t),
    Pattern.hits_of_none _ (closeTag?_of_ne hc t), tags]

/-! ## What is told about tags -/

theorem tagFinding?_eq (tag t : Text) :
    tagFinding? t tag =
      if tags tag t = (1, 1) then none
      else some (.tagCount tag (tags tag t).1 (tags tag t).2) := by
  simp only [tagFinding?, tags, Prod.mk.injEq]

/-- A check tells of the counts of a tag of the document exactly when it is not there once, opened
and closed. -/
theorem tagCount_mem_check_iff {d : Disk} {roots : AssetRoots} {opens closes : Nat} :
    .tagCount tag opens closes ∈ (check d roots t).findings ↔
      tag ∈ documentTags ∧ tags tag t = (opens, closes) ∧ (opens, closes) ≠ (1, 1) := by
  have hincludes : .tagCount tag opens closes ∉ (includeFinding? t).toList := by
    simp only [includeFinding?]
    split <;> simp
  have hassets : .tagCount tag opens closes ∉ (assetFinding? d roots t).toList := by
    simp only [assetFinding?]
    split <;> simp
  simp only [check, List.mem_append, hincludes, hassets, or_false, List.mem_filterMap,
    tagFinding?_eq]
  constructor
  · rintro ⟨tag', hmem, h⟩
    split at h
    · cases h
    · next hne =>
      cases h
      exact ⟨hmem, rfl, hne⟩
  · rintro ⟨hmem, heq, hne⟩
    exact ⟨tag, hmem, by rw [heq, if_neg hne]⟩

end Report

end Pagefold
