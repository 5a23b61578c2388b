import Pagefold.Proofs.Reference.Redirect
import Pagefold.Proofs.Text.Patch
import Pagefold.Proofs.Text.Positions

/-!
# Both passes at once

References are redirected in two passes, and the second one reads what the first one has written. It
finds there what it would have found in the text as it was, so both passes come to one in which all
references are changed at once.

* `Reference.LeadsTo`, `Reference.starts_disjoint`: no reference starts inside another;
* `Reference.IsChange`, `Reference.changes`: what is to be changed in a text;
* `Reference.firstPass`, `Reference.exists_of_firstPass`: what the second pass reads was copied by the
  first one;
* `Reference.redirect_simultaneous`: redirecting makes all these changes at once.
-/

namespace Pagefold.Reference

open Text

variable {dir start t s r q v x y : Text} {p : Pattern Text}

/-! ## What a match is -/

theorem source_attributeStart (hread : (attributeStart dir).read? (s ++ r) = some (v, r)) :
    ∃ kw ∈ attributes, ∃ o, Opening kw o o ∧ s = kw ++ o ++ (dir ++ ['/']) ∧ v = kw ++ o := by
  obtain ⟨kw, hkw, o, hop, hs, hv⟩ := attributeStart?_eq_some_iff.1 hread
  exact ⟨kw, hkw, o, hop, List.append_cancel_right hs, hv⟩

theorem source_urlStart (hdir : IsFolderName dir)
    (hread : (urlStart dir).read? (s ++ r) = some (q, r)) :
    ∃ o, Opening "url(".toList o q ∧ s = "url(".toList ++ o ++ (dir ++ ['/']) := by
  obtain ⟨o, hop, hs⟩ := (urlStart?_eq_some_iff hdir).1 hread
  exact ⟨o, hop, List.append_cancel_right hs⟩

theorem firm_attributeStart (dir : Text) : (attributeStart dir).Firm := by
  intro s v r r' hread
  obtain ⟨kw, hkw, o, hop, rfl, rfl⟩ := source_attributeStart hread
  exact attributeStart?_eq_some_iff.2 ⟨kw, hkw, o, hop, rfl, rfl⟩

theorem firm_urlStart (hdir : IsFolderName dir) : (urlStart dir).Firm := by
  intro s v r r' hread
  obtain ⟨o, hop, rfl⟩ := source_urlStart hdir hread
  exact (urlStart?_eq_some_iff hdir).2 ⟨o, hop, rfl⟩

/-- Where a `url(...)` starts, no attribute is read, and none behind that up to the folder. -/
theorem barren_of_urlStart (hdir : IsFolderName dir)
    (hread : (urlStart dir).read? (s ++ r) = some (q, r)) (t : Text) :
    (attributeStart dir).Barren s t := by
  obtain ⟨o, hop, rfl⟩ := source_urlStart hdir hread
  exact barren_attributeStart hdir.isStart.toIsUnmarked hop

theorem attributeStart_read?_of_urlStart (hdir : IsFolderName dir)
    (hread : (urlStart dir).read? t = some (q, r)) : (attributeStart dir).read? t = none := by
  obtain ⟨s, hs, rfl⟩ := (urlStart dir).exists_source hread
  exact barren_of_urlStart hdir hread r s hs (List.suffix_refl s)

theorem referenceStart_read?_eq_some_iff (hdir : IsFolderName dir) :
    (referenceStart dir).read? t = some (v, r) ↔ (attributeStart dir).read? t = some (v, r) ∨
      ∃ quote, (urlStart dir).read? t = some (quote, r) ∧ v = "url(".toList ++ quote := by
  change referenceStart? dir t = some (v, r) ↔ _
  rw [referenceStart?, Option.orElse_eq_orElse, Option.orElse_eq_or, Option.or_eq_some_iff,
    Option.map_eq_some_iff]
  constructor
  · rintro (hread | ⟨-, ⟨quote, r'⟩, hread, heq⟩)
    · exact .inl hread
    · cases heq
      exact .inr ⟨quote, hread, rfl⟩
  · rintro (hread | ⟨quote, hread, rfl⟩)
    · exact .inl hread
    · exact .inr ⟨attributeStart_read?_of_urlStart hdir hread, (quote, r), hread, rfl⟩

/-! ## No reference starts inside another -/

/-- Every match is a lead and the folder behind it. -/
def LeadsTo (dir : Text) (p : Pattern Text) : Prop :=
  ∀ s v r, p.read? (s ++ r) = some (v, r) → ∃ k o, Lead k o ∧ s = k ++ o ++ (dir ++ ['/'])

theorem leadsTo_attributeStart (dir : Text) : LeadsTo dir (attributeStart dir) := by
  intro s v r hread
  obtain ⟨kw, -, o, hop, hs, -⟩ := source_attributeStart hread
  exact ⟨kw, o, hop.lead, hs⟩

theorem leadsTo_urlStart (hdir : IsFolderName dir) : LeadsTo dir (urlStart dir) := by
  intro s v r hread
  obtain ⟨o, hop, hs⟩ := source_urlStart hdir hread
  exact ⟨_, o, hop.lead, hs⟩

theorem leadsTo_referenceStart (hdir : IsFolderName dir) : LeadsTo dir (referenceStart dir) := by
  intro s v r hread
  rcases (referenceStart_read?_eq_some_iff hdir).1 hread with hread | ⟨quote, hread, -⟩
  · exact leadsTo_attributeStart dir s v r hread
  · exact leadsTo_urlStart hdir s quote r hread

theorem LeadsTo.ledBy (h : LeadsTo dir p) : LedBy p := by
  intro t v r hread
  obtain ⟨s, -, rfl⟩ := p.exists_source hread
  obtain ⟨k, o, hlead, rfl⟩ := h s v r hread
  exact ⟨k, o, hlead, by simp⟩

theorem LeadsTo.avoids {p' : Pattern Text} (h : LeadsTo dir p) (hdir : IsFolderName dir)
    (hp' : LedBy p') : p'.Avoids p := by
  intro s v r hread
  obtain ⟨k, o, hlead, rfl⟩ := h s v r hread
  exact hp'.barren hlead hdir.isStart.toIsUnmarked

theorem LeadsTo.solitary (h : LeadsTo dir p) (hdir : IsFolderName dir) : p.Solitary :=
  h.avoids hdir h.ledBy

/-- Attributes and `url(...)` values lie apart. -/
theorem starts_disjoint (hdir : IsFolderName dir) {m k : Nat × Nat × Text}
    (hm : StandsAt (attributeStart dir).Reads t m) (hk : StandsAt (urlStart dir).Reads t k) :
    m.2.1 ≤ k.1 ∨ k.2.1 ≤ m.1 := by
  have hattribute := leadsTo_attributeStart dir
  have hurl := leadsTo_urlStart hdir
  rcases Nat.lt_trichotomy m.1 k.1 with hlt | heq | hlt
  · exact .inl ((hattribute.avoids hdir hurl.ledBy).stop_le hm hk hlt)
  · -- Both would be read at the front of one text.
    obtain ⟨a, s, r, rfl, hread, hstart, -⟩ := hm
    obtain ⟨b, u, w, ht, hread', hstart', -⟩ := hk
    obtain ⟨-, hrest⟩ := append_inj_byteSize ht (by omega)
    rw [← hrest] at hread'
    have hnone := attributeStart_read?_of_urlStart hdir hread'
    exact absurd (hnone.symm.trans hread) (by simp)
  · exact .inr ((hurl.avoids hdir hattribute.ledBy).stop_le hk hm hlt)

/-! ## Changes -/

/-- A change that redirecting is to make: the folder of a reference gives way to the prefix, and of
the blanks in front of a `url(...)` value nothing is left. -/
inductive IsChange (dir start t : Text) : Change → Prop where
  | attribute {m : Nat × Nat × Text} (h : StandsAt (attributeStart dir).Reads t m) :
      IsChange dir start t ⟨m.1, m.2.1, m.2.2 ++ start⟩
  | url {m : Nat × Nat × Text} (h : StandsAt (urlStart dir).Reads t m) :
      IsChange dir start t ⟨m.1, m.2.1, "url(".toList ++ m.2.2 ++ start⟩

/-- All these changes, as the two patterns find them in the text. -/
def changes (dir start t : Text) : List Change :=
  (attributeStart dir).changes (· ++ start) t
    ++ (urlStart dir).changes (fun quote => "url(".toList ++ quote ++ start) t

theorem mem_changes_iff (hdir : IsFolderName dir) {c : Change} :
    c ∈ changes dir start t ↔ IsChange dir start t c := by
  have hattribute := (leadsTo_attributeStart dir).solitary hdir
  have hurl := (leadsTo_urlStart hdir).solitary hdir
  simp only [changes, Pattern.changes, List.mem_append, List.mem_map, hattribute.mem_located_iff,
    hurl.mem_located_iff]
  constructor
  · rintro (⟨m, hm, rfl⟩ | ⟨m, hm, rfl⟩)
    · exact .attribute hm
    · exact .url hm
  · rintro (hm | hm)
    · exact .inl ⟨_, hm, rfl⟩
    · exact .inr ⟨_, hm, rfl⟩

theorem mem_changes_referenceStart_iff (hdir : IsFolderName dir) {c : Change} :
    c ∈ (referenceStart dir).changes (· ++ start) t ↔ IsChange dir start t c := by
  simp only [Pattern.changes, List.mem_map,
    ((leadsTo_referenceStart hdir).solitary hdir).mem_located_iff]
  constructor
  · rintro ⟨⟨i, j, v⟩, ⟨a, s, r, ht, hread, hstart, hstop⟩, rfl⟩
    rcases (referenceStart_read?_eq_some_iff hdir).1 hread with hattribute | ⟨quote, hurl, hv⟩
    · exact .attribute (m := (i, j, v)) ⟨a, s, r, ht, hattribute, hstart, hstop⟩
    · obtain rfl : v = "url(".toList ++ quote := hv
      exact .url (m := (i, j, quote)) ⟨a, s, r, ht, hurl, hstart, hstop⟩
  · rintro (@⟨m, a, s, r, ht, hread, hstart, hstop⟩ | @⟨m, a, s, r, ht, hread, hstart, hstop⟩)
    · have hreference := (referenceStart_read?_eq_some_iff hdir).2 (.inl hread)
      exact ⟨m, ⟨a, s, r, ht, hreference, hstart, hstop⟩, rfl⟩
    · have hreference := (referenceStart_read?_eq_some_iff hdir).2 (.inr ⟨m.2.2, hread, rfl⟩)
      exact ⟨(m.1, m.2.1, "url(".toList ++ m.2.2), ⟨a, s, r, ht, hreference, hstart, hstop⟩, rfl⟩

theorem redirect_eq_patch (hdir : IsFolderName dir) (hstart : IsUnmarked start) (t : Text) :
    redirect dir start t = patch (changes dir start t) t := by
  have hsame (c : Change) :
      c ∈ (referenceStart dir).changes (· ++ start) t ↔ c ∈ changes dir start t :=
    (mem_changes_referenceStart_iff hdir).trans (mem_changes_iff hdir).symm
  rw [redirect_eq hdir hstart, ← Pattern.patch_changes,
    patch_congr (Pattern.apart_changes _ _ t) hsame]

/-! ## The second pass -/

/-- What the first pass of `redirect` makes of a text. The second one replaces what `urlStart` finds
there. -/
def firstPass (dir start t : Text) : Text := (attributeStart dir).replace (· ++ start) t

theorem firstPass_append (hdir : IsFolderName dir)
    (hread : (urlStart dir).read? (s ++ y) = some (q, y)) (start x : Text) :
    firstPass dir start (x ++ (s ++ y)) = firstPass dir start x ++ (s ++ firstPass dir start y) := by
  have havoids := (leadsTo_attributeStart dir).avoids hdir (leadsTo_urlStart hdir).ledBy
  have hmatch : (urlStart dir).Matches (s ++ y) := by rw [Pattern.Matches, hread]; rfl
  have hcut := havoids.cutBetween (firm_attributeStart dir) hmatch x
  rw [firstPass, hcut.replace, (barren_of_urlStart hdir hread y).replace]
  rfl

/-- At the front of what the first pass leaves, the second one reads what it would have read before. -/
theorem urlStart_read?_firstPass (hdir : IsFolderName dir) (hstart : IsUnmarked start)
    (hread : (urlStart dir).read? (firstPass dir start t) = some (q, y)) :
    ∃ s b, t = s ++ b ∧ (urlStart dir).read? (s ++ b) = some (q, b) ∧
      y = firstPass dir start b := by
  cases t with
  | nil =>
    have hnone := (urlStart dir).read?_nil
    exact absurd (hnone.symm.trans hread) (by simp)
  | cons c t =>
    cases hattribute : (attributeStart dir).read? (c :: t) with
    | some m =>
      obtain ⟨v, r⟩ := m
      -- An attribute is replaced here, and nothing is read in what stands for it.
      rw [firstPass, (attributeStart dir).replace_of_some hattribute] at hread
      obtain ⟨u, -, hu⟩ := (attributeStart dir).exists_source hattribute
      rw [hu] at hattribute
      obtain ⟨kw, hkw, o, hop, -, rfl⟩ := source_attributeStart hattribute
      have hbarren := barren_urlStart (t := firstPass dir start r) hdir hstart hkw hop
      have hne : kw ++ o ++ start ≠ [] := by simp [hstart.ne_nil]
      have hnone := hbarren _ hne (List.suffix_refl _)
      exact absurd (hnone.symm.trans hread) (by simp)
    | none =>
      -- The first pass copies this character, so it made nothing new to read.
      have hcopied : firstPass dir start (c :: t) = c :: firstPass dir start t :=
        (attributeStart dir).replace_of_none hattribute
      cases hurl : (urlStart dir).read? (c :: t) with
      | none =>
        have hnone : (urlStart dir).read? (c :: firstPass dir start t) = none :=
          urlStart_read?_replace hdir hurl
        rw [hcopied] at hread
        exact absurd (hnone.symm.trans hread) (by simp)
      | some m =>
        obtain ⟨q', b⟩ := m
        obtain ⟨s, -, hs⟩ := (urlStart dir).exists_source hurl
        rw [hs] at hurl hread ⊢
        -- No attribute starts within the match, so it is copied as a whole.
        have happend := firstPass_append hdir hurl start []
        have hsame := firm_urlStart hdir s q' b (firstPass dir start b) hurl
        rw [List.nil_append] at happend
        rw [happend] at hread
        have heq := Option.some.inj (hsame.symm.trans hread)
        cases heq
        exact ⟨s, b, rfl, hurl, rfl⟩

/-- What the second pass reads was copied by the first one. -/
theorem exists_of_firstPass (hdir : IsFolderName dir) (hstart : IsUnmarked start)
    (h : firstPass dir start t = x ++ (s ++ y))
    (hread : (urlStart dir).read? (s ++ y) = some (q, y)) :
    ∃ a b, t = a ++ (s ++ b) ∧ (urlStart dir).read? (s ++ b) = some (q, b) ∧
      x = firstPass dir start a ∧ y = firstPass dir start b := by
  rcases (attributeStart dir).suffix_replace (f := (· ++ start)) ⟨x, h.symm⟩ with
    ⟨u, ⟨a, rfl⟩, hu⟩ | ⟨u, v, r, z, w, -, hattribute, hvz, hz, hw, hrest⟩
  · have hu : s ++ y = firstPass dir start u := hu
    rw [hu] at hread
    obtain ⟨s', b, rfl, hurl, rfl⟩ := urlStart_read?_firstPass hdir hstart hread
    have hwhole := firstPass_append hdir hurl start a
    have hfront := firstPass_append hdir hurl start []
    rw [List.nil_append] at hfront
    rw [← hu] at hfront
    obtain rfl : s = s' := List.append_cancel_right hfront
    rw [hwhole] at h
    exact ⟨a, b, rfl, hurl, (List.append_cancel_right h).symm, rfl⟩
  · -- Behind the start of an attribute that was changed nothing is read.
    obtain ⟨s', -, rfl⟩ := (attributeStart dir).exists_source hattribute
    obtain ⟨kw, hkw, o, hop, -, rfl⟩ := source_attributeStart hattribute
    have htail : w <:+ (kw ++ o ++ start).tail := by
      obtain ⟨c, z, rfl⟩ := List.exists_cons_of_ne_nil hz
      rw [hvz]
      exact List.suffix_append z w
    have hbarren := (ledBy_urlStart hdir).barren (t := firstPass dir start r) hop.lead hstart
    have hnone := hbarren w hw htail
    rw [hrest] at hread
    exact absurd (hnone.symm.trans hread) (by simp)

/-- The two passes do not get in each other's way. In a text, attributes and `url(...)` values that
start with the folder lie apart. Redirecting is one pass that makes all changes of both kinds, at all
places where one stands. And where the second pass finds something in what the first one has made of
the text, the first one has copied it: it stood in the text, behind what became the text in front of
it, and in front of what became the text behind it. -/
theorem redirect_simultaneous (hdir : IsFolderName dir) (hstart : IsUnmarked start) (t : Text) :
    (∀ m k, StandsAt (attributeStart dir).Reads t m → StandsAt (urlStart dir).Reads t k →
      m.2.1 ≤ k.1 ∨ k.2.1 ≤ m.1) ∧
    (∀ c, c ∈ changes dir start t ↔ IsChange dir start t c) ∧
    redirect dir start t = patch (changes dir start t) t ∧
    ∀ x s y q,
      firstPass dir start t = x ++ (s ++ y) ∧ (urlStart dir).read? (s ++ y) = some (q, y) ↔
        ∃ a b, t = a ++ (s ++ b) ∧ (urlStart dir).read? (s ++ b) = some (q, b) ∧
          x = firstPass dir start a ∧ y = firstPass dir start b := by
  refine ⟨fun _ _ => starts_disjoint hdir, fun _ => mem_changes_iff hdir,
    redirect_eq_patch hdir hstart t, fun x s y q => ⟨?_, ?_⟩⟩
  · rintro ⟨h, hread⟩
    exact exists_of_firstPass hdir hstart h hread
  · rintro ⟨a, b, rfl, hread, rfl, rfl⟩
    exact ⟨firstPass_append hdir hread start a, firm_urlStart hdir s q b _ hread⟩

/-- A `url(...)` in the value of an attribute, and both again with blanks. -/
def nested : Text := "<a href='assets/url( \"assets/a' src = \"assets/b\" url(assets/c)>".toList

theorem redirect_simultaneous_nested :
    redirect "assets".toList "../x/".toList nested
      = patch (changes "assets".toList "../x/".toList nested) nested ∧
    redirect "assets".toList "../x/".toList nested
      = "<a href='../x/url(\"../x/a' src = \"../x/b\" url(../x/c)>".toList :=
  ⟨(redirect_simultaneous (by decide) (by decide) nested).2.2.1, rfl⟩

end Pagefold.Reference
