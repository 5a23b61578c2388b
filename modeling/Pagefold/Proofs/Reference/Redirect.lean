import Pagefold.Proofs.Reference.Lead
import Pagefold.Reference.Redirect

/-!
# What redirecting changes

* `Reference.IsFolderName`: the names of asset folders;
* `Reference.referenceStart`: one pattern for all references that start with a folder, in lower
  case;
* `Reference.redirect_eq`: the two passes of redirecting are one replacement with it.
-/

namespace Pagefold.Reference

open Text

variable {t r v e q kw o s dir start : Text} {c : Char}

/-! ## Folder names -/

def isNameChar (c : Char) : Bool := c.isAlphanum || c == '_' || c == '.' || c == '-'

structure IsFolderName (dir : Text) : Prop where
  ne_nil : dir ≠ []
  named : ∀ c ∈ dir, isNameChar c = true

instance IsFolderName.decidable (dir : Text) : Decidable (IsFolderName dir) :=
  decidable_of_iff (dir ≠ [] ∧ dir.all isNameChar = true)
    ⟨fun ⟨h, hall⟩ => ⟨h, List.all_eq_true.1 hall⟩, fun ⟨h, hall⟩ => ⟨h, List.all_eq_true.2 hall⟩⟩

theorem toNat_of_isNameChar (h : isNameChar c = true) : 45 ≤ c.toNat ∧ c.toNat ≤ 122 := by
  simp only [isNameChar, Bool.or_eq_true, beq_iff_eq, Char.isAlphanum, Char.isAlpha, Char.isUpper,
    Char.isLower, Char.isDigit, Bool.and_eq_true, decide_eq_true_eq, UInt32.le_iff_toNat_le] at h
  rcases h with ((h | rfl) | rfl) | rfl
  · have hA : 'A'.val.toNat = 65 := rfl
    have hZ : 'Z'.val.toNat = 90 := rfl
    have ha : 'a'.val.toNat = 97 := rfl
    have hz : 'z'.val.toNat = 122 := rfl
    have h0 : '0'.val.toNat = 48 := rfl
    have h9 : '9'.val.toNat = 57 := rfl
    simp only [Char.toNat]
    omega
  all_goals decide

theorem not_isBlank_of_toNat (h : 33 ≤ c.toNat ∧ c.toNat ≤ 132) : isBlank c = false := by
  rw [Bool.eq_false_iff]
  intro hblank
  have hwide : ∀ n ∈ wideBlanks, 133 ≤ n := by decide
  rcases code_of_isBlank hblank with hlow | hmem
  · omega
  · have := hwide _ hmem
    omega

theorem plain_of_isNameChar (h : isNameChar c = true ∨ c = '/') :
    isBlank c = false ∧ isQuote c = false ∧ c ∉ ")?#".toList := by
  refine ⟨?_, ?_, ?_⟩
  · refine not_isBlank_of_toNat ?_
    rcases h with h | rfl
    · have := toNat_of_isNameChar h
      omega
    · decide
  · rw [Bool.eq_false_iff]
    intro hquote
    rcases isQuote_iff.1 hquote with rfl | rfl <;> revert h <;> decide
  · intro hmem
    change c ∈ [')', '?', '#'] at hmem
    simp only [List.mem_cons, List.not_mem_nil, or_false] at hmem
    rcases hmem with rfl | rfl | rfl <;> revert h <;> decide

theorem IsFolderName.isStart (h : IsFolderName dir) : IsStart (dir ++ ['/']) := by
  have hall : ∀ c ∈ dir ++ ['/'], isNameChar c = true ∨ c = '/' := by
    intro c hc
    rcases List.mem_append.1 hc with hc | hc
    · exact .inl (h.named c hc)
    · exact .inr (List.mem_singleton.1 hc)
  refine ⟨⟨⟨dir, rfl⟩, ?_, ?_⟩, fun c hc => plain_of_isNameChar (hall c hc)⟩
  · intro hmem
    exact absurd (hall _ hmem) (by decide)
  · intro hmem
    exact absurd (hall _ hmem) (by decide)

theorem IsFolderName.slash_not_mem (h : IsFolderName dir) : '/' ∉ dir := by
  intro hmem
  exact absurd (h.named _ hmem) (by decide)

theorem folderName_eq (h : IsFolderName dir) : folderName dir = dir := by
  have hlast : dir.reverse.dropWhile (· == '/') = dir.reverse := by
    cases hr : dir.reverse with
    | nil => rfl
    | cons c l =>
      have hmem : c ∈ dir := List.mem_reverse.1 (hr ▸ List.mem_cons_self)
      have hne : c ≠ '/' := fun heq => h.slash_not_mem (heq ▸ hmem)
      simp [hne]
  rw [folderName, hlast, List.reverse_reverse]

/-! ## Starts of references -/

theorem attributeStart?_eq_some_iff :
    attributeStart? dir t = some (v, r) ↔ ∃ kw ∈ attributes, ∃ o, Opening kw o o ∧
      t = kw ++ o ++ (dir ++ ['/']) ++ r ∧ v = kw ++ o := by
  have hkeyword (u : Text) :
      (dropPrefix? "href".toList t <|> dropPrefix? "src".toList t) = some u ↔
        ∃ kw ∈ attributes, t = kw ++ u := by
    rw [Option.orElse_eq_orElse, Option.orElse_eq_or, Option.or_eq_some_iff,
      dropPrefix?_eq_some_iff, dropPrefix?_eq_some_iff]
    simp only [attributes, List.mem_cons, List.not_mem_nil, or_false, exists_eq_or_imp,
      exists_eq_left]
    constructor
    · rintro (h | ⟨-, h⟩)
      · exact .inl h
      · exact .inr h
    · rintro (h | h)
      · exact .inl h
      · -- What starts with one keyword does not start with the other.
        refine .inr ⟨?_, h⟩
        subst h
        rfl
  constructor
  · intro h
    simp only [attributeStart?, Option.bind_eq_bind, Option.bind_eq_some_iff] at h
    obtain ⟨u, hu, value, hvalue, rest, hrest, h⟩ := h
    cases h
    obtain ⟨kw, hkw, rfl⟩ := (hkeyword u).1 hu
    obtain ⟨w, w', q, hw, hw', hq, rfl⟩ := assigned?_eq_some_iff.1 hvalue
    rw [under?, dropPrefix?_eq_some_iff] at hrest
    refine ⟨kw, hkw, w ++ '=' :: (w' ++ [q]), .assignment hkw hw hw' hq, by simp [hrest], ?_⟩
    have hsplit : kw ++ (w ++ '=' :: (w' ++ q :: value))
        = kw ++ (w ++ '=' :: (w' ++ [q])) ++ value := by simp
    rw [hsplit, List.length_append, Nat.add_sub_cancel, List.take_left]
  · rintro ⟨kw, hkw, o, hop, rfl, rfl⟩
    have hread := (hkeyword (o ++ (dir ++ ['/'] ++ r))).2 ⟨kw, hkw, by simp⟩
    have hunder : under? dir (dir ++ ['/'] ++ r) = some r := by
      rw [under?, dropPrefix?_eq_some_iff]
    have hsplit : kw ++ o ++ (dir ++ ['/']) ++ r = kw ++ o ++ (dir ++ ['/'] ++ r) := by simp
    rw [hsplit] at hread ⊢
    simp only [attributeStart?, Option.bind_eq_bind, hread, Option.bind_some,
      assigned?_opening hkw hop, hunder]
    rw [List.length_append, Nat.add_sub_cancel, List.take_left]
    rfl

theorem under?_eq_none (h : IsFolderName dir) (hc : isBlank c = true ∨ isQuote c = true) :
    under? dir (c :: t) = none := by
  rw [Option.eq_none_iff_forall_not_mem]
  intro r hr
  rw [Option.mem_def, under?, dropPrefix?_eq_some_iff] at hr
  obtain ⟨d, l, hd⟩ := List.exists_cons_of_ne_nil h.isStart.ne_nil
  rw [hd, List.cons_append, List.cons.injEq] at hr
  have hplain := h.isStart.plain c (by rw [hd, hr.1]; exact List.mem_cons_self)
  rcases hc with hc | hc
  · simp [hc] at hplain
  · simp [hc] at hplain

theorem urlStartAt?_append {w : Text} (h : IsFolderName dir) (hw : ∀ c ∈ w, isBlank c = true) :
    urlStartAt? dir (w ++ t) = urlStartAt? dir t := by
  induction w with
  | nil => rfl
  | cons c w ih =>
    have hblank := hw c List.mem_cons_self
    have hquote : isQuote c = false := by
      rw [Bool.eq_false_iff]
      intro hquote
      rw [not_isBlank_of_isQuote hquote] at hblank
      cases hblank
    rw [← ih fun d hd => hw d (List.mem_cons_of_mem _ hd)]
    simp [urlStartAt?, hblank, hquote, under?_eq_none h (.inl hblank)]

theorem urlStartAt?_of_not_isBlank (h : IsFolderName dir) (hc : isBlank c = false) :
    urlStartAt? dir (c :: t) = some (q, r) ↔ IsMark q ∧ c :: t = q ++ (dir ++ ['/']) ++ r := by
  have hunder (u : Text) : under? dir u = some r ↔ u = dir ++ ['/'] ++ r := by
    rw [under?, dropPrefix?_eq_some_iff]
  by_cases hquote : isQuote c = true
  · -- A folder does not start with a quote, so the quote is the mark.
    have hnone := under?_eq_none (t := t) h (.inr hquote)
    have hread : urlStartAt? dir (c :: t) = (under? dir t).map ([c], ·) := by
      simp [urlStartAt?, hc, hquote, hnone]
    rw [hread, Option.map_eq_some_iff]
    constructor
    · rintro ⟨u, hu, heq⟩
      cases heq
      exact ⟨.inr ⟨c, hquote, rfl⟩, by rw [(hunder t).1 hu]; rfl⟩
    · rintro ⟨rfl | ⟨d, -, rfl⟩, heq⟩
      · rw [(hunder _).2 heq] at hnone
        cases hnone
      · rw [List.append_assoc, List.singleton_append, List.cons.injEq] at heq
        exact ⟨r, (hunder t).2 heq.2, by rw [heq.1]⟩
  · have hread : urlStartAt? dir (c :: t) = (under? dir (c :: t)).map ([], ·) := by
      simp [urlStartAt?, hc, hquote]
    rw [hread, Option.map_eq_some_iff]
    constructor
    · rintro ⟨u, hu, heq⟩
      cases heq
      exact ⟨.inl rfl, (hunder _).1 hu⟩
    · rintro ⟨rfl | ⟨d, hd, rfl⟩, heq⟩
      · exact ⟨r, (hunder _).2 heq, rfl⟩
      · rw [List.append_assoc, List.singleton_append, List.cons.injEq] at heq
        exact absurd (heq.1 ▸ hd) hquote

theorem urlStartAt?_eq_some_iff (h : IsFolderName dir) :
    urlStartAt? dir t = some (q, r) ↔ ∃ w, (∀ c ∈ w, isBlank c = true) ∧ IsMark q ∧
      t = w ++ q ++ (dir ++ ['/']) ++ r := by
  have hhead (hq : IsMark q) :
      ∃ c l, q ++ (dir ++ ['/']) ++ r = c :: l ∧ isBlank c = false := by
    rcases hq with rfl | ⟨c, hc, rfl⟩
    · obtain ⟨c, l, hl⟩ := List.exists_cons_of_ne_nil h.isStart.ne_nil
      exact ⟨c, l ++ r, by rw [hl]; rfl, (h.isStart.plain c (by rw [hl]; simp)).1⟩
    · exact ⟨c, _, rfl, not_isBlank_of_isQuote hc⟩
  constructor
  · intro hread
    obtain ⟨w, hw, ht⟩ := exists_blanks t
    rw [ht, urlStartAt?_append h hw] at hread
    cases hs : skipBlanks t with
    | nil =>
      rw [hs] at hread
      obtain ⟨u, hu, -⟩ := Option.map_eq_some_iff.1 hread
      rw [under?, dropPrefix?_eq_some_iff] at hu
      simp at hu
    | cons c u =>
      rw [hs, urlStartAt?_of_not_isBlank h (head_skipBlanks hs)] at hread
      exact ⟨w, hw, hread.1, by rw [ht, hs, hread.2]; simp⟩
  · rintro ⟨w, hw, hq, rfl⟩
    obtain ⟨c, l, hl, hc⟩ := hhead hq
    rw [List.append_assoc, List.append_assoc, urlStartAt?_append h hw, ← List.append_assoc, hl,
      urlStartAt?_of_not_isBlank h hc]
    exact ⟨hq, hl.symm⟩

theorem urlStart?_eq_some_iff (h : IsFolderName dir) :
    urlStart? dir t = some (q, r) ↔ ∃ o, Opening "url(".toList o q ∧
      t = "url(".toList ++ o ++ (dir ++ ['/']) ++ r := by
  rw [urlStart?, Option.bind_eq_bind, Option.bind_eq_some_iff]
  constructor
  · rintro ⟨u, hu, hread⟩
    obtain ⟨w, hw, hq, rfl⟩ := (urlStartAt?_eq_some_iff h).1 hread
    rw [dropPrefix?_eq_some_iff] at hu
    exact ⟨w ++ q, .url hw hq, by simp [hu]⟩
  · rintro ⟨o, hop, rfl⟩
    refine ⟨o ++ (dir ++ ['/']) ++ r, by rw [dropPrefix?_eq_some_iff]; simp, ?_⟩
    rw [urlStartAt?_eq_some_iff h]
    cases hop with
    | assignment hkw => exact absurd hkw (by decide)
    | url hw hq => exact ⟨_, hw, hq, rfl⟩

/-- A reference that starts with a folder: the text in front of the folder, as it is written when
the folder is replaced, and what follows the folder. -/
def referenceStart? (dir t : Text) : Option (Text × Text) :=
  attributeStart? dir t <|> (urlStart? dir t).map fun (q, r) => ("url(".toList ++ q, r)

theorem referenceStart?_eq_some_iff (h : IsFolderName dir) :
    referenceStart? dir t = some (v, r) ↔ ∃ kw o s, Opening kw o s ∧
      t = kw ++ o ++ (dir ++ ['/']) ++ r ∧ v = kw ++ s := by
  rw [referenceStart?, Option.orElse_eq_orElse, Option.orElse_eq_or, Option.or_eq_some_iff,
    Option.map_eq_some_iff]
  constructor
  · rintro (hread | ⟨-, ⟨q, u⟩, hread, heq⟩)
    · obtain ⟨kw, -, o, hop, ht, hv⟩ := attributeStart?_eq_some_iff.1 hread
      exact ⟨kw, o, o, hop, ht, hv⟩
    · cases heq
      obtain ⟨o, hop, ht⟩ := (urlStart?_eq_some_iff h).1 hread
      exact ⟨_, o, q, hop, ht, rfl⟩
  · rintro ⟨kw, o, s, hop, rfl, rfl⟩
    cases hop with
    | assignment hkw hw hw' hq =>
      exact .inl (attributeStart?_eq_some_iff.2 ⟨kw, hkw, _, .assignment hkw hw hw' hq, rfl, rfl⟩)
    | url hw hq =>
      refine .inr ⟨?_, (s, r), (urlStart?_eq_some_iff h).2 ⟨_, .url hw hq, rfl⟩, rfl⟩
      rw [Option.eq_none_iff_forall_not_mem]
      rintro ⟨v, u⟩ hread
      obtain ⟨kw, hkw, o, -, heq, -⟩ := attributeStart?_eq_some_iff.1 hread
      simp only [attributes, List.mem_cons, List.not_mem_nil, or_false] at hkw
      rcases hkw with rfl | rfl <;> simp at heq

theorem referenceStart?_proper (h : referenceStart? dir t = some (v, r)) :
    r <:+ t ∧ r.length < t.length := by
  rw [referenceStart?, Option.orElse_eq_orElse, Option.orElse_eq_or, Option.or_eq_some_iff] at h
  rcases h with h | ⟨-, h⟩
  · exact attributeStart?_proper h
  · obtain ⟨m, hm, h⟩ := Option.map_eq_some_iff.1 h
    cases h
    exact urlStart?_proper hm

/-- References that start with a folder, in lower case. -/
def referenceStart (dir : Text) : Pattern Text where
  read? := referenceStart? dir
  proper := referenceStart?_proper

theorem ledBy_attributeStart : LedBy (attributeStart dir) := by
  intro t v r hread
  obtain ⟨kw, -, o, hop, rfl, -⟩ := attributeStart?_eq_some_iff.1 hread
  exact ⟨kw, o, hop.lead, by simp⟩

theorem ledBy_urlStart (h : IsFolderName dir) : LedBy (urlStart dir) := by
  intro t q r hread
  obtain ⟨o, hop, rfl⟩ := (urlStart?_eq_some_iff h).1 hread
  exact ⟨_, o, hop.lead, by simp⟩

theorem Opening.shown (h : Opening kw o s) : Opening kw s s := by
  cases h with
  | assignment hkw hw hw' hq => exact .assignment hkw hw hw' hq
  | url _ hq => exact .url (w := []) (by simp) hq

/-- Nothing in the place of an attribute is read as the start of a `url(...)`. -/
theorem barren_urlStart (h : IsFolderName dir) (hstart : IsUnmarked start) (hkw : kw ∈ attributes)
    (hop : Opening kw o s) : (urlStart dir).Barren (kw ++ o ++ start) t := by
  refine (ledBy_urlStart h).barren_of_none hop.lead hstart ?_
  simp only [attributes, List.mem_cons, List.not_mem_nil, or_false] at hkw
  rcases hkw with rfl | rfl <;> rfl

/-- Nothing in the place of the start of a `url(...)` is read as an attribute. -/
theorem barren_attributeStart (hstart : IsUnmarked start) (hop : Opening "url(".toList o s) :
    (attributeStart dir).Barren ("url(".toList ++ o ++ start) t :=
  ledBy_attributeStart.barren_of_none hop.lead hstart rfl

/-- The first pass makes no start of a `url(...)` that the second one reads. -/
theorem urlStart_read?_replace (hdir : IsFolderName dir)
    (hnone : (urlStart dir).read? (c :: t) = none) :
    (urlStart dir).read? (c :: (attributeStart dir).replace (· ++ start) t) = none := by
  rw [Option.eq_none_iff_forall_not_mem]
  rintro ⟨q, r⟩ hread
  obtain ⟨o, hop, heq⟩ := (urlStart?_eq_some_iff hdir).1 hread
  have hreplaced : ∀ t v r, (attributeStart dir).read? t = some (v, r) →
      ∃ k o, Lead k o ∧ (k ++ o) <+: v ++ start := by
    intro t v r hread
    obtain ⟨kw, -, o, hop, -, rfl⟩ := attributeStart?_eq_some_iff.1 hread
    exact ⟨kw, o, hop.lead, List.prefix_append _ start⟩
  have hfront : ("url(".toList ++ o ++ (dir ++ ['/']))
      <+: c :: (attributeStart dir).replace (· ++ start) t := ⟨r, heq.symm⟩
  obtain ⟨r', hr'⟩ :=
    prefix_of_prefix_replace hreplaced hop.lead hdir.isStart.toIsUnmarked hfront
  have hsome := (urlStart?_eq_some_iff hdir).2 ⟨o, hop, hr'.symm⟩
  exact absurd (hnone.symm.trans hsome) (by simp)

theorem redirect_eq (hdir : IsFolderName dir) (hstart : IsUnmarked start) :
    redirect dir start t = (referenceStart dir).replace (· ++ start) t := by
  rw [redirect, folderName_eq hdir]
  induction t using (referenceStart dir).read_induction with
  | nil => rfl
  | plain c t hnone ih =>
    -- Neither pass reads anything at this character.
    have hboth := hnone
    simp only [referenceStart, referenceStart?, Option.orElse_eq_orElse, Option.orElse_eq_or,
      Option.or_eq_none_iff, Option.map_eq_none_iff] at hboth
    obtain ⟨hattribute, hurl⟩ := hboth
    rw [(attributeStart dir).replace_of_none hattribute, (referenceStart dir).replace_of_none hnone,
      (urlStart dir).replace_of_none (urlStart_read?_replace hdir hurl), ih]
  | hit t v r hsome ih =>
    rw [(referenceStart dir).replace_of_some hsome, ← ih]
    have hread := hsome
    simp only [referenceStart, referenceStart?, Option.orElse_eq_orElse, Option.orElse_eq_or,
      Option.or_eq_some_iff, Option.map_eq_some_iff] at hread
    rcases hread with hread | ⟨-, ⟨q, r⟩, hread, heq⟩
    · -- The first pass replaces, and the second one reads nothing in what it wrote.
      rw [(attributeStart dir).replace_of_some hread]
      obtain ⟨kw, hkw, o, hop, -, rfl⟩ := attributeStart?_eq_some_iff.1 hread
      exact (barren_urlStart hdir hstart hkw hop).replace
    · -- The first pass copies the match, and the second one replaces it.
      cases heq
      obtain ⟨o, hop, rfl⟩ := (urlStart?_eq_some_iff hdir).1 hread
      rw [(barren_attributeStart hdir.isStart.toIsUnmarked hop).replace]
      exact (urlStart dir).replace_of_some ((urlStart?_eq_some_iff hdir).2 ⟨o, hop, rfl⟩)

end Pagefold.Reference
