import Pagefold.Proofs.Text.Fold
import Pagefold.Proofs.Text.Matches
import Pagefold.Reference

/-!
# What a reference starts with

In front of the value of a reference stand a keyword, in any letter case, and an opening: for
attributes an equals sign with blanks around it and a quote, for `url(` blanks and at most one
quote.

* `Reference.Opening`, `Reference.Lead`: openings, and keywords with their openings;
* `Reference.IsUnmarked`, `Reference.IsStart`: texts that can stand in the place of a folder;
* `Reference.Lead.apart`: a lead begins nowhere in the inside of a lead with such a text behind it;
* `Reference.LedBy`: patterns whose matches begin with leads; `LedBy.barren` and
  `prefix_of_prefix_replace` say where they find nothing.
-/

namespace Pagefold.Reference

open Text

/-! ## Openings -/

/-- No quote, or one. -/
def IsMark (q : Text) : Prop := q = [] ∨ ∃ c, isQuote c = true ∧ q = [c]

def attributes : List Text := ["href".toList, "src".toList]

def keywords : List Text := ["href".toList, "src".toList, "url(".toList]

/-- What stands between a keyword and a value, and what is left of it when the value is changed. -/
inductive Opening : Text → Text → Text → Prop where
  | assignment {kw w w' : Text} {q : Char} (hkw : kw ∈ attributes) (hw : ∀ c ∈ w, isBlank c = true)
      (hw' : ∀ c ∈ w', isBlank c = true) (hq : isQuote q = true) :
      Opening kw (w ++ '=' :: (w' ++ [q])) (w ++ '=' :: (w' ++ [q]))
  | url {w q : Text} (hw : ∀ c ∈ w, isBlank c = true) (hq : IsMark q) :
      Opening "url(".toList (w ++ q) q

/-- A keyword in any letter case, and its opening. -/
def Lead (k o : Text) : Prop := ∃ kw s, Opening kw o s ∧ k.map caseKey = kw.map caseKey

variable {kw kw' k k' o o' s e e' q r t x y : Text} {c : Char}

theorem isQuote_iff : isQuote c = true ↔ c = '\'' ∨ c = '"' := by simp [isQuote]

theorem not_isBlank_of_isQuote (h : isQuote c = true) : isBlank c = false := by
  rcases isQuote_iff.1 h with rfl | rfl <;> decide

theorem IsMark.isQuote_of_mem (hq : IsMark q) (hc : c ∈ q) : isQuote c = true := by
  rcases hq with rfl | ⟨d, hd, rfl⟩
  · cases hc
  · rw [List.mem_singleton] at hc
    rwa [hc]

theorem Opening.lead (h : Opening kw o s) : Lead kw o := ⟨kw, s, h, rfl⟩

theorem Opening.mem_keywords (h : Opening kw o s) :
    kw ∈ keywords := by
  cases h with
  | assignment hkw =>
    simp only [attributes, keywords, List.mem_cons, List.not_mem_nil, or_false] at hkw ⊢
    rcases hkw with rfl | rfl <;> simp
  | url => simp [keywords]

theorem Opening.mem (h : Opening kw o s) (hc : c ∈ o) :
    isBlank c = true ∨ c = '=' ∨ isQuote c = true := by
  cases h with
  | assignment hkw hw hw' hq =>
    simp only [List.mem_append, List.mem_cons, List.not_mem_nil, or_false] at hc
    rcases hc with hc | rfl | hc | rfl
    · exact .inl (hw c hc)
    · exact .inr (.inl rfl)
    · exact .inl (hw' c hc)
    · exact .inr (.inr hq)
  | url hw hq =>
    rcases List.mem_append.1 hc with hc | hc
    · exact .inl (hw c hc)
    · exact .inr (.inr (hq.isQuote_of_mem hc))

/-! ## Where a lead can begin -/

/-- The keys of the letters that keywords begin with. -/
def firstKeys : List Char := ['H', 'S', 'U']

namespace Lead

theorem exists_key (h : Lead k o) (hc : c ∈ k) : ∃ kw ∈ keywords, caseKey c ∈ kw.map caseKey := by
  obtain ⟨kw, s, hop, hk⟩ := h
  exact ⟨kw, hop.mem_keywords, hk ▸ List.mem_map_of_mem hc⟩

theorem exists_cons (h : Lead k o) :
    ∃ c l, k = c :: l ∧ caseKey c ∈ firstKeys ∧ ∀ d ∈ l, caseKey d ∉ firstKeys := by
  obtain ⟨kw, s, hop, hk⟩ := h
  have hkw : ∃ a l, kw.map caseKey = a :: l ∧ a ∈ firstKeys ∧ ∀ b ∈ l, b ∉ firstKeys := by
    have := hop.mem_keywords
    simp only [keywords, List.mem_cons, List.not_mem_nil, or_false] at this
    rcases this with rfl | rfl | rfl
    · exact ⟨'H', ['R', 'E', 'F'], by decide, by decide, by simp [firstKeys]⟩
    · exact ⟨'S', ['R', 'C'], by decide, by decide, by simp [firstKeys]⟩
    · exact ⟨'U', ['R', 'L', '('], by decide, by decide, by simp [firstKeys]⟩
  obtain ⟨a, l, hal, ha, hl⟩ := hkw
  rw [hal, List.map_eq_cons_iff] at hk
  obtain ⟨c, m, rfl, rfl, rfl⟩ := hk
  exact ⟨c, m, rfl, ha, fun d hd => hl _ (List.mem_map_of_mem hd)⟩

theorem caseKey_not_mem (h : Lead k o) (hc : c ∈ o) : caseKey c ∉ firstKeys := by
  obtain ⟨kw, s, hop, -⟩ := h
  rcases hop.mem hc with hblank | rfl | hquote
  · rw [caseKey_of_isBlank hblank]
    intro hmem
    simp only [firstKeys, List.mem_cons, List.not_mem_nil, or_false] at hmem
    rcases hmem with rfl | rfl | rfl <;> revert hblank <;> decide
  · decide
  · rcases isQuote_iff.1 hquote with rfl | rfl <;> decide

theorem slash_not_mem (h : Lead k o) : '/' ∉ k ++ o := by
  intro hmem
  rcases List.mem_append.1 hmem with hk | ho
  · obtain ⟨kw, hkw, hkey⟩ := h.exists_key hk
    have : ∀ kw ∈ keywords, caseKey '/' ∉ kw.map caseKey := by decide
    exact this kw hkw hkey
  · obtain ⟨kw, s, hop, -⟩ := h
    have := hop.mem ho
    revert this
    decide

theorem marked (h : Lead k o) : '=' ∈ k ++ o ∨ '(' ∈ k ++ o := by
  obtain ⟨kw, s, hop, hk⟩ := h
  cases hop with
  | assignment => simp
  | url =>
    have hmem : '(' ∈ k.map caseKey := by
      rw [hk]
      decide
    obtain ⟨c, hc, hkey⟩ := List.mem_map.1 hmem
    rw [eq_of_caseKey_eq hkey (by decide)] at hc
    exact .inr (List.mem_append_left _ hc)

end Lead

/-! ## What may stand behind a lead -/

/-- A text that ends with a slash and has none of the marks in it that stand in every lead. -/
structure IsUnmarked (e : Text) : Prop where
  slash : ∃ b, e = b ++ ['/']
  equals : '=' ∉ e
  parenthesis : '(' ∉ e

/-- Such a text of plain characters, as a folder with its slash is, or what is put in its place. -/
structure IsStart (e : Text) : Prop extends IsUnmarked e where
  plain : ∀ c ∈ e, isBlank c = false ∧ isQuote c = false ∧ c ∉ ")?#".toList

instance IsUnmarked.decidable (e : Text) : Decidable (IsUnmarked e) :=
  decidable_of_iff (['/'] <:+ e ∧ '=' ∉ e ∧ '(' ∉ e)
    ⟨fun ⟨⟨b, hb⟩, h, h'⟩ => ⟨⟨b, hb.symm⟩, h, h'⟩, fun ⟨⟨b, hb⟩, h, h'⟩ => ⟨⟨b, hb.symm⟩, h, h'⟩⟩

instance IsStart.decidable (e : Text) : Decidable (IsStart e) :=
  decidable_of_iff (IsUnmarked e ∧ e.all fun c => !isBlank c && !isQuote c && c ∉ ")?#".toList)
    ⟨fun ⟨h, hall⟩ => ⟨h, by simpa [and_assoc] using hall⟩,
      fun ⟨h, hall⟩ => ⟨h, by simpa [and_assoc] using hall⟩⟩

theorem IsUnmarked.ne_nil (he : IsUnmarked e) : e ≠ [] := by
  obtain ⟨b, rfl⟩ := he.slash
  simp

theorem IsUnmarked.of_suffix (he : IsUnmarked e) (hx : x <:+ e) (hne : x ≠ []) : IsUnmarked x := by
  obtain ⟨b, rfl⟩ := he.slash
  refine ⟨?_, fun hmem => he.equals (hx.subset hmem), fun hmem => he.parenthesis (hx.subset hmem)⟩
  rcases List.suffix_concat_iff.1 hx with rfl | ⟨z, rfl, -⟩
  · exact absurd rfl hne
  · exact ⟨z, rfl⟩

/-- Such a text and a lead do not begin one text. -/
theorem IsUnmarked.apart (he : IsUnmarked e) (h : Lead k o) (hx : e <+: x) : ¬ (k ++ o) <+: x := by
  intro hlead
  obtain ⟨b, rfl⟩ := he.slash
  rcases List.prefix_or_prefix_of_prefix hx hlead with hle | hle
  · exact h.slash_not_mem (hle.subset (by simp))
  · rcases h.marked with hmark | hmark
    · exact he.equals (hle.subset hmark)
    · exact he.parenthesis (hle.subset hmark)

/-- No lead begins behind the first character of a lead with an unmarked text behind it. -/
theorem Lead.apart (h : Lead k o) (h' : Lead k' o') (he : IsUnmarked e) (hne : x ≠ [])
    (hx : x <:+ (k ++ o ++ e).tail) (hy : x <+: y) : ¬ (k' ++ o') <+: y := by
  intro hlead
  obtain ⟨c, l, rfl, -, hl⟩ := h.exists_cons
  obtain ⟨c', l', rfl, hc', -⟩ := h'.exists_cons
  rw [List.cons_append, List.cons_append, List.tail_cons] at hx
  obtain ⟨w, hw⟩ := hx
  rcases List.append_eq_append_iff.1 hw with ⟨z, hz, rfl⟩ | ⟨z, -, hz⟩
  · cases z with
    | nil => exact he.apart h' hy hlead
    | cons d z =>
      -- The first characters of the two differ.
      have hd : caseKey d ∉ firstKeys := by
        have hmem : d ∈ l ++ o := by
          rw [hz]
          simp
        rcases List.mem_append.1 hmem with hk | ho
        · exact hl d hk
        · exact h.caseKey_not_mem ho
      obtain ⟨u, rfl⟩ := hy
      obtain ⟨v, hv⟩ := hlead
      simp only [List.cons_append, List.cons.injEq] at hv
      exact hd (hv.1 ▸ hc')
  · exact (he.of_suffix ⟨z, hz.symm⟩ hne).apart h' hy hlead

/-! ## Reading leads -/

/-- Keywords in any letter case are told apart by their first letters. -/
theorem dropFolded?_keyword (hkw : kw ∈ keywords) (hkw' : kw' ∈ keywords)
    (hk : k.map caseKey = kw.map caseKey) :
    dropFolded? kw' (k ++ r) = if kw' = kw then some r else none := by
  split
  · next heq =>
    rw [dropFolded?_eq_some_iff]
    exact ⟨k, rfl, heq ▸ hk⟩
  · next hne =>
    rw [Option.eq_none_iff_forall_not_mem]
    intro x hx
    obtain ⟨k', heq, hk'⟩ := dropFolded?_eq_some_iff.1 hx
    have hfirst : ∀ kw ∈ keywords, ∀ kw' ∈ keywords,
        (kw.map caseKey).head? = (kw'.map caseKey).head? → kw' = kw := by decide
    have hcons : ∀ kw ∈ keywords, kw.map caseKey ≠ [] := by decide
    refine hne (hfirst kw hkw kw' hkw' ?_)
    rw [← hk, ← hk']
    cases k with
    | nil => exact absurd hk.symm (hcons kw hkw)
    | cons c k =>
      cases k' with
      | nil => exact absurd hk'.symm (hcons kw' hkw')
      | cons c' k' =>
        rw [List.cons_append, List.cons_append, List.cons.injEq] at heq
        rw [List.map_cons, List.map_cons, List.head?_cons, List.head?_cons, heq.1]

theorem assigned?_eq_some_iff :
    assigned? t = some r ↔ ∃ w w' q, (∀ c ∈ w, isBlank c = true) ∧ (∀ c ∈ w', isBlank c = true) ∧
      isQuote q = true ∧ t = w ++ '=' :: (w' ++ q :: r) := by
  constructor
  · intro h
    obtain ⟨w, hw, ht⟩ := exists_blanks t
    unfold assigned? at h
    split at h
    · next u hu =>
      obtain ⟨w', hw', hu'⟩ := exists_blanks u
      split at h
      · next q s hs =>
        split at h
        · next hq =>
          cases h
          exact ⟨w, w', q, hw, hw', hq, by rw [ht, hu, hu', hs]⟩
        · cases h
      · cases h
    · cases h
  · rintro ⟨w, w', q, hw, hw', hq, rfl⟩
    unfold assigned?
    rw [skipBlanks_append hw, skipBlanks_of_not (by decide)]
    simp only [skipBlanks_append hw', skipBlanks_of_not (not_isBlank_of_isQuote hq), hq, if_true]

theorem assigned?_opening (hkw : kw ∈ attributes) (h : Opening kw o s) :
    assigned? (o ++ r) = some r := by
  cases h with
  | assignment _ hw hw' hq =>
    rw [assigned?_eq_some_iff]
    exact ⟨_, _, _, hw, hw', hq, by simp⟩
  | url => exact absurd hkw (by decide)

/-- What follows the keyword of an attribute, or what is a `url(` in any letter case, and the
opening there. -/
def afterLead? (t : Text) : Option Text :=
  (do assigned? (← dropFolded? "href".toList t <|> dropFolded? "src".toList t))
    <|> (dropFolded? "url(".toList t).map fun r => skipQuote (skipBlanks r)

theorem IsStart.skipBlanks_append (he : IsStart e) : skipBlanks (e ++ r) = e ++ r := by
  obtain ⟨c, l, rfl⟩ := List.exists_cons_of_ne_nil he.ne_nil
  exact skipBlanks_of_not (he.plain c List.mem_cons_self).1

theorem skip_append {w : Text} (hw : ∀ c ∈ w, isBlank c = true) (hq : IsMark q)
    (hblank : isBlank c = false) (hquote : isQuote c = false) :
    skipQuote (skipBlanks (w ++ q ++ c :: r)) = c :: r := by
  rw [List.append_assoc, Text.skipBlanks_append hw]
  rcases hq with rfl | ⟨d, hd, rfl⟩
  · rw [List.nil_append, skipBlanks_of_not hblank]
    simp [skipQuote, hquote]
  · rw [List.singleton_append, skipBlanks_of_not (not_isBlank_of_isQuote hd)]
    simp [skipQuote, hd]

theorem IsStart.skip_append {w : Text} (he : IsStart e) (hw : ∀ c ∈ w, isBlank c = true)
    (hq : IsMark q) : skipQuote (skipBlanks (w ++ q ++ (e ++ r))) = e ++ r := by
  obtain ⟨c, l, rfl⟩ := List.exists_cons_of_ne_nil he.ne_nil
  obtain ⟨hblank, hquote, -⟩ := he.plain c List.mem_cons_self
  exact Reference.skip_append hw hq hblank hquote

theorem Lead.afterLead?_eq (h : Lead k o) (he : IsStart e) :
    afterLead? (k ++ o ++ (e ++ r)) = some (e ++ r) := by
  obtain ⟨kw, s, hop, hk⟩ := h
  have hread (kw' : Text) (hkw' : kw' ∈ keywords) :=
    dropFolded?_keyword (r := o ++ (e ++ r)) hop.mem_keywords hkw' hk
  rw [List.append_assoc]
  simp only [afterLead?, hread _ (show "href".toList ∈ keywords by decide),
    hread _ (show "src".toList ∈ keywords by decide),
    hread _ (show "url(".toList ∈ keywords by decide)]
  cases hop with
  | assignment hkw hw hw' hq =>
    have hassigned := assigned?_opening (r := e ++ r) hkw (.assignment hkw hw hw' hq)
    simp only [attributes, List.mem_cons, List.not_mem_nil, or_false] at hkw
    rcases hkw with rfl | rfl <;> simpa using hassigned
  | url hw hq => simpa using he.skip_append hw hq

/-- Behind a lead at the front of a text stands one thing. -/
theorem Lead.unique (h : Lead k o) (h' : Lead k' o') (he : IsStart e) (he' : IsStart e')
    (heq : k ++ o ++ (e ++ x) = k' ++ o' ++ (e' ++ y)) : e ++ x = e' ++ y := by
  have hread := h.afterLead?_eq (r := x) he
  rw [heq, h'.afterLead?_eq he'] at hread
  exact (Option.some.inj hread).symm

/-! ## Patterns whose matches begin with leads -/

/-- Every match begins with a lead. -/
def LedBy (p : Pattern Text) : Prop :=
  ∀ t v r, p.read? t = some (v, r) → ∃ k o, Lead k o ∧ (k ++ o) <+: t

variable {p : Pattern Text}

theorem IsUnmarked.barren (he : IsUnmarked e) (hp : LedBy p) : p.Barren e t := by
  intro u hne hu
  rw [Option.eq_none_iff_forall_not_mem]
  rintro ⟨v, r⟩ hread
  obtain ⟨k, o, hlead, hle⟩ := hp _ v r hread
  exact (he.of_suffix hu hne).apart hlead (List.prefix_append u t) hle

theorem LedBy.barren (hp : LedBy p) (h : Lead k o) (he : IsUnmarked e) :
    p.Barren (k ++ o ++ e).tail t := by
  intro u hne hu
  rw [Option.eq_none_iff_forall_not_mem]
  rintro ⟨v, r⟩ hread
  obtain ⟨k', o', hlead, hle⟩ := hp _ v r hread
  exact h.apart hlead he hne hu (List.prefix_append u t) hle

theorem LedBy.barren_of_none (hp : LedBy p) (h : Lead k o) (he : IsUnmarked e)
    (hnone : p.read? (k ++ o ++ e ++ t) = none) : p.Barren (k ++ o ++ e) t := by
  have htail := hp.barren (t := t) h he
  obtain ⟨c, l, rfl, -⟩ := h.exists_cons
  exact Pattern.barren_cons.2 ⟨hnone, htail⟩

/-- Where matches are replaced by texts that begin with leads, a lead with an unmarked text behind
it stood there before, unless the replacement begins with it. -/
theorem prefix_of_prefix_replace {f : Text → Text}
    (hf : ∀ t v r, p.read? t = some (v, r) → ∃ k o, Lead k o ∧ (k ++ o) <+: f v)
    (h : Lead k o) (he : IsUnmarked e) (hx : (k ++ o ++ e) <+: c :: p.replace f t) :
    (k ++ o ++ e) <+: c :: t := by
  obtain ⟨d, l, rfl, -⟩ := h.exists_cons
  rw [List.cons_append, List.cons_append, List.cons_prefix_cons] at hx ⊢
  refine ⟨hx.1, p.prefix_of_prefix_replace hx.2 ?_⟩
  intro u hne hu t' v r hread z hle
  obtain ⟨k', o', hlead, hfv⟩ := hf t' v r hread
  refine h.apart hlead he hne hu hle ?_
  exact hfv.trans (List.prefix_append _ z)

end Pagefold.Reference
