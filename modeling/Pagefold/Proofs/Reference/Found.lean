import Pagefold.Proofs.Reference.Lead
import Pagefold.Proofs.Text.Ascending

/-!
# Where references are found

* `Reference.attribute?_eq_some_iff`, `Reference.exists_of_url?`: the leads in front of references;
* `Reference.exists_lead_of_mem_all`: a reference with a known start stands behind a lead;
* `Reference.mem_locals`: the local references.
-/

namespace Pagefold

namespace Reference

open Text

variable {e r rest t u v w : Text}

/-! ## Values -/

theorem bare_prefix_self (r : Text) : bare r <+: r := List.takeWhile_prefix _

theorem mem_locals : w ∈ locals t ↔ ∃ r ∈ all t, classify r = .file ∧ bare r = w := by
  rw [locals, mem_sortedUnique, List.mem_map]
  simp only [List.mem_filter, decide_eq_true_eq, and_assoc]

theorem prefix_of_quotedValue? (h : quotedValue? r = some (v, rest)) : v <+: r := by
  unfold quotedValue? at h
  split at h
  · next hv _ =>
    cases h
    rw [← hv]
    exact List.takeWhile_prefix _
  · cases h

theorem prefix_of_urlValue? (h : urlValue? r = some (v, rest)) : v <+: r := by
  unfold urlValue? at h
  split at h
  · next hv _ =>
    cases h
    rw [← hv]
    exact List.takeWhile_prefix _
  · cases h

theorem attribute?_eq_some_iff :
    attribute? t = some (v, rest) ↔ ∃ k o kw r, kw ∈ attributes ∧ Opening kw o o ∧
      k.map caseKey = kw.map caseKey ∧ t = k ++ o ++ r ∧ quotedValue? r = some (v, rest) := by
  have hkeyword (u : Text) :
      (dropFolded? "href".toList t <|> dropFolded? "src".toList t) = some u ↔
        ∃ kw ∈ attributes, ∃ k, t = k ++ u ∧ k.map caseKey = kw.map caseKey := by
    constructor
    · intro h
      rw [Option.orElse_eq_orElse, Option.orElse_eq_or, Option.or_eq_some_iff,
        dropFolded?_eq_some_iff, dropFolded?_eq_some_iff] at h
      rcases h with h | ⟨-, h⟩
      · exact ⟨_, by decide, h⟩
      · exact ⟨_, by decide, h⟩
    · rintro ⟨kw, hkw, k, rfl, hk⟩
      have hmem : ∀ kw ∈ attributes, kw ∈ keywords := by decide
      rw [dropFolded?_keyword (hmem kw hkw) (by decide) hk,
        dropFolded?_keyword (hmem kw hkw) (by decide) hk]
      simp only [attributes, List.mem_cons, List.not_mem_nil, or_false] at hkw
      rcases hkw with rfl | rfl <;> rfl
  simp only [attribute?, Option.bind_eq_bind, Option.bind_eq_some_iff, hkeyword]
  constructor
  · rintro ⟨u, ⟨kw, hkw, k, rfl, hk⟩, r, hr, hvalue⟩
    obtain ⟨w, w', q, hw, hw', hq, rfl⟩ := assigned?_eq_some_iff.1 hr
    exact ⟨k, _, kw, r, hkw, .assignment hkw hw hw' hq, hk, by simp, hvalue⟩
  · rintro ⟨k, o, kw, r, hkw, hop, hk, rfl, hvalue⟩
    exact ⟨o ++ r, ⟨kw, hkw, k, by simp, hk⟩, r, assigned?_opening hkw hop, hvalue⟩

/-- A match of a `url(...)` starts with the keyword; its value is what follows the opening, or it
starts with a blank. -/
theorem exists_of_url? (h : url? t = some (v, rest)) :
    ∃ k r, k.map caseKey = "url(".toList.map caseKey ∧ t = k ++ r ∧
      (urlValue? (skipQuote (skipBlanks r)) = some (v, rest) ∨
        ∃ b, isBlank b = true ∧ urlValue? (b :: skipBlanks r) = some (v, rest)) := by
  simp only [url?, Option.bind_eq_bind, Option.bind_eq_some_iff] at h
  obtain ⟨r, hr, h⟩ := h
  obtain ⟨k, rfl, hk⟩ := dropFolded?_eq_some_iff.1 hr
  refine ⟨k, r, hk, rfl, ?_⟩
  rw [Option.orElse_eq_orElse, Option.orElse_eq_or, Option.or_eq_some_iff] at h
  rcases h with h | ⟨-, h⟩
  · exact .inl h
  · obtain ⟨b, hb, h⟩ := Option.bind_eq_some_iff.1 h
    have hblank := List.all_eq_true.1 List.all_takeWhile b (List.mem_of_getLast? hb)
    exact .inr ⟨b, hblank, h⟩

theorem exists_mark (t : Text) : ∃ q, IsMark q ∧ t = q ++ skipQuote t := by
  cases t with
  | nil => exact ⟨[], .inl rfl, rfl⟩
  | cons c t =>
    rw [skipQuote]
    split
    · next hc => exact ⟨[c], .inr ⟨c, hc, rfl⟩, rfl⟩
    · exact ⟨[], .inl rfl, rfl⟩

/-! ## Leads in front of references -/

theorem ledBy_attributeValue : LedBy attributeValue := by
  intro t v r hread
  obtain ⟨k, o, kw, r, -, hop, hk, rfl, -⟩ := attribute?_eq_some_iff.1 hread
  exact ⟨k, o, ⟨kw, o, hop, hk⟩, List.prefix_append _ r⟩

theorem ledBy_urlValue : LedBy urlValue := by
  intro t v r hread
  obtain ⟨k, r, hk, rfl, -⟩ := exists_of_url? hread
  have hopen : Opening "url(".toList ([] ++ []) [] := .url (by simp) (.inl rfl)
  exact ⟨k, [], ⟨_, _, hopen, hk⟩, by simp⟩

/-- A reference that starts like a folder stands behind a lead. -/
theorem exists_lead_of_mem_all (h : v ∈ all t) (he : IsStart e) (hv : e <+: v) :
    ∃ u k o, u <:+ t ∧ Lead k o ∧ (k ++ o ++ e) <+: u := by
  rcases List.mem_append.1 h with h | h
  · obtain ⟨u, rest, hu, hread⟩ := attributeValue.exists_read_of_mem_hits h
    obtain ⟨k, o, kw, r, -, hop, hk, rfl, hvalue⟩ := attribute?_eq_some_iff.1 hread
    refine ⟨_, k, o, hu, ⟨kw, o, hop, hk⟩, ?_⟩
    rw [List.prefix_append_right_inj]
    exact hv.trans (prefix_of_quotedValue? hvalue)
  · obtain ⟨u, rest, hu, hread⟩ := urlValue.exists_read_of_mem_hits h
    obtain ⟨k, r, hk, rfl, hvalue | ⟨b, hb, hvalue⟩⟩ := exists_of_url? hread
    · obtain ⟨w, hw, hr⟩ := exists_blanks r
      obtain ⟨q, hq, hs⟩ := exists_mark (skipBlanks r)
      refine ⟨_, k, w ++ q, hu, ⟨_, q, .url hw hq, hk⟩, ?_⟩
      have hsplit : k ++ r = k ++ (w ++ q) ++ skipQuote (skipBlanks r) := by
        conv_lhs => rw [hr, hs]
        simp
      rw [hsplit, List.prefix_append_right_inj]
      exact hv.trans (prefix_of_urlValue? hvalue)
    · -- No folder starts with a blank.
      have hle := hv.trans (prefix_of_urlValue? hvalue)
      obtain ⟨c, l, rfl⟩ := List.exists_cons_of_ne_nil he.ne_nil
      rw [List.cons_prefix_cons] at hle
      have hplain := (he.plain c List.mem_cons_self).1
      rw [hle.1, hb] at hplain
      cases hplain

end Reference

end Pagefold
