import Pagefold.Proofs.Reference.Found
import Pagefold.Proofs.Reference.Redirect

/-!
# References that redirecting leaves

References are found with keywords in any letter case, and redirected with keywords in lower case
only.

* `Reference.Overlooked`: a reference under a folder with a keyword that is not in lower case;
* `Reference.redirect_leftover`: no other reference under the folder is left.
-/

namespace Pagefold.Reference

open Text

variable {dir k kw o o' r s start t : Text}

/-- A keyword that is not in lower case stands in front of the folder, with an opening between. -/
def Overlooked (dir t : Text) : Prop :=
  ∃ k o, Lead k o ∧ k ∉ keywords ∧ (k ++ o ++ (dir ++ ['/'])) <:+: t

theorem eq_of_map_caseKey (hkw : kw ∈ keywords) (hk : k ∈ keywords)
    (h : k.map caseKey = kw.map caseKey) : k = kw := by
  have : ∀ kw ∈ keywords, ∀ k ∈ keywords, k.map caseKey = kw.map caseKey → k = kw := by decide
  exact this kw hkw k hk h

theorem prefix_of_common (hdir : '/' ∉ dir) (hstart : IsStart start) {x y : Text}
    (h : dir ++ ['/'] ++ x = start ++ y) : (dir ++ ['/']) <+: start := by
  rcases List.prefix_or_prefix_of_prefix ⟨x, h⟩ (List.prefix_append start y) with hle | ⟨z, hz⟩
  · exact hle
  · obtain ⟨b, rfl⟩ := hstart.slash
    rcases List.eq_nil_or_concat z with rfl | ⟨z, c, rfl⟩
    · exact ⟨[], by rw [List.append_nil, ← hz, List.append_nil]⟩
    · -- A slash in the name.
      rw [List.concat_eq_append, ← List.append_assoc] at hz
      have hname := (List.append_inj' hz rfl).1
      exact absurd (hname ▸ by simp) hdir

theorem Overlooked.of_suffix {u : Text} (h : Overlooked dir u) (hu : u <:+ t) : Overlooked dir t := by
  obtain ⟨k, o, hlead, hk, hin⟩ := h
  exact ⟨k, o, hlead, hk, hin.trans hu.isInfix⟩

/-- A folder behind a lead that is not read as one has a keyword in other letter case. -/
theorem overlooked_of_read?_eq_none (hdir : IsFolderName dir) (hlead : Lead k o)
    (hle : (k ++ o ++ (dir ++ ['/'])) <+: t) (hnone : (referenceStart dir).read? t = none) :
    Overlooked dir t := by
  refine ⟨k, o, hlead, ?_, hle.isInfix⟩
  intro hk
  obtain ⟨kw, s, hop, hkey⟩ := hlead
  obtain rfl := eq_of_map_caseKey hop.mem_keywords hk hkey
  obtain ⟨z, hz⟩ := hle
  have hsome := (referenceStart?_eq_some_iff hdir).2 ⟨k, o, s, hop, hz.symm, rfl⟩
  exact absurd (hnone.symm.trans hsome) (by simp)

/-- Where a reference was redirected, the folder stands behind no lead. -/
theorem not_prefix_of_redirected (hdir : IsFolderName dir) (hstart : IsStart start)
    (hapart : ¬ (dir ++ ['/']) <+: start) (hlead : Lead k o) (hop : Opening kw o' s) (x : Text) :
    ¬ (k ++ o ++ (dir ++ ['/'])) <+: kw ++ s ++ start ++ x := by
  rintro ⟨z, hz⟩
  rw [List.append_assoc, List.append_assoc (kw ++ s)] at hz
  have hsame := hlead.unique hop.shown.lead hdir.isStart hstart hz
  exact hapart (prefix_of_common hdir.slash_not_mem hstart hsame)

theorem redirect_leftover (hdir : IsFolderName dir) (hstart : IsStart start)
    (hapart : ¬ (dir ++ ['/']) <+: start) (hr : r ∈ locals (redirect dir start t))
    (hle : (dir ++ ['/']) <+: r) : Overlooked dir t := by
  obtain ⟨v, hv, -, rfl⟩ := mem_locals.1 hr
  obtain ⟨u, k, o, hu, hlead, hpre⟩ :=
    exists_lead_of_mem_all hv hdir.isStart (hle.trans (bare_prefix_self v))
  rw [redirect_eq hdir hstart.toIsUnmarked] at hu
  have hreplaced : ∀ t v r, (referenceStart dir).read? t = some (v, r) →
      ∃ k o, Lead k o ∧ (k ++ o) <+: v ++ start := by
    intro t v r hread
    obtain ⟨kw, o, s, hop, -, rfl⟩ := (referenceStart?_eq_some_iff hdir).1 hread
    exact ⟨kw, s, hop.shown.lead, List.prefix_append _ start⟩
  rcases (referenceStart dir).suffix_replace hu with
    ⟨t', ht', rfl⟩ | ⟨t', v', r, x, y, -, hread, hxy, hx, hy, rfl⟩
  · cases t' with
    | nil =>
      -- Nothing starts with the folder.
      have := hpre.length_le
      simp at this
    | cons c t' =>
      cases hread : (referenceStart dir).read? (c :: t') with
      | none =>
        rw [(referenceStart dir).replace_of_none hread] at hpre
        have hbefore := prefix_of_prefix_replace hreplaced hlead hdir.isStart.toIsUnmarked hpre
        exact (overlooked_of_read?_eq_none hdir hlead hbefore hread).of_suffix ht'
      | some m =>
        obtain ⟨v', r⟩ := m
        rw [(referenceStart dir).replace_of_some hread] at hpre
        obtain ⟨kw, o', s, hop, -, rfl⟩ := (referenceStart?_eq_some_iff hdir).1 hread
        exact absurd hpre (not_prefix_of_redirected hdir hstart hapart hlead hop _)
  · -- Behind the first character of a replacement no lead begins.
    obtain ⟨kw, o', s, hop, -, rfl⟩ := (referenceStart?_eq_some_iff hdir).1 hread
    have hy' : y <:+ (kw ++ s ++ start).tail := by
      obtain ⟨c, x, rfl⟩ := List.exists_cons_of_ne_nil hx
      rw [hxy]
      exact List.suffix_append x y
    exact absurd ((List.prefix_append _ _).trans hpre)
      (hop.shown.lead.apart hlead hstart.toIsUnmarked hy hy' (List.prefix_append y _))

theorem redirect_leftover_of_capitals :
    Overlooked "assets".toList "<link HREF=\"assets/a.css\">".toList := by
  have hlocal : "assets/a.css".toList ∈
      locals (redirect "assets".toList "p/".toList "<link HREF=\"assets/a.css\">".toList) := by
    decide
  exact redirect_leftover (by decide) (by decide) (by decide) hlocal (by decide)

/-- So redirecting can leave a reference under the folder. -/
theorem redirect_leaves_capitals :
    ∃ r ∈ locals (redirect "assets".toList "p/".toList "<link HREF=\"assets/a.css\">".toList),
      "assets/".toList <+: r :=
  ⟨"assets/a.css".toList, by decide, by decide⟩

end Pagefold.Reference
