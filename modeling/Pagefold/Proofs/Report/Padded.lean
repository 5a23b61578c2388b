import Pagefold.Proofs.Reference.Aligned
import Pagefold.Proofs.Report.Findings

/-!
# Blanks around the values of `url(...)`

The value of a `url(...)` may stand in quotes, and blanks may stand around it. Those in front of it
are no part of the reference, and neither are those behind a closing quote. A value without quotes
goes on to the closing parenthesis, so it has the blanks in front of that for its end.

* `Reference.hits_attributeValue_eq_nil`: an attribute needs an equals sign and two quotes behind
  it;
* `Reference.urlValue?_append`, `Reference.url?_append`: a value and what stands around it;
* `Reference.IsPlainValue`, `Reference.padded`, `Reference.all_padded`: the one reference of a plain
  value with blanks around it;
* `Report.check_padded`: when it is the value alone, and a check looks for that file.
-/

namespace Pagefold

namespace Reference

open Text

variable {a b k q r rest t u v w w' : Text} {c : Char}

/-! ## Texts without attributes -/

theorem exists_quote_of_quotedValue? (h : quotedValue? t = some (v, rest)) :
    ∃ c, isQuote c = true ∧ t = v ++ c :: rest := by
  unfold quotedValue? at h
  split at h
  · next c v' d rest' hv hd =>
    cases h
    have hquote := List.head?_dropWhile_not (!isQuote ·) t
    rw [hd] at hquote
    have hsplit : t.takeWhile (!isQuote ·) ++ t.dropWhile (!isQuote ·) = t :=
      List.takeWhile_append_dropWhile
    rw [hv, hd] at hsplit
    exact ⟨d, by simpa using hquote, hsplit.symm⟩
  · cases h

theorem exists_of_attribute? (h : attribute? t = some (v, rest)) :
    ∃ x z, t = x ++ '=' :: z ∧ 2 ≤ z.countP isQuote := by
  obtain ⟨k, o, kw, r, hkw, hopening, -, rfl, hvalue⟩ := attribute?_eq_some_iff.1 h
  obtain ⟨w, w', c, -, -, hc, hassigned⟩ :=
    assigned?_eq_some_iff.1 (assigned?_opening (r := r) hkw hopening)
  obtain ⟨d, hd, rfl⟩ := exists_quote_of_quotedValue? hvalue
  refine ⟨k ++ w, w' ++ c :: (v ++ d :: rest), ?_, ?_⟩
  · rw [List.append_assoc, hassigned, List.append_assoc]
  · simp only [List.countP_append, List.countP_cons_of_pos hc, List.countP_cons_of_pos hd]
    omega

/-- No attribute is found where at most one quote stands behind the first equals sign. -/
theorem hits_attributeValue_eq_nil (ha : '=' ∉ a) (hb : b.countP isQuote ≤ 1) :
    attributeValue.hits (a ++ b) = [] := by
  rw [List.eq_nil_iff_forall_not_mem]
  intro v hv
  obtain ⟨u, rest, ⟨y, hy⟩, hread⟩ := attributeValue.exists_read_of_mem_hits hv
  obtain ⟨x, z, rfl, hz⟩ := exists_of_attribute? hread
  rw [← List.append_assoc] at hy
  have hle : z.countP isQuote ≤ b.countP isQuote := by
    rcases List.append_eq_append_iff.1 hy with ⟨m, rfl, hm⟩ | ⟨m, -, rfl⟩
    · cases m with
      | nil =>
        rw [List.nil_append] at hm
        rw [← hm]
        exact (List.sublist_cons_self _ z).countP_le
      | cons d m =>
        -- The equals sign would stand in the first part.
        obtain ⟨rfl, -⟩ := List.cons.inj hm
        exact absurd (List.mem_append_right _ List.mem_cons_self) ha
    · rw [List.countP_append, List.countP_cons]
      omega
  omega

/-! ## Values and what stands around them -/

/-- A value goes on up to its closing quote, or to the closing parenthesis if it has no quote. -/
theorem urlValue?_append (hne : v ≠ []) (hv : ∀ c ∈ v, isUrlChar c = true) (hq : IsMark q)
    (hw : Blanks w) (hend : q = [] → w = []) :
    urlValue? (v ++ (q ++ (w ++ ')' :: rest))) = some (v, rest) := by
  have hclosing : closing? (w ++ ')' :: rest) = some rest := by
    have hskip : skipBlanks (w ++ ')' :: rest) = ')' :: rest := by
      rw [skipBlanks_append hw, skipBlanks_of_not (by decide)]
    simp only [closing?, hskip]
  -- Behind the value stands a character that no value has, and it is skipped if it is a quote.
  have hstop : ∃ d s, q ++ (w ++ ')' :: rest) = d :: s ∧ isUrlChar d = false ∧
      skipQuote (d :: s) = w ++ ')' :: rest := by
    rcases hq with rfl | ⟨c, hc, rfl⟩
    · rw [hend rfl]
      exact ⟨')', rest, rfl, rfl, rfl⟩
    · refine ⟨c, w ++ ')' :: rest, rfl, ?_, ?_⟩
      · rw [isUrlChar, hc, Bool.not_true, Bool.and_false]
      · rw [skipQuote, if_pos hc]
  obtain ⟨d, s, heq, hd, hquote⟩ := hstop
  rw [← Bool.not_eq_true] at hd
  rw [heq, urlValue?_eq, List.takeWhile_append_of_pos hv, List.dropWhile_append_of_pos hv,
    List.takeWhile_cons_of_neg hd, List.dropWhile_cons_of_neg hd, List.append_nil, if_neg hne,
    hquote, hclosing, Option.map_some]

theorem url?_append (hk : k.map caseKey = "url(".toList.map caseKey) (hw : Blanks w)
    (hq : IsMark q) (hblank : isBlank c = false) (hquote : isQuote c = false)
    (hvalue : urlValue? (c :: t) = some (v, rest)) :
    url? (k ++ (w ++ q ++ c :: t)) = some (v, rest) := by
  have hread : dropFolded? "url(".toList (k ++ (w ++ q ++ c :: t)) = some (w ++ q ++ c :: t) :=
    dropFolded?_eq_some_iff.2 ⟨k, rfl, hk⟩
  have hskip : skipQuote (skipBlanks (w ++ q ++ c :: t)) = c :: t :=
    skip_append hw hq hblank hquote
  simp only [url?, Option.bind_eq_bind, hread, Option.bind_some, hskip, hvalue]
  rfl

/-! ## Plain values with blanks around them -/

/-- A value that has no blank, no quote and no parenthesis in it. -/
structure IsPlainValue (v : Text) : Prop where
  ne_nil : v ≠ []
  plain : ∀ c ∈ v, isBlank c = false ∧ isQuote c = false ∧ c ∉ "()".toList

/-- A `url(...)` with blanks around its value, which stands between two quotes or without any. -/
def padded (w q v w' : Text) : Text :=
  "url(".toList ++ (w ++ q ++ (v ++ (q ++ (w' ++ [')']))))

theorem IsPlainValue.isUrlChar (hv : IsPlainValue v) (hc : c ∈ v) : isUrlChar c = true := by
  obtain ⟨-, hquote, hparenthesis⟩ := hv.plain c hc
  refine isSpan_url.other c hquote ?_
  rintro rfl
  exact absurd hparenthesis (by decide)

theorem IsMark.countP_le (hq : IsMark q) : q.countP isQuote ≤ 1 := by
  rcases hq with rfl | ⟨c, hc, rfl⟩
  · exact Nat.zero_le 1
  · exact List.countP_le_length

section Padded

variable (hv : IsPlainValue v) (hw : Blanks w) (hw' : Blanks w') (hq : IsMark q)

include hv hw hw' hq

/-- There is one quote behind the value at most, and no equals sign in front of it. -/
theorem hits_attributeValue_padded : attributeValue.hits (padded w q v w') = [] := by
  have hequals : '=' ∉ "url(".toList ++ (w ++ q) := by
    rw [List.mem_append, List.mem_append, not_or, not_or]
    refine ⟨by decide, hw.not_mem (by decide), fun hmem => ?_⟩
    have hquote := hq.isQuote_of_mem hmem
    cases hquote
  have hvalue : v.countP isQuote = 0 :=
    List.countP_eq_zero.2 fun c hc => Bool.eq_false_iff.1 (hv.plain c hc).2.1
  have hblanks : w'.countP isQuote = 0 :=
    List.countP_eq_zero.2 fun c hc => by simpa using isSpan_attribute.of_isBlank (hw' c hc)
  have hmark : q.countP isQuote ≤ 1 := hq.countP_le
  have hclose : [')'].countP isQuote = 0 := rfl
  -- An equals sign can only stand in the value, and behind that is the second quote alone.
  rw [padded, ← List.append_assoc]
  refine hits_attributeValue_eq_nil hequals ?_
  rw [List.countP_append, List.countP_append, List.countP_append]
  omega

/-- The value is read alone, or without quotes together with all blanks behind it. -/
theorem url?_padded : url? (padded w q v w') = some (if q = [] then v ++ w' else v, []) := by
  have hread : urlValue? (v ++ (q ++ (w' ++ [')'])))
      = some (if q = [] then v ++ w' else v, []) := by
    rcases hq with rfl | ⟨c, hc, rfl⟩
    · have hall : ∀ c ∈ v ++ w', isUrlChar c = true := by
        intro c hc
        rcases List.mem_append.1 hc with hc | hc
        · exact hv.isUrlChar hc
        · exact isSpan_url.of_isBlank (hw' c hc)
      have hne : v ++ w' ≠ [] := List.append_ne_nil_of_left_ne_nil hv.ne_nil w'
      have hvalue : urlValue? (v ++ w' ++ ([] ++ ([] ++ [')']))) = some (v ++ w', []) :=
        urlValue?_append hne hall (.inl rfl) (by simp [Blanks]) fun _ => rfl
      rw [if_pos rfl, List.nil_append, ← List.append_assoc]
      exact hvalue
    · rw [if_neg (List.cons_ne_nil c [])]
      exact urlValue?_append hv.ne_nil (fun _ => hv.isUrlChar) (.inr ⟨c, hc, rfl⟩) hw' nofun
  obtain ⟨c, l, rfl⟩ := List.exists_cons_of_ne_nil hv.ne_nil
  obtain ⟨hblank, hquote, -⟩ := hv.plain c List.mem_cons_self
  exact url?_append rfl hw hq hblank hquote hread

/-- There is one reference. -/
theorem all_padded : all (padded w q v w') = [if q = [] then v ++ w' else v] := by
  have hurl : urlValue.read? (padded w q v w') = some (if q = [] then v ++ w' else v, []) :=
    url?_padded hv hw hw' hq
  rw [all, hits_attributeValue_padded hv hw hw' hq, Pattern.hits_of_some _ hurl, Pattern.hits_nil,
    List.nil_append]

end Padded

end Reference

namespace Report

open Text
open Reference (IsMark IsPlainValue all bare isQuote padded all_padded)

variable {q v w w' : Text}

/-- A check that finds each reference has no missing files to tell of. -/
theorem missingAssets_not_mem_check {d : Disk} {roots : AssetRoots} {t : Text}
    (h : ∀ r ∈ all t, roots.resolves d (bare r) = true) (assets : List Text) :
    .missingAssets assets ∉ (check d roots t).findings := by
  intro hmem
  cases mem_check_iff.1 hmem with
  | missing hne hassets =>
    obtain ⟨r, rs, rfl⟩ := List.exists_cons_of_ne_nil hne
    obtain ⟨⟨v, hv, -, rfl⟩, -, hresolves⟩ := (hassets r).1 List.mem_cons_self
    rw [h v hv] at hresolves
    cases hresolves

/-- A plain value of `url(...)` is its only reference if it stands in quotes or has no blanks behind
it, and then a check that finds this file tells of no missing one. Otherwise the blanks behind the
value belong to the reference. -/
theorem check_padded (hv : IsPlainValue v) (hw : Blanks w) (hw' : Blanks w') (hq : IsMark q) :
    (all (padded w q v w') = [v] ↔ q ≠ [] ∨ w' = []) ∧
    (q ≠ [] ∨ w' = [] → ∀ (d : Disk) (roots : AssetRoots), roots.resolves d (bare v) = true →
      ∀ assets, .missingAssets assets ∉ (check d roots (padded w q v w')).findings) ∧
    (q = [] → all (padded w q v w') = [v ++ w']) := by
  have hall := all_padded hv hw hw' hq
  have hiff : all (padded w q v w') = [v] ↔ q ≠ [] ∨ w' = [] := by
    rw [hall, List.cons.injEq, and_iff_left rfl]
    split
    · next hnil => simp [hnil]
    · next hne => simp [hne]
  refine ⟨hiff, fun hend d roots hresolves => ?_, fun hnil => by rw [hall, if_pos hnil]⟩
  refine missingAssets_not_mem_check fun r hr => ?_
  rw [hiff.2 hend, List.mem_singleton] at hr
  rw [hr, hresolves]

/-- Quotes keep the blanks out, and without quotes those behind the value stay. -/
theorem check_padded_of_quoted :
    let v := "a.png?v=1".toList
    let behind := "\n\t".toList
    IsPlainValue v ∧ Blanks [' '] ∧ Blanks behind ∧ IsMark ['"'] ∧ IsMark [] ∧
    all (padded [' '] ['"'] v behind) = [v] ∧
    (∀ (d : Disk) (roots : AssetRoots), roots.resolves d "a.png".toList = true →
      ∀ assets, .missingAssets assets ∉ (check d roots (padded [' '] ['"'] v behind)).findings) ∧
    all (padded [' '] [] v behind) = [v ++ behind] := by
  intro v behind
  have hv : IsPlainValue v := ⟨by decide, by simp [v, isBlank, isQuote]⟩
  have hfront : Blanks [' '] := by simp [Blanks, isBlank]
  have hbehind : Blanks behind := by simp [behind, Blanks, isBlank]
  have hquote : IsMark ['"'] := .inr ⟨'"', rfl, rfl⟩
  obtain ⟨hiff, hcheck, -⟩ := check_padded hv hfront hbehind hquote
  obtain ⟨-, -, hplain⟩ := check_padded hv hfront hbehind (.inl rfl)
  have hne : ['"'] ≠ [] ∨ behind = [] := .inl (List.cons_ne_nil _ _)
  exact ⟨hv, hfront, hbehind, hquote, .inl rfl, hiff.2 hne, hcheck hne, hplain rfl⟩

def pictureSite : Disk := ⟨⟨[(["a.png".toList], .file "x".toUTF8)]⟩, []⟩

/-- The picture is there, and a check looks for a file with a blank at the end of its name. -/
theorem blank_behind_value :
    let roots : AssetRoots := ⟨⟨['/']⟩, ⟨['/']⟩, none, [], none⟩
    let t := padded [] [] "a.png".toList [' ']
    all t ≠ ["a.png".toList] ∧ roots.resolves pictureSite (bare "a.png".toList) = true ∧
      .missingAssets ["a.png ".toList] ∈ (check pictureSite roots t).findings := by
  intro roots t
  have hall : all t = ["a.png ".toList] := rfl
  have hasset : assetFinding? pictureSite roots t = some (.missingAssets ["a.png ".toList]) := rfl
  refine ⟨by rw [hall]; decide, rfl, List.mem_append_right _ ?_⟩
  rw [hasset]
  exact List.mem_singleton_self _

end Report

end Pagefold
