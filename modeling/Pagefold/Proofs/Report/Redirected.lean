import Pagefold.Proofs.Reference.Aligned
import Pagefold.Report

/-!
# Checking a redirected document

A redirected reference leads to the asset folder, so nothing is missing that was there.

* `Reference.classify_under`: a reference that starts with the asset folder is local;
* `Path.join_join`: the asset folder, and what is in it, from the folder of the source;
* `AssetRoots.resolves_append`: where a redirected reference leads;
* `Report.check_redirect`: redirecting makes the check find no missing asset.
-/

namespace Pagefold

open Text

variable {dir start v w x : Text}

/-! ## References under the asset folder -/

namespace Reference

theorem bare_append (hstart : IsStart start) : bare (start ++ v) = start ++ bare v := by
  refine List.takeWhile_append_of_pos fun c hc => ?_
  obtain ⟨-, -, hmark⟩ := hstart.plain c hc
  have hc' : c ≠ '?' ∧ c ≠ '#' := by
    constructor <;> rintro rfl <;> exact hmark (by decide)
  simp [hc'.1, hc'.2]

theorem trim_append (hstart : IsStart start) (v : Text) : ∃ y, trim (start ++ v) = start ++ y := by
  obtain ⟨b, hb⟩ := hstart.slash
  have hslash : isBlank '/' = false := by decide
  have hskip : skipBlanks (start ++ v) = start ++ v := hstart.skipBlanks_append
  have hreverse : start.reverse = '/' :: b.reverse := by rw [hb]; simp
  rw [trim, hskip, List.reverse_append]
  cases hv : skipBlanks v.reverse with
  | nil =>
    obtain ⟨w, hw, heq⟩ := exists_blanks v.reverse
    rw [hv, List.append_nil] at heq
    refine ⟨[], ?_⟩
    rw [heq, skipBlanks_append hw, hreverse, skipBlanks_of_not hslash, ← hreverse]
    simp
  | cons c r =>
    refine ⟨(c :: r).reverse, ?_⟩
    rw [skipBlanks_append_of_ne_nil (by simp [hv]), hv]
    simp

theorem isNameChar_toLower {c : Char} (h : isNameChar c = true) : isNameChar c.toLower = true := by
  have hall : ∀ n < 123, isNameChar (Char.ofNat n) = true →
      isNameChar (Char.ofNat n).toLower = true := by decide
  have := hall c.toNat (Nat.lt_succ_of_le (toNat_of_isNameChar h).2)
  rw [Char.ofNat_toNat] at this
  exact this h

theorem IsFolderName.lowerAscii (h : IsFolderName dir) : IsFolderName (lowerAscii dir) := by
  refine ⟨by simpa [Text.lowerAscii] using h.ne_nil, fun c hc => ?_⟩
  obtain ⟨d, hd, rfl⟩ := List.mem_map.1 hc
  exact isNameChar_toLower (h.named d hd)

/-- What external references start with is a slash, or has a colon in front of its slashes. -/
theorem not_external (hdir : IsFolderName dir) (v : Text) :
    externalStarts.any (beginsWith · (dir ++ '/' :: v)) = false := by
  have hstarts : ∀ s ∈ externalStarts, s.head? = some '/' ∨ ':' ∈ s.takeWhile (· != '/') := by
    decide
  rw [List.any_eq_false]
  intro s hs hbegins
  obtain ⟨rest, hrest⟩ := Option.isSome_iff_exists.1 hbegins
  rw [dropPrefix?_eq_some_iff] at hrest
  have hcolon : ':' ∉ dir ++ ['/'] := by
    intro hmem
    rcases List.mem_append.1 hmem with hmem | hmem
    · exact absurd (hdir.named _ hmem) (by decide)
    · revert hmem
      decide
  rcases hstarts s hs with hslash | hscheme
  · -- The name does not start with a slash.
    obtain ⟨l, rfl⟩ := List.head?_eq_some_iff.1 hslash
    obtain ⟨c, m, rfl⟩ := List.exists_cons_of_ne_nil hdir.ne_nil
    rw [List.cons_append, List.cons_append, List.cons.injEq] at hrest
    exact hdir.slash_not_mem (hrest.1 ▸ List.mem_cons_self)
  · have hpre : s.takeWhile (· != '/') <+: dir ++ '/' :: v :=
      (List.takeWhile_prefix _).trans ⟨rest, hrest.symm⟩
    have hname : (dir ++ ['/']) <+: dir ++ '/' :: v := ⟨v, by simp⟩
    rcases List.prefix_or_prefix_of_prefix hpre hname with hle | hle
    · exact hcolon (hle.subset hscheme)
    · have hslash := List.all_eq_true.1 List.all_takeWhile '/' (hle.subset (by simp))
      revert hslash
      decide

theorem classify_under (hdir : IsFolderName dir) (v : Text) :
    classify (dir ++ '/' :: v) = .file := by
  obtain ⟨y, hy⟩ := trim_append hdir.isStart v
  have hlower : lowerAscii (trim (dir ++ '/' :: v)) = lowerAscii dir ++ '/' :: lowerAscii y := by
    rw [show dir ++ '/' :: v = dir ++ ['/'] ++ v by simp, hy]
    simp [lowerAscii]
  have hbare : bare (lowerAscii dir ++ '/' :: lowerAscii y) ≠ [] := by
    have := bare_append (v := lowerAscii y) hdir.lowerAscii.isStart
    rw [List.append_assoc, List.singleton_append] at this
    simp [this]
  unfold classify
  simp only [hlower, not_external hdir.lowerAscii, hbare]
  rfl

end Reference

/-! ## Where references lead -/

theorem Path.join_join (source : Path) {below : Text} (hdir : Reference.IsFolderName dir)
    (hbelow : Path.isAbsolute ⟨below⟩ = false) :
    (source.join ⟨dir⟩).join ⟨below⟩ = source.join ⟨dir ++ '/' :: below⟩ := by
  have hrelative (x : Text) : Path.isAbsolute ⟨dir ++ x⟩ = false := by
    obtain ⟨c, l, rfl⟩ := List.exists_cons_of_ne_nil hdir.ne_nil
    have hc : c ≠ '/' := fun heq => hdir.slash_not_mem (heq ▸ List.mem_cons_self)
    simp [Path.isAbsolute, hc]
  have hfolder : Path.isAbsolute ⟨dir⟩ = false := by simpa using hrelative []
  have hlast : dir.getLast? ≠ some '/' := by
    intro hlast
    exact hdir.slash_not_mem (List.mem_of_getLast? hlast)
  obtain ⟨front, hfront⟩ : ∃ front, ∀ b, Path.isAbsolute ⟨b⟩ = false →
      source.join ⟨b⟩ = ⟨front ++ b⟩ := by
    by_cases hsource : source.text = [] ∨ source.text.getLast? = some '/'
    · exact ⟨source.text, fun b hb => by simp [Path.join, hb, hsource]⟩
    · exact ⟨source.text ++ ['/'], fun b hb => by simp [Path.join, hb, hsource]⟩
  rw [hfront dir hfolder, hfront _ (hrelative _)]
  simp [Path.join, hbelow, hdir.ne_nil, List.getLast?_append_of_ne_nil _ hdir.ne_nil, hlast]

/-- A reference with the prefix leads to what is below the asset folder. -/
theorem AssetRoots.resolves_append {roots : AssetRoots} {d : Disk}
    (hroots : roots.start = some start) (h : holds d (roots.sourceFolder.join ⟨roots.assetFolder⟩) x = true) :
    roots.resolves d (start ++ x) = true := by
  have hdrop : dropPrefix? start (start ++ x) = some x := by rw [dropPrefix?_eq_some_iff]
  simp only [resolves, hroots, Option.bind_some, hdrop, h, Bool.or_true, Bool.true_or]

namespace Report

theorem endsWith_iff {finish t : Text} : endsWith finish t = true ↔ finish <:+ t := by
  rw [endsWith, beginsWith, Option.isSome_iff_exists]
  simp only [dropPrefix?_eq_some_iff]
  rw [← List.reverse_prefix]
  exact ⟨fun ⟨rest, h⟩ => ⟨rest, h.symm⟩, fun ⟨rest, h⟩ => ⟨rest, h.symm⟩⟩

theorem endsWith_append_slash {finish : Text} (hfinish : '/' ∉ finish) (a x : Text) :
    endsWith finish (a ++ '/' :: x) = endsWith finish x := by
  rw [Bool.eq_iff_iff, endsWith_iff, endsWith_iff]
  constructor
  · intro h
    rcases List.suffix_or_suffix_of_suffix h (List.suffix_append a ('/' :: x)) with hle | hle
    · rcases List.suffix_cons_iff.1 hle with rfl | hle
      · exact absurd List.mem_cons_self hfinish
      · exact hle
    · exact absurd (hle.subset List.mem_cons_self) hfinish
  · intro h
    exact h.trans ((List.suffix_cons '/' x).trans (List.suffix_append a _))

theorem isPage_append (hstart : Reference.IsStart start) (x : Text) :
    isPage (start ++ x) = isPage x := by
  obtain ⟨b, rfl⟩ := hstart.slash
  rw [isPage, isPage, lowerAscii, List.map_append, List.map_append, List.append_assoc]
  exact endsWith_append_slash (by decide) _ _

/-- Missing assets are told of in one finding only, the last one. -/
theorem findSome?_missing?_check (d : Disk) (roots : AssetRoots) (t : Text) :
    (check d roots t).findings.findSome? Finding.missing?
      = (assetFinding? d roots t).bind Finding.missing? := by
  have htags : (documentTags.filterMap (tagFinding? t)).findSome? Finding.missing? = none := by
    rw [List.findSome?_eq_none_iff]
    intro f hf
    obtain ⟨tag, -, htag⟩ := List.mem_filterMap.1 hf
    unfold tagFinding? at htag
    simp only at htag
    split at htag <;> cases htag
    rfl
  have hincludes : (includeFinding? t).toList.findSome? Finding.missing? = none := by
    unfold includeFinding?
    simp only
    split <;> rfl
  simp only [check, List.findSome?_append, htags, hincludes, Option.none_or]
  cases assetFinding? d roots t <;> simp

theorem missing?_check {d : Disk} {roots : AssetRoots} {t : Text}
    (h : ∀ r ∈ Reference.locals t, isPage r = false → roots.resolves d r = true) :
    (check d roots t).findings.findSome? Finding.missing? = none := by
  have hnone : assetFinding? d roots t = none := by
    have hfilter :
        ((Reference.locals t).filter fun r => !isPage r && !roots.resolves d r) = [] := by
      rw [List.filter_eq_nil_iff]
      intro r hr
      cases hpage : isPage r with
      | true => simp
      | false => simp [h r hr hpage]
    simp [assetFinding?, hfilter]
  rw [findSome?_missing?_check, hnone]
  rfl

/-- When every local reference of a text that is no page leads to something in the folder of the
source, the redirected text has no missing assets. -/
theorem check_redirect {d : Disk} {roots : AssetRoots} {t : Text}
    (hdir : Reference.IsFolderName dir) (hstart : Reference.IsStart start)
    (hroots : roots.start = some start) (hfolder : roots.assetFolder = dir)
    (hall : ∀ r ∈ Reference.all t, '(' ∉ r ∧ ¬ (dir ++ "//".toList) <+: r)
    (hlocal : ∀ r ∈ Reference.locals t, isPage r = false →
      AssetRoots.holds d roots.sourceFolder r = true) :
    (check d roots (Reference.redirect dir start t)).findings.findSome? Finding.missing?
      = none := by
  refine missing?_check fun r hr hpage => ?_
  obtain ⟨w, hw, hfile, rfl⟩ := Reference.mem_locals.1 hr
  obtain ⟨v, hv, hsame⟩ :=
    Reference.exists_of_mem_all_redirect hdir hstart (fun r hr => (hall r hr).1) hw
  rcases hsame with rfl | ⟨x, rfl, rfl⟩
  · have hholds := hlocal _ (Reference.mem_locals.2 ⟨w, hv, hfile, rfl⟩) hpage
    simp [AssetRoots.resolves, hholds]
  · -- What is below the folder in the text is below the prefix now.
    rw [Reference.bare_append hstart] at hpage ⊢
    rw [isPage_append hstart, ← isPage_append hdir.isStart] at hpage
    have hmem : dir ++ ['/'] ++ Reference.bare x ∈ Reference.locals t := by
      refine Reference.mem_locals.2 ⟨_, hv, ?_, Reference.bare_append hdir.isStart⟩
      rw [List.append_assoc]
      exact Reference.classify_under hdir x
    have hrelative : Path.isAbsolute ⟨Reference.bare x⟩ = false := by
      rw [Path.isAbsolute, decide_eq_false_iff_not]
      intro hhead
      obtain ⟨l, hl⟩ := List.head?_eq_some_iff.1 hhead
      have hl : Reference.bare x = '/' :: l := hl
      obtain ⟨y, hy⟩ := Reference.bare_prefix_self x
      exact (hall _ hv).2 ⟨l ++ y, by rw [← hy, hl]; simp⟩
    have hholds := hlocal _ hmem hpage
    rw [AssetRoots.holds, List.append_assoc, List.singleton_append,
      ← Path.join_join _ hdir hrelative, ← hfolder] at hholds
    exact AssetRoots.resolves_append hroots hholds

def assetSite : Disk :=
  ⟨⟨[(["src".toList], .folder), (["src".toList, "assets".toList], .folder),
    (["src".toList, "assets".toList, "a.css".toList], .file ⟨#[]⟩)]⟩, []⟩

def assetSiteRoots : AssetRoots where
  outputFolder := ⟨"/out".toList⟩
  sourceFolder := ⟨"/src".toList⟩
  start := some "../src/assets/".toList
  assetFolder := "assets".toList
  projectRoot := none

theorem check_redirect_of_site :
    (check assetSite assetSiteRoots (Reference.redirect "assets".toList "../src/assets/".toList
      "<link href='assets/a.css?v'> url( assets/a.css) <a href=b.HTML>".toList)).findings.findSome?
        Finding.missing? = none :=
  check_redirect (by decide) (by decide) rfl rfl (by decide) (by decide)

end Report

end Pagefold
