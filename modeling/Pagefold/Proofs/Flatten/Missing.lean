import Pagefold.Proofs.Expansion.Marked
import Pagefold.Proofs.Flatten.Changes
import Pagefold.Proofs.Flatten.Tokens

/-!
# Missing files in a finished document

A file that is missed leaves a mark, and a check finds the marks. So a page that misses a file is
not written when it is checked.

* `Flatten.missed`: how many missing files are told of with a document;
* `Flatten.missed_le_marks`: a document has as many marks at least;
* `Flatten.flatten_missing`: it is rejected if there are any.
-/

namespace Pagefold.Flatten

open Diagnostic (marks)
open Expansion (Undisturbed)

variable {s : Settings} {o : Options} {d d₁ : Disk} {input output page : Path} {f : Flattened}

def missed (f : Flattened) : Nat := (f.diagnostics.filter Diagnostic.isMissing).length

theorem copyAssets_log (a : AssetSettings) (d : Disk) (source out : Path) (start : Option Text) :
    (copyAssets a d source out start).2.2.filter Diagnostic.isMissing = [] := by
  unfold copyAssets
  extract_lets assets
  split
  · split <;> rfl
  · rfl

theorem tokenDiagnostics_log (tokens : List Text) :
    (tokenDiagnostics tokens).filter Diagnostic.isMissing = [] := by
  unfold tokenDiagnostics
  split <;> rfl

/-- The missing files that are told of are those that the expansion missed. -/
theorem finish_diagnostics [Matcher] {a : AssetSettings} {source out : Path} {log : List Diagnostic}
    {t : Text} (h : (finish a o d source out log t).2 = .ok f) :
    f.diagnostics.filter Diagnostic.isMissing = log.filter Diagnostic.isMissing := by
  have hcopy : (copied a o d source out).2.2.filter Diagnostic.isMissing = [] := by
    unfold copied
    extract_lets start
    split
    · exact copyAssets_log a d source out start
    · rfl
  rcases finish_cases a o d source out log t with hf | ⟨u, g, -, hf, -, -, hlog⟩
  · rw [hf] at h
    cases h
  · rw [hf] at h
    obtain rfl := Except.ok.inj h
    rw [hlog, List.filter_append, List.filter_append, hcopy, tokenDiagnostics_log, List.append_nil,
      List.append_nil]

theorem marks_redirected [Matcher] {dir : Text} (hdir : Reference.IsFolderName dir)
    {start : Option Text} {t u : Text} (h : redirected dir start t = .ok u) : marks t ≤ marks u := by
  unfold redirected at h
  split at h
  · cases h
    exact Nat.le_refl _
  · split at h
    · cases h
    · cases h
      exact Reference.marks_redirect hdir _ t

/-- A document has a mark for every missing file that is told of. -/
theorem missed_le_marks [Matcher] (hs : Starter.CutsAtTags s.starter)
    (hdir : Reference.IsFolderName s.assets.folderName) (hpage : d.absolute input = .ok page)
    (hundisturbed : Undisturbed s.starter d page)
    (h : flatten s o d input output = (d₁, .ok f)) : missed f ≤ marks f.content := by
  rcases flatten_cases s o d input output with
    ⟨e, he⟩ | ⟨page', target, log, t, hpage', -, ht, heq⟩
  · rw [he] at h
    cases h
  · obtain rfl : page' = page := by
      rw [hpage] at hpage'
      exact (Except.ok.inj hpage').symm
    have hmarked := Expansion.marked_resolveFile hs hundisturbed (Disk.absolute_canonical hpage)
      .refl []
    have hexpanded := hmarked t (by rw [← Expansion.resolve, ht])
    rw [← Expansion.resolve, ht] at hexpanded
    rw [heq] at h
    have hfinish := congrArg Prod.snd h
    obtain ⟨u, hu, hcontent, -⟩ := finish_content hfinish
    rw [missed, finish_diagnostics hfinish, hcontent]
    calc (log.filter Diagnostic.isMissing).length
        ≤ marks t := hexpanded
      _ ≤ marks u := marks_redirected hdir hu
      _ ≤ marks (Token.strip u).1 := Token.marks_strip u

/-- The marks of a checked document are found. -/
theorem mem_findings_of_marks {roots : AssetRoots} {t : Text} (h : 0 < marks t) :
    .unresolvedIncludes (marks t) ∈ (Report.check d roots t).findings := by
  have hfinding : Report.includeFinding? t = some (.unresolvedIncludes (marks t)) := by
    simp only [Report.includeFinding?, Diagnostic.length_hits_mark]
    rw [if_neg (Nat.pos_iff_ne_zero.1 h)]
  simp [Report.check, hfinding]

/-- Missing files do not pass a check. With the settings that hold unless it is said otherwise, a
document has a mark for every missing file that is told of. If there are any, the check finds that
many marks at least, and the document is rejected. Nothing is changed then but by a copy of the
assets, and the place of the output keeps what it has. -/
theorem flatten_missing [Matcher] (ho : o.validate = true) (hpage : d.absolute input = .ok page)
    (hundisturbed : Undisturbed {} d page) (h : flatten {} o d input output = (d₁, .ok f)) :
    missed f ≤ marks f.content ∧
    (0 < missed f → ∃ report n, f.report = some report ∧
      .unresolvedIncludes n ∈ report.findings ∧ missed f ≤ n ∧
      run {} o d input output = (d₁, .ok (.rejected f report)) ∧
      (o.copyAssets = false → d₁ = d) ∧
      (d.WellFormed → d.tree.LinkFree → .up ∉ output.walked →
        output.fileName? ≠ some "assets".toList →
        (∀ bytes, d₁.tree.at? (outputAt d output) = some (.file bytes) ↔
          d.tree.at? (outputAt d output) = some (.file bytes)) ∧
        (d.tree.at? (outputAt d output) = none → d₁.tree.at? (outputAt d output) = none))) := by
  have hmarks : missed f ≤ marks f.content :=
    missed_le_marks (by decide) (by decide) hpage hundisturbed h
  refine ⟨hmarks, fun hpos => ?_⟩
  obtain ⟨source, target, -, -, hreport⟩ := flatten_report h
  rw [if_pos ho] at hreport
  have hfound : .unresolvedIncludes (marks f.content) ∈ (Report.check d₁ (rootsFor {}
      (Expansion.folderOf source) (Expansion.folderOf target) f.start) f.content).findings :=
    mem_findings_of_marks (Nat.lt_of_lt_of_le hpos hmarks)
  have hrun := run_rejected_iff.2 ⟨h, hreport, List.ne_nil_of_mem hfound⟩
  refine ⟨_, marks f.content, hreport, hfound, hmarks, hrun, fun hcopy => ?_, ?_⟩
  · rcases flatten_disk_cases {} o d input output with hsame | ⟨-, -, -, hcopied, -⟩
    · rwa [h] at hsame
    · rw [hcopy] at hcopied
      cases hcopied
  · intro hd hlinks hup hname
    obtain ⟨hfile, hnone, -⟩ := run_rejected_changes hd hlinks hup (by decide) hname hrun
    exact ⟨hfile, hnone⟩

/-- A disk with a page in a layout, which includes a file that is not there. -/
def missingSite : Disk :=
  ⟨⟨[(["p".toList], .file
      "@@include('pages-starter.html', \x7b\"k\": \"v\"\x7d)@@include('b')".toUTF8),
    (["pages-starter.html".toList], .file "<body>@@k</body>".toUTF8)]⟩, []⟩

theorem linkFree_missingSite : missingSite.tree.LinkFree :=
  Tree.linkFree_of_entries (by simp [missingSite])

section

attribute [local instance] Matcher.unlimited

theorem resolve_missingSite :
    Expansion.resolve {} missingSite ⟨"/p".toList⟩ =
      ⟨[.missingInclude "b".toList ⟨"/b".toList⟩],
        .ok "<body>v<!-- include not found: b -->\n</body>".toList⟩ := by
  rw [Expansion.resolve, ← Expansion.iterate_resolveStep linkFree_missingSite
    (fun _ _ => .pure []) (n := 3) (by decide)]
  rfl

theorem resolve_missingSite_layout :
    Expansion.resolve {} missingSite ⟨"/pages-starter.html".toList⟩
      = ⟨[], .ok "<body>@@k</body>".toList⟩ := by
  rw [Expansion.resolve, ← Expansion.iterate_resolveStep linkFree_missingSite
    (fun _ _ => .pure []) (n := 3) (by decide)]
  rfl

theorem readText_missingSite {p : Path} {t : Text} (hp : p.Canonical)
    (h : missingSite.readText p = .ok t) :
    (p = ⟨"/p".toList⟩ ∧
      t = "@@include('pages-starter.html', \x7b\"k\": \"v\"\x7d)@@include('b')".toList) ∨
    (p = ⟨"/pages-starter.html".toList⟩ ∧ t = "<body>@@k</body>".toList) := by
  obtain ⟨l, bytes, hmem, rfl, ht⟩ := Disk.mem_entries_of_readText linkFree_missingSite hp h
  simp only [missingSite, List.mem_cons, Prod.mk.injEq, Entry.file.injEq, List.not_mem_nil,
    or_false] at hmem
  rcases hmem with ⟨rfl, rfl⟩ | ⟨rfl, rfl⟩
  · exact .inl ⟨rfl, Option.some.inj (ht.symm.trans (Disk.text_toUTF8 _))⟩
  · exact .inr ⟨rfl, Option.some.inj (ht.symm.trans (Disk.text_toUTF8 _))⟩

def missingOpening : Starter.Opening where
  layout := ⟨"/pages-starter.html".toList⟩
  context := some "\x7b\"k\": \"v\"\x7d".toList
  content := "@@include('b')".toList

theorem detect_missingSite :
    Starter.detect {} missingSite ⟨['/']⟩
        "@@include('pages-starter.html', \x7b\"k\": \"v\"\x7d)@@include('b')".toList
      = some missingOpening ∧
    Starter.detect {} missingSite ⟨['/']⟩ "<body>@@k</body>".toList = none := ⟨rfl, rfl⟩

theorem layoutOf_missingOpening :
    Expansion.layoutOf (Expansion.resolve {} missingSite) missingOpening
      = ⟨[], .ok "<body>v</body>".toList⟩ := by
  have hlayout : Expansion.resolve {} missingSite missingOpening.layout
      = ⟨[], .ok "<body>@@k</body>".toList⟩ := resolve_missingSite_layout
  rw [Expansion.layoutOf, hlayout]
  rfl

theorem undisturbed_missingSite : Undisturbed {} missingSite ⟨"/p".toList⟩ := by
  have hpage : Path.Canonical ⟨"/p".toList⟩ := ⟨["p".toList], by decide, rfl⟩
  constructor
  · intro f t hreach ht raw hraw c hc
    rcases readText_missingSite (Expansion.canonical_of_reaches hpage hreach) ht with
      ⟨rfl, rfl⟩ | ⟨rfl, rfl⟩
    · obtain rfl : raw = missingOpening.context := List.mem_singleton.1 hraw
      have hread : Context.read missingOpening.context
          = .parsed [("k".toList, .string "v".toList)] := rfl
      rw [hread] at hc
      cases hc
      intro m hm
      obtain rfl := List.mem_singleton.1 hm
      decide
    · cases hraw
  · intro f t o layout hreach ht ho hlayout
    rcases readText_missingSite (Expansion.canonical_of_reaches hpage hreach) ht with
      ⟨rfl, rfl⟩ | ⟨rfl, rfl⟩
    · obtain rfl := Option.some.inj (detect_missingSite.1.symm.trans ho)
      rw [layoutOf_missingOpening] at hlayout
      cases hlayout
      decide
    · exact absurd (detect_missingSite.2.symm.trans ho) (by simp)

theorem flatten_missingSite :
    ∃ f, flatten {} { validate := true } missingSite ⟨"/p".toList⟩ ⟨"/out".toList⟩
        = (missingSite, .ok f) ∧ missed f = 1 := by
  have hpage : missingSite.absolute ⟨"/p".toList⟩ = .ok ⟨"/p".toList⟩ := by decide
  have htarget : missingSite.absolute ⟨"/out".toList⟩ = .ok ⟨"/out".toList⟩ := by decide
  rw [flatten_eq, flattenWith_ok hpage htarget resolve_missingSite]
  exact ⟨_, rfl, rfl⟩

theorem flatten_missing_of_page :
    ∃ f report n,
      flatten {} { validate := true } missingSite ⟨"/p".toList⟩ ⟨"/out".toList⟩
        = (missingSite, .ok f) ∧
      missed f = 1 ∧ 1 ≤ marks f.content ∧ f.report = some report ∧
      .unresolvedIncludes n ∈ report.findings ∧ 1 ≤ n ∧
      run {} { validate := true } missingSite ⟨"/p".toList⟩ ⟨"/out".toList⟩
        = (missingSite, .ok (.rejected f report)) := by
  obtain ⟨f, hflat, hmissed⟩ := flatten_missingSite
  have hpage : missingSite.absolute ⟨"/p".toList⟩ = .ok ⟨"/p".toList⟩ := by decide
  obtain ⟨hmarks, hrejected⟩ := flatten_missing rfl hpage undisturbed_missingSite hflat
  rw [hmissed] at hmarks hrejected
  obtain ⟨report, n, hreport, hfound, hn, hrun, -⟩ := hrejected Nat.one_pos
  exact ⟨f, report, n, hflat, hmissed, hmarks, hreport, hfound, hn, hrun⟩

end

end Pagefold.Flatten
