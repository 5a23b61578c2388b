import Pagefold.Proofs.Flatten.Changes
import Pagefold.Proofs.Token.Leftover

/-!
# Tokens in a finished document

The last thing done to a document is that its tokens are removed, once. A document is free of tokens
unless, before that, tokens stood between the two characters of a marker.

* `Flatten.finish_content`: the content of a document;
* `Flatten.flatten_leftover`: which documents have a token in them.
-/

namespace Pagefold.Flatten

open Expansion (folderOf)

variable {s : Settings} {o : Options} {d d' : Disk} {input output : Path} {f : Flattened}

/-- A document is an expanded page with its references pointed at their start and its tokens removed,
and they are told. -/
theorem finish_content [Matcher] {a : AssetSettings} {source out : Path} {log : List Diagnostic}
    {t : Text} (h : (finish a o d source out log t).2 = .ok f) :
    ∃ u, redirected a.folderName f.start t = .ok u ∧ f.content = (Token.strip u).1 ∧
      tokenDiagnostics (Token.strip u).2 <:+ f.diagnostics := by
  rcases finish_cases a o d source out log t with hf | ⟨u, g, hu, hf, hcontent, -, hlog⟩
  · rw [hf] at h
    cases h
  · rw [hf] at h
    obtain rfl := Except.ok.inj h
    exact ⟨u, hu, hcontent, hlog ▸ List.suffix_append _ _⟩

theorem flatten_content [Matcher] (h : flatten s o d input output = (d', .ok f)) :
    ∃ page log t u, d.absolute input = .ok page ∧
      Expansion.resolve s.starter d page = ⟨log, .ok t⟩ ∧
      redirected s.assets.folderName f.start t = .ok u ∧ f.content = (Token.strip u).1 := by
  rcases flatten_cases s o d input output with ⟨e, he⟩ | ⟨page, target, log, t, hpage, -, ht, heq⟩
  · rw [he] at h
    cases h
  · rw [heq] at h
    obtain ⟨u, hu, hcontent, -⟩ := finish_content (congrArg Prod.snd h)
    exact ⟨page, log, t, u, hpage, ht, hu, hcontent⟩

/-- A finished document has a token in it exactly when, in the expanded page with its references
changed, tokens stood between the two characters of a marker. -/
theorem flatten_leftover [Matcher] (h : flatten s o d input output = (d', .ok f)) :
    ∃ page log t u, d.absolute input = .ok page ∧
      Expansion.resolve s.starter d page = ⟨log, .ok t⟩ ∧
      redirected s.assets.folderName f.start t = .ok u ∧
      (Token.Present f.content ↔ Token.Parted u) := by
  obtain ⟨page, log, t, u, hpage, ht, hu, hcontent⟩ := flatten_content h
  refine ⟨page, log, t, u, hpage, ht, hu, ?_⟩
  rw [hcontent]
  exact Token.present_strip_iff

/-- A disk with a page in which a token stands between the two characters of a marker. -/
def partedSite : Disk := ⟨⟨[(["page".toList], .file "@@@x@y".toUTF8)]⟩, []⟩

theorem resolve_partedSite [Matcher] :
    Expansion.resolve {} partedSite ⟨"/page".toList⟩ = ⟨[], .ok "@@@x@y".toList⟩ := by
  rw [Expansion.resolve, ← Expansion.iterate_resolveStep
    (Tree.linkFree_of_entries (by simp [partedSite])) (fun _ _ => .pure []) (n := 2) (by decide)]
  rfl

def partedDocument : Flattened where
  content := "@@y".toList
  references := []
  start := none
  report := none
  diagnostics := [.leftoverTokens ["@@x".toList]]

theorem flatten_partedSite [Matcher] :
    flatten {} {} partedSite ⟨"/page".toList⟩ ⟨"/out".toList⟩ = (partedSite, .ok partedDocument) := by
  have hpage : partedSite.absolute ⟨"/page".toList⟩ = .ok ⟨"/page".toList⟩ := by decide
  have htarget : partedSite.absolute ⟨"/out".toList⟩ = .ok ⟨"/out".toList⟩ := by decide
  rw [flatten_eq, flattenWith_ok hpage htarget resolve_partedSite]
  rfl

section

attribute [local instance] Matcher.unlimited

theorem flatten_leftover_of_parted :
    flatten {} {} partedSite ⟨"/page".toList⟩ ⟨"/out".toList⟩ = (partedSite, .ok partedDocument) ∧
      Token.Parted "@@@x@y".toList := by
  refine ⟨flatten_partedSite, ?_⟩
  obtain ⟨page, log, t, u, hpage, ht, hu, hiff⟩ := flatten_leftover flatten_partedSite
  obtain rfl : page = ⟨"/page".toList⟩ := by
    have : partedSite.absolute ⟨"/page".toList⟩ = .ok ⟨"/page".toList⟩ := by decide
    rw [this] at hpage
    exact (Except.ok.inj hpage).symm
  rw [resolve_partedSite] at ht
  cases ht
  cases hu
  exact hiff.1 ⟨[], 'y', [], by decide, rfl⟩

/-- The document of a page can have a token in it that came up when another one was removed. -/
theorem flatten_leaves_token :
    ∃ f, flatten {} {} partedSite ⟨"/page".toList⟩ ⟨"/out".toList⟩ = (partedSite, .ok f) ∧
      ∃ before c after, Token.isNameChar c = true ∧
        f.content = before ++ Context.marker ++ c :: after :=
  ⟨partedDocument, flatten_partedSite, [], 'y', [], by decide, rfl⟩

end

end Pagefold.Flatten
