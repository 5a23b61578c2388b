import Pagefold.Flatten
import Pagefold.Proofs.Disk.Copy
import Pagefold.Proofs.Expansion.Outcome

/-!
# The copied asset folder

Flattening a page changes the disk by the copy of the asset folder alone. The copy keeps what it
copies, unless its destination is a folder above it: then all of it is lost.

* `Flatten.assetsOf`, `Flatten.copyOf`: the asset folder of a page, and where it is copied to;
* `Flatten.finish_cases`: what an expanded page becomes;
* `Flatten.flatten_disk`: the disk that a flattened page leaves behind;
* `Flatten.copy_keeps_source`: when the source of a copy, and the page itself, survive.
-/

namespace Pagefold.Flatten

open Expansion (folderOf)

variable {s : Settings} {o : Options} {d : Disk} {input output page target : Path}

def assetsOf (s : AssetSettings) (page : Path) : Path := (folderOf page).join ⟨s.folderName⟩

def copyOf (s : AssetSettings) (target : Path) : Path := (folderOf target).join ⟨s.copyName⟩

theorem copyAssets_disk (start : Option Text) :
    (copyAssets s.assets d (folderOf page) (folderOf target) start).1 =
      if d.isFolder (assetsOf s.assets page) then
        (d.copyTree (assetsOf s.assets page) (copyOf s.assets target)).1 else d := by
  unfold copyAssets assetsOf copyOf
  simp only
  split
  · split <;> next heq => rw [heq]
  · rfl

/-- The copy of the assets, if one is asked for: the disk behind it, where references start then, and
what it tells. -/
def copied (a : AssetSettings) (o : Options) (d : Disk) (source out : Path) :
    Disk × Option Text × List Diagnostic :=
  let start := (o.start.filter (· ≠ [])) <|> startFor? d source out a.folderName
  if o.copyAssets then copyAssets a d source out start else (d, start, [])

/-- An expanded page becomes a document, or a name in the settings is too large. Nothing but the copy
of the assets changes the disk. -/
theorem finish_cases [Matcher] (a : AssetSettings) (o : Options) (d : Disk) (source out : Path)
    (log : List Diagnostic) (t : Text) :
    finish a o d source out log t = ((copied a o d source out).1, .error .tooLarge) ∨
    ∃ u f, redirected a.folderName f.start t = .ok u ∧
      finish a o d source out log t = ((copied a o d source out).1, .ok f) ∧
      f.content = (Token.strip u).1 ∧
      f.report = (if o.validate then
        some (Report.check (copied a o d source out).1 (rootsFor a source out f.start) f.content)
        else none) ∧
      f.diagnostics = log ++ (copied a o d source out).2.2 ++
        tokenDiagnostics (Token.strip u).2 := by
  unfold finish copied
  extract_lets start
  generalize (if o.copyAssets then copyAssets a d source out start else (d, start, [])) = behind
  obtain ⟨d', start', copyLog⟩ := behind
  simp only
  cases hredirected : redirected a.folderName start' t with
  | error e =>
    left
    have he : e = .tooLarge := by
      unfold redirected at hredirected
      split at hredirected
      · cases hredirected
      · split at hredirected <;> cases hredirected
        rfl
    rw [he]
  | ok u =>
    right
    generalize hstrip : Token.strip u = stripped
    obtain ⟨content, tokens⟩ := stripped
    exact ⟨u, _, hredirected, rfl, by rw [hstrip], rfl, by rw [hstrip]⟩

theorem finish_disk [Matcher] (log : List Diagnostic) (t : Text) :
    (finish s.assets o d (folderOf page) (folderOf target) log t).1 =
      if o.copyAssets = true ∧ d.isFolder (assetsOf s.assets page) = true then
        (d.copyTree (assetsOf s.assets page) (copyOf s.assets target)).1 else d := by
  have hfinish : (finish s.assets o d (folderOf page) (folderOf target) log t).1 =
      (copied s.assets o d (folderOf page) (folderOf target)).1 := by
    rcases finish_cases s.assets o d (folderOf page) (folderOf target) log t with
      h | ⟨u, f, -, h, -⟩
    all_goals rw [h]
  rw [hfinish, copied]
  by_cases ho : o.copyAssets = true
  · rw [if_pos ho, copyAssets_disk]
    simp only [ho, true_and]
  · rw [if_neg ho, if_neg fun h => ho h.1]

/-- Flattening, where `resolve` expands the page. -/
def flattenWith [Matcher] (resolve : Path → Recorded Text) (s : Settings) (o : Options) (d : Disk)
    (input output : Path) : Disk × Except Fault Flattened :=
  match d.absolute input, d.absolute output with
  | .error why, _ => (d, .error (.fileNotFound input why))
  | .ok _, .error why => (d, .error (.io output why))
  | .ok page, .ok target =>
    match resolve page with
    | ⟨_, .error e⟩ => (d, .error e)
    | ⟨log, .ok t⟩ => finish s.assets o d (folderOf page) (folderOf target) log t

theorem flatten_eq [Matcher] (s : Settings) (o : Options) (d : Disk) (input output : Path) :
    flatten s o d input output =
      flattenWith (Expansion.resolve s.starter d) s o d input output := rfl

section Resolve

-- The expansion is a variable here: it must never be computed where a document is only looked at.
variable {resolve : Path → Recorded Text}

theorem flattenWith_ok [Matcher] (hpage : d.absolute input = .ok page)
    (htarget : d.absolute output = .ok target) {log : List Diagnostic} {t : Text}
    (ht : resolve page = ⟨log, .ok t⟩) :
    flattenWith resolve s o d input output =
      finish s.assets o d (folderOf page) (folderOf target) log t := by
  unfold flattenWith
  rw [hpage, htarget]
  simp only [ht]

theorem flattenWith_error [Matcher] (h : ∀ page target log t, d.absolute input = .ok page →
    d.absolute output = .ok target → resolve page ≠ ⟨log, .ok t⟩) :
    ∃ e, flattenWith resolve s o d input output = (d, .error e) := by
  unfold flattenWith
  cases hpage : d.absolute input with
  | error why => exact ⟨_, rfl⟩
  | ok page =>
    cases htarget : d.absolute output with
    | error why => exact ⟨_, rfl⟩
    | ok target =>
      simp only
      split
      · exact ⟨_, rfl⟩
      · next log t ht => exact absurd ht (h page target log t hpage htarget)

end Resolve

/-- A flattened page leaves the disk behind that the copy of its asset folder leaves, if there is a
copy. -/
theorem flatten_disk [Matcher] (hpage : d.absolute input = .ok page)
    (htarget : d.absolute output = .ok target) {log : List Diagnostic} {t : Text}
    (ht : Expansion.resolve s.starter d page = ⟨log, .ok t⟩) :
    (flatten s o d input output).1 =
      if o.copyAssets = true ∧ d.isFolder (assetsOf s.assets page) = true then
        (d.copyTree (assetsOf s.assets page) (copyOf s.assets target)).1 else d := by
  rw [flatten_eq, flattenWith_ok hpage htarget ht, finish_disk]

/-- Flattening either leaves the disk as it is or copies the asset folder. -/
theorem flatten_disk_cases [Matcher] (s : Settings) (o : Options) (d : Disk) (input output : Path) :
    (flatten s o d input output).1 = d ∨
      ∃ page target, d.absolute output = .ok target ∧ o.copyAssets = true ∧
        (flatten s o d input output).1 =
          (d.copyTree (assetsOf s.assets page) (copyOf s.assets target)).1 := by
  by_cases h : ∃ page target log t, d.absolute input = .ok page ∧ d.absolute output = .ok target ∧
      Expansion.resolve s.starter d page = ⟨log, .ok t⟩
  · obtain ⟨page, target, log, t, hpage, htarget, ht⟩ := h
    rw [flatten_disk hpage htarget ht]
    split
    · next hcopy => exact .inr ⟨page, target, htarget, hcopy.1, rfl⟩
    · exact .inl rfl
  · obtain ⟨e, he⟩ := flattenWith_error (s := s) (o := o) fun page target log t hpage htarget ht =>
      h ⟨page, target, log, t, hpage, htarget, ht⟩
    rw [flatten_eq, he]
    exact .inl rfl

/-! ## The source of a copy -/

/-- A copy keeps all files of its source, and flattening a page keeps the page and its asset folder,
when the destination is not above them. Without links, a destination above the source is emptied, and
nothing is copied. -/
theorem copy_keeps_source [Matcher] (d : Disk) (hd : d.WellFormed) :
    (∀ source dest m, d.Plain dest → d.entry source .content = .ok (m, .folder) →
      (∀ l, d.DestinationAt dest l → ¬ m <+: l) → (∀ l, d.DestinationAt dest l → ¬ l <+: m) →
      ∀ n bytes, m <+: n → d.tree.at? n = some (.file bytes) →
        (d.copyTree source dest).1.tree.at? n = some (.file bytes)) ∧
    (∀ source dest l m, d.tree.LinkFree → dest.parent?.isSome = true → .up ∉ dest.walked →
      source.normalize ≠ dest.normalize → d.entry source .content = .ok (m, .folder) →
      d.entry dest .entry = .ok (l, .folder) → l <+: m → l ≠ m →
      ∀ n, l <+: n → n ≠ l → (d.copyTree source dest).1.tree.at? n = none) ∧
    (∀ s o input output target, d.absolute output = .ok target → d.Plain (copyOf s.assets target) →
      ∀ n e, d.tree.at? n = some e → (∀ l, d.DestinationAt (copyOf s.assets target) l → ¬ l <+: n) →
        (flatten s o d input output).1.tree.at? n = some e) ∧
    (∀ s o input output page target log t l m, d.tree.LinkFree → o.copyAssets = true →
      d.absolute input = .ok page → d.absolute output = .ok target →
      Expansion.resolve s.starter d page = ⟨log, .ok t⟩ →
      (copyOf s.assets target).parent?.isSome = true → .up ∉ (copyOf s.assets target).walked →
      (assetsOf s.assets page).normalize ≠ (copyOf s.assets target).normalize →
      d.entry (assetsOf s.assets page) .content = .ok (m, .folder) →
      d.entry (copyOf s.assets target) .entry = .ok (l, .folder) → l <+: m → l ≠ m →
      ∀ n, l <+: n → n ≠ l → (flatten s o d input output).1.tree.at? n = none) := by
  refine ⟨?_, ?_, ?_, ?_⟩
  · intro source dest m hdest _ hinside hbelow n bytes hmn hn
    refine Disk.copyTree_keeps hd hdest source hn fun l hl hln => ?_
    -- Both folders are above one file, so one of them is above the other one.
    rcases List.prefix_or_prefix_of_prefix hln hmn with hlm | hml
    · exact hbelow l hl hlm
    · exact hinside l hl hml
  · intro source dest l m hlinks hparent hup hdiff hsource hdest hlm hne n hn hnl
    exact Disk.copyTree_above_source hd.tree hlinks hparent hup hdiff hdest hsource hlm hne hn hnl
  · intro s o input output target htarget hdest n e hn hout
    rcases flatten_disk_cases s o d input output with hsame | ⟨page, target', htarget', -, hcopy⟩
    · rw [hsame, hn]
    · rw [htarget] at htarget'
      cases htarget'
      rw [hcopy]
      exact Disk.copyTree_keeps hd hdest _ hn hout
  · intro s o input output page target log t l m hlinks ho hpage htarget ht hparent hup hdiff hsource
      hdest hlm hne n hn hnl
    rw [flatten_disk hpage htarget ht, if_pos ⟨ho, Disk.isFolder_iff.2 ⟨m, hsource⟩⟩]
    exact Disk.copyTree_above_source hd.tree hlinks hparent hup hdiff hdest hsource hlm hne hn hnl

/-- A disk with a page in a folder of the name of its asset folder. -/
def nestedSite : Disk :=
  ⟨⟨[(["assets".toList], .folder), (["assets".toList, "index".toList], .file "page".toUTF8),
    (["assets".toList, "assets".toList], .folder),
    (["assets".toList, "assets".toList, "style".toList], .file "style".toUTF8)]⟩, []⟩

theorem nestedSite_linkFree : nestedSite.tree.LinkFree :=
  Tree.linkFree_of_entries (by simp [nestedSite])

theorem nestedSite_wellFormed : nestedSite.WellFormed :=
  ⟨Tree.wellFormed_of_entries (by decide), rfl⟩

theorem resolve_nestedSite [Matcher] :
    Expansion.resolve {} nestedSite ⟨"/assets/index".toList⟩ = ⟨[], .ok "page".toList⟩ := by
  rw [Expansion.resolve, ← Expansion.iterate_resolveStep nestedSite_linkFree
    (fun _ _ => .pure []) (n := 3) (by decide)]
  rfl

/-- The copy of a folder to the folder above it loses the files of both. -/
theorem copy_loses_source :
    nestedSite.entry ⟨"assets/assets".toList⟩ .content
      = .ok (["assets".toList, "assets".toList], .folder) ∧
    nestedSite.entry ⟨"assets".toList⟩ .entry = .ok (["assets".toList], .folder) ∧
    ¬ ["assets".toList, "assets".toList] <+: ["assets".toList] ∧
    nestedSite.tree.at? ["assets".toList, "assets".toList, "style".toList]
      = some (.file "style".toUTF8) ∧
    (nestedSite.copyTree ⟨"assets/assets".toList⟩ ⟨"assets".toList⟩).1.tree.at?
      ["assets".toList, "assets".toList, "style".toList] = none := by
  decide

section

attribute [local instance] Matcher.unlimited

theorem copy_keeps_source_of_nested :
    nestedSite.WellFormed ∧
    (nestedSite.copyTree ⟨"assets/assets".toList⟩ ⟨"copy".toList⟩).1.tree.at?
      ["assets".toList, "assets".toList, "style".toList] = some (.file "style".toUTF8) ∧
    (nestedSite.copyTree ⟨"assets/assets".toList⟩ ⟨"assets".toList⟩).1.tree.at?
      ["assets".toList, "assets".toList, "style".toList] = none ∧
    (flatten {} { copyAssets := true } nestedSite ⟨"/assets/index".toList⟩
      ⟨"/copy/index".toList⟩).1.tree.at? ["assets".toList, "index".toList]
        = some (.file "page".toUTF8) ∧
    (flatten {} { copyAssets := true } nestedSite ⟨"/assets/index".toList⟩
      ⟨"/index".toList⟩).1.tree.at? ["assets".toList, "index".toList] = none := by
  obtain ⟨hkeep, hlose, hkeepPage, hlosePage⟩ := copy_keeps_source nestedSite nestedSite_wellFormed
  have hplain : nestedSite.Plain ⟨"copy".toList⟩ := (.inl nestedSite_linkFree)
  refine ⟨nestedSite_wellFormed, ?_, ?_, ?_, ?_⟩
  · refine hkeep _ _ ["assets".toList, "assets".toList] hplain (by decide) (fun l hl => ?_)
      (fun l hl => ?_) _ _ (by decide) (by decide)
    · rw [(Disk.destinationAt_iff nestedSite_linkFree).1 hl]
      decide
    · rw [(Disk.destinationAt_iff nestedSite_linkFree).1 hl]
      decide
  · exact hlose _ _ ["assets".toList] ["assets".toList, "assets".toList] nestedSite_linkFree
      (by decide) (by decide) (by decide) (by decide) (by decide) (by decide) (by decide) _
      (by decide) (by decide)
  · refine hkeepPage {} { copyAssets := true } _ _ ⟨"/copy/index".toList⟩ (by decide)
      (.inl nestedSite_linkFree) _ _ (by decide) (fun l hl => ?_)
    rw [(Disk.destinationAt_iff nestedSite_linkFree).1 hl]
    decide
  · exact hlosePage {} { copyAssets := true } _ _ ⟨"/assets/index".toList⟩ ⟨"/index".toList⟩ []
      "page".toList ["assets".toList] ["assets".toList, "assets".toList] nestedSite_linkFree rfl
      (by decide) (by decide) resolve_nestedSite (by decide) (by decide) (by decide) (by decide)
      (by decide) (by decide) (by decide) _ (by decide) (by decide)

end

end Pagefold.Flatten
