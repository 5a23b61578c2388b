import Pagefold.Proofs.Directive.Extent
import Pagefold.Proofs.Text.Fold
import Pagefold.Starter

/-!
# The directive at the head of a page

A starter directive is read off the head of a page by a reader of its own. Letter case is meant not
to count in the name of the starter file, and that reader leaves it aside in the keyword too. The
scan of the same text does not.

* `Starter.Head`: blanks, the keyword in some letter case, and a path in quotes;
* `Starter.head_of_read?`: what a starter directive is read off;
* `Starter.Head.read?_eq_some`, `Starter.Head.read?_eq_none`: what a scan reads there;
* `Starter.Scanned`: the first directive that a scan finds is the starter directive;
* `Starter.detect_scan`: it is, unless the keyword is not written as it should be or there is no
  path.
-/

namespace Pagefold

open Text

namespace Starter

variable {s : StarterSettings} {d : Disk} {folder : Path} {fileName path t r : Text} {q : Char}
  {context : Option Text} {o : Opening}

/-! ## What a starter directive is read off -/

/-- A page opens with blanks, the keyword of a directive in some letter case, and a path in
quotes. -/
structure Head (t : Text) where
  /-- The blanks in front. -/
  blanks : Text
  /-- The keyword, with the parenthesis behind it. -/
  keyword : Text
  /-- The blanks behind the keyword. -/
  gap : Text
  /-- The quote around the path. -/
  quote : Char
  /-- The path. -/
  path : Text
  /-- What follows the closing quote. -/
  rest : Text
  text_eq : t = blanks ++ (keyword ++ (gap ++ quote :: (path ++ quote :: rest)))
  isBlank_blanks : ∀ c ∈ blanks, isBlank c = true
  isBlank_gap : ∀ c ∈ gap, isBlank c = true
  quote_eq : quote = '\'' ∨ quote = '"'
  quote_not_mem : quote ∉ path
  keyword_folded : keyword.map caseKey = Directive.opening.map caseKey

theorem namedPath?_of_not_mem (hq : q ∉ fileName) (t : Text) :
    namedPath? fileName q t =
      if endsWithFolded fileName (t.takeWhile (· != q)) then
        (dropPrefix? [q] (t.dropWhile (· != q))).map (t.takeWhile (· != q), ·)
      else none := by
  have hall := bne_of_not_mem hq
  have htake : fileName.takeWhile (· != q) = fileName := List.takeWhile_eq_self_iff.2 hall
  have hdrop : fileName.dropWhile (· != q) = [] := List.dropWhile_eq_nil_iff.2 hall
  simp only [namedPath?, htake, hdrop]
  cases t.dropWhile (· != q) with
  | nil => rfl
  | cons c r =>
    by_cases hc : c = q
    · simp [dropFolded?, dropPrefix?, hc]
    · simp [dropFolded?, dropPrefix?, hc, Ne.symm hc]

theorem namedPath?_eq_some (hq : q ∉ fileName) (h : namedPath? fileName q t = some (path, r)) :
    t = path ++ q :: r ∧ q ∉ path ∧ (path = [] → fileName = []) := by
  rw [namedPath?_of_not_mem hq] at h
  split at h
  · next hends =>
    obtain ⟨r', hr', heq⟩ := Option.map_eq_some_iff.1 h
    cases heq
    rw [dropPrefix?_eq_some_iff] at hr'
    refine ⟨?_, fun hmem => ?_, fun hpath => ?_⟩
    · calc t = t.takeWhile (· != q) ++ t.dropWhile (· != q) :=
            List.takeWhile_append_dropWhile.symm
        _ = t.takeWhile (· != q) ++ q :: r := by rw [hr', List.singleton_append]
    · exact not_mem_takeWhile_bne q t hmem
    · rw [endsWithFolded, hpath, Bool.and_eq_true, decide_eq_true_eq] at hends
      exact List.length_eq_zero_iff.1 (Nat.le_zero.1 hends.1)
  · cases h

/-- What is read at the head of a page stands there, and the end of the directive is read as that of
any directive is. -/
theorem head_of_read? (hsingle : '\'' ∉ fileName) (hdouble : '"' ∉ fileName)
    (h : read? fileName t = some (path, context, r)) :
    ∃ (head : Head t) (behind : Text), head.path = path ∧ (path = [] → fileName = []) ∧
      Directive.close? head.rest = some (context, behind) ∧ r = skipBlanks behind := by
  simp only [read?, Option.bind_eq_bind, Option.bind_eq_some_iff, Prod.exists] at h
  obtain ⟨t₁, h₁, path', t₂, h₂, context', behind, h₃, h⟩ := h
  cases h
  obtain ⟨w, hw, ht⟩ := exists_blanks t
  obtain ⟨k, hk, hfold⟩ := dropFolded?_eq_some_iff.1 h₁
  obtain ⟨w', hw', ht₁⟩ := exists_blanks t₁
  unfold quotedPath? at h₂
  split at h₂
  · cases h₂
  · next q t₃ hs =>
    split at h₂
    · next hq =>
      have hname : q ∉ fileName := by rcases hq with rfl | rfl <;> assumption
      obtain ⟨rfl, hpath, hempty⟩ := namedPath?_eq_some hname h₂
      have htext : t = w ++ (k ++ (w' ++ q :: (path ++ q :: t₂))) := by rw [← hs, ← ht₁, ← hk, ← ht]
      exact ⟨⟨w, k, w', q, path, t₂, htext, hw, hw', hq, hpath, hfold⟩, behind, rfl, hempty, h₃,
        rfl⟩
    · cases h₂

/-! ## What a scan reads there -/

namespace Head

variable (head : Head t)

/-- The page from the keyword on. -/
def fromKeyword : Text :=
  head.keyword ++ (head.gap ++ head.quote :: (head.path ++ head.quote :: head.rest))

theorem skipBlanks_gap (u : Text) :
    skipBlanks (head.gap ++ head.quote :: u) = head.quote :: u := by
  have hquote : isBlank head.quote = false := by
    rcases head.quote_eq with h | h
    all_goals rw [h]; decide
  rw [skipBlanks_append head.isBlank_gap, skipBlanks_of_not hquote]

theorem read?_eq_some {behind : Text} (hkeyword : head.keyword = Directive.opening)
    (hpath : head.path ≠ []) (hclose : Directive.close? head.rest = some (context, behind)) :
    Directive.read? head.fromKeyword = some (⟨head.path, context⟩, behind) := by
  have hopen := dropPrefix?_eq_some_iff.2 (congrArg
    (· ++ (head.gap ++ head.quote :: (head.path ++ head.quote :: head.rest))) hkeyword)
  simp only [Directive.read?, Option.bind_eq_bind, fromKeyword, hopen, Option.bind_some,
    head.skipBlanks_gap, Directive.quoted?_eq head.quote_eq hpath head.quote_not_mem, hclose]
  rfl

theorem read?_eq_none (h : ¬ (head.keyword = Directive.opening ∧ head.path ≠ [])) :
    Directive.read? head.fromKeyword = none := by
  cases hread : Directive.read? head.fromKeyword with
  | none => rfl
  | some m =>
    obtain ⟨x, r⟩ := m
    refine absurd ?_ h
    simp only [Directive.read?, Option.bind_eq_bind, Option.bind_eq_some_iff, Prod.exists] at hread
    obtain ⟨t₁, h₁, path, t₂, h₂, -⟩ := hread
    rw [dropPrefix?_eq_some_iff, fromKeyword] at h₁
    -- Both keywords have the same length, so they are the same.
    have hlength : head.keyword.length = Directive.opening.length := by
      simpa using congrArg List.length head.keyword_folded
    obtain ⟨hkeyword, rfl⟩ := List.append_inj h₁ hlength
    rw [head.skipBlanks_gap] at h₂
    obtain ⟨q, -, hne, hq, hquoted⟩ := Directive.quoted?_eq_some_iff.1 h₂
    obtain ⟨rfl, hquoted⟩ := List.cons.inj hquoted
    refine ⟨hkeyword, fun hpath => ?_⟩
    obtain ⟨c, p, rfl⟩ := List.exists_cons_of_ne_nil hne
    rw [hpath, List.nil_append, List.cons_append, List.cons.injEq] at hquoted
    exact hq (hquoted.1 ▸ List.mem_cons_self)

theorem scan_eq : Directive.scan t
    = (Directive.pattern.located head.fromKeyword).map (Pattern.shift head.blanks.byteSize) := by
  have hbarren := Directive.barren_of_isBlank head.isBlank_blanks head.fromKeyword
  rw [← hbarren.located, fromKeyword, ← head.text_eq]
  rfl

end Head

/-- What follows a beginning of a page, less the blanks in front, is the content that starts behind
them. -/
theorem contentStart_eq (layout : Path) (context : Option Text) (taken behind : Text) :
    Opening.contentStart ⟨layout, context, skipBlanks behind⟩ (taken ++ behind)
      = taken.byteSize + byteSize (behind.takeWhile isBlank) := by
  have hbehind : behind.byteSize
      = byteSize (behind.takeWhile isBlank) + (skipBlanks behind).byteSize := by
    rw [← byteSize_append, skipBlanks, List.takeWhile_append_dropWhile]
  simp only [Opening.contentStart, byteSize_append]
  omega

/-- The first directive that a scan of a page finds starts at a byte and is its starter directive:
the path leads to the layout, the context is the same, and behind it and some blanks the content
starts. -/
def Scanned (folder : Path) (t : Text) (o : Opening) (start : Nat) : Prop :=
  ∃ taken behind x later, t = taken ++ behind ∧
    Directive.scan t = (start, taken.byteSize, x) :: later ∧ o.layout = folder.included x.path ∧
    o.context = x.context ∧
    o.contentStart t = taken.byteSize + byteSize (behind.takeWhile isBlank) ∧
    o.content = skipBlanks behind

theorem Head.scanned {behind : Text} (head : Head t) (hkeyword : head.keyword = Directive.opening)
    (hpath : head.path ≠ []) (hclose : Directive.close? head.rest = some (context, behind)) :
    Scanned folder t ⟨folder.included head.path, context, skipBlanks behind⟩
      head.blanks.byteSize := by
  have hread := head.read?_eq_some hkeyword hpath hclose
  obtain ⟨source, -, hsource⟩ := Directive.pattern.exists_source hread
  have htext : t = head.blanks ++ source ++ behind := by
    rw [List.append_assoc, ← hsource]
    exact head.text_eq
  have hstart := contentStart_eq (folder.included head.path) context (head.blanks ++ source) behind
  rw [← htext] at hstart
  have hscan := head.scan_eq
  rw [Directive.pattern.located_of_some hread hsource, List.map_cons, Pattern.shift,
    ← byteSize_append] at hscan
  exact ⟨head.blanks ++ source, behind, _, _, htext, hscan, rfl, rfl, hstart, rfl⟩

/-- Where a scan reads nothing at the keyword, it finds directives further on only. -/
theorem Head.lt_of_mem_scan (head : Head t) (h : Directive.read? head.fromKeyword = none) :
    ∀ m ∈ Directive.scan t, head.blanks.byteSize < m.1 := by
  have hne : head.fromKeyword ≠ [] := by simp [fromKeyword]
  obtain ⟨c, u, hu⟩ := List.exists_cons_of_ne_nil hne
  rw [hu] at h
  rw [head.scan_eq, hu, Directive.pattern.located_of_none h, List.map_map]
  intro m hm
  obtain ⟨n, -, rfl⟩ := List.mem_map.1 hm
  have := c.utf8Size_pos
  simp only [Function.comp, Pattern.shift]
  omega

/-- A starter directive is the first directive that a scan of the page finds, at the first character
that is not blank, exactly when its keyword is in lower case and its path is not empty, which it can
only be if the starter file has no name. Otherwise a scan finds no directive there. -/
theorem detect_scan (s : StarterSettings) (d : Disk) (folder : Path) (t : Text) (o : Opening)
    (hsingle : '\'' ∉ s.fileName) (hdouble : '"' ∉ s.fileName)
    (h : detect s d folder t = some o) :
    ∃ head : Head t, o.layout = folder.included head.path ∧ (head.path = [] → s.fileName = []) ∧
      (head.keyword = Directive.opening ∧ head.path ≠ [] →
        Scanned folder t o head.blanks.byteSize) ∧
      (¬ (head.keyword = Directive.opening ∧ head.path ≠ []) →
        ∀ m ∈ Directive.scan t, head.blanks.byteSize < m.1) := by
  unfold detect at h
  split at h
  · cases h
  · next path context content hread =>
    obtain ⟨head, behind, rfl, hempty, hclose, rfl⟩ := head_of_read? hsingle hdouble hread
    simp only at h
    split at h
    · cases h
      exact ⟨head, rfl, hempty, fun ⟨hkeyword, hpath⟩ => head.scanned hkeyword hpath hclose,
        fun hnot => head.lt_of_mem_scan (head.read?_eq_none hnot)⟩
    · cases h

def layoutSite : Disk := ⟨⟨[(["pages-starter.html".toList], .file "L".toUTF8)]⟩, []⟩

theorem detect_scan_of_layout :
    let page := "\n@@include('pages-starter.html', \x7b\x7d) x".toList
    let o : Opening := ⟨⟨"/pages-starter.html".toList⟩, some "\x7b\x7d".toList, "x".toList⟩
    detect {} layoutSite ⟨['/']⟩ page = some o ∧
    ∃ head : Head page, o.layout = Path.included ⟨['/']⟩ head.path ∧
      (head.path = [] → ({} : StarterSettings).fileName = []) ∧
      (head.keyword = Directive.opening ∧ head.path ≠ [] →
        Scanned ⟨['/']⟩ page o head.blanks.byteSize) ∧
      (¬ (head.keyword = Directive.opening ∧ head.path ≠ []) →
        ∀ m ∈ Directive.scan page, head.blanks.byteSize < m.1) := by
  intro page o
  have h : detect {} layoutSite ⟨['/']⟩ page = some o := rfl
  exact ⟨h, detect_scan {} layoutSite ⟨['/']⟩ page o (by decide) (by decide) h⟩

/-- A keyword in capitals is taken for a starter directive, and a scan of the page finds nothing. -/
theorem detect_scan_capitals :
    detect {} layoutSite ⟨['/']⟩ "@@INCLUDE('pages-starter.html')".toList
      = some ⟨⟨"/pages-starter.html".toList⟩, none, []⟩ ∧
    Directive.scan "@@INCLUDE('pages-starter.html')".toList = [] := ⟨rfl, rfl⟩

end Starter

end Pagefold
