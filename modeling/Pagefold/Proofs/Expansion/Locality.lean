import Pagefold.Proofs.Expansion.Outcome

/-!
# What an expansion depends on

An expansion asks a disk for two things: whether the paths that it meets lead to files, and what is
in those that do. So it comes out the same on any disk that gives the same answers. That a file is
missing is one of them: a layout that turns up changes what a page is.

* `Expansion.named`, `Expansion.wanted`: the paths that a text names, and those it is expanded by;
* `Expansion.children_eq`, `Expansion.Misses`: the files among them are included, the others missed;
* `Expansion.expandBody_congr`: one step of an expansion on two disks;
* `Expansion.SameView`: what is reached and what is missed from a file is the same on two disks;
* `Expansion.resolve_local`: then the outcome is the same.
-/

namespace Pagefold.Expansion

variable {s : StarterSettings} {d d' : Disk} {folder f g : Path} {t : Text}
  {include₁ include₂ : Path → Recorded Text}

/-! ## What a file asks for -/

/-- Where the directives of a text in a folder lead, to a file or not. -/
def named (folder : Path) (t : Text) : List Path := (written t).map folder.included

/-- The paths that are looked up for the text of a file in a folder: that of a starter directive at
its head, if there is one, and those in the directives of what is expanded. -/
def wanted (s : StarterSettings) (d : Disk) (folder : Path) (t : Text) : List Path :=
  (Starter.read? s.fileName t).toList.map (fun head => folder.included head.1)
    ++ match Starter.detect s d folder t with
      | some o => named folder o.content
      | none => named folder t

/-- A file with a readable text asks for a path that does not lead to a file. -/
def Misses (s : StarterSettings) (d : Disk) (f g : Path) : Prop :=
  ∃ t, d.readText f = .ok t ∧ g ∈ wanted s d (folderOf f) t ∧ d.isFile g = false

theorem misses_iff (ht : d.readText f = .ok t) :
    Misses s d f g ↔ g ∈ wanted s d (folderOf f) t ∧ d.isFile g = false := by
  constructor
  · rintro ⟨t', ht', h⟩
    rw [ht] at ht'
    cases ht'
    exact h
  · exact fun h => ⟨t, ht, h⟩

theorem mem_named :
    g ∈ named folder t ↔ ∃ x ∈ Directive.pattern.hits t, folder.included x.path = g := by
  rw [named, written_eq, List.map_map, List.mem_map]
  rfl

theorem children_eq (s : StarterSettings) (d : Disk) (folder : Path) (t : Text) :
    children s d folder t = (wanted s d folder t).filter d.isFile := by
  have htargets : ∀ u, targets d folder u = (named folder u).filter d.isFile := by
    intro u
    rw [targets, named, written, List.map_map]
    rfl
  unfold children wanted Starter.detect
  cases Starter.read? s.fileName t with
  | none => exact htargets t
  | some head =>
    obtain ⟨path, context, content⟩ := head
    cases hlayout : d.isFile (folder.included path) with
    | true => simp [hlayout, htargets]
    | false => simp [hlayout, htargets]

/-! ## One step on two disks -/

theorem detect_congr (h : ∀ g ∈ wanted s d folder t, d'.isFile g = d.isFile g) :
    Starter.detect s d' folder t = Starter.detect s d folder t := by
  unfold Starter.detect
  cases hread : Starter.read? s.fileName t with
  | none => rfl
  | some head =>
    have hmem : folder.included head.1 ∈ wanted s d folder t := by simp [wanted, hread]
    simp only [h _ hmem]

theorem expandPieces_congr {expand₁ expand₂ : Directive → Recorded Text}
    {ps : List (Piece Directive)} (h : ∀ x ∈ ps.filterMap Piece.value?, expand₂ x = expand₁ x)
    (log : List Diagnostic) (done : Text) :
    expandPieces expand₂ log done ps = expandPieces expand₁ log done ps := by
  induction ps generalizing log done with
  | nil => rfl
  | cons p ps ih =>
    cases p with
    | plain c => exact ih h log (c :: done)
    | hit source x =>
      rw [Piece.values_hit, List.forall_mem_cons] at h
      rw [expandPieces, expandPieces, h.1]
      split
      · rfl
      · exact ih h.2 _ _

theorem expandText_congr [Matcher] (hfile : ∀ g ∈ named folder t, d'.isFile g = d.isFile g)
    (hinclude : ∀ g ∈ named folder t, d.isFile g = true → include₂ g = include₁ g) :
    expandText include₂ d' folder t = expandText include₁ d folder t := by
  refine expandPieces_congr (fun x hx => ?_) [] []
  have hmem : folder.included x.path ∈ named folder t := mem_named.2 ⟨x, hx, rfl⟩
  simp only [expandDirective, hfile _ hmem]
  split
  · next hf => rw [hinclude _ hmem hf]
  · rfl

/-- A text is expanded alike on two disks if the same of what it asks for are files there, and those
are expanded alike. -/
theorem expandBody_congr [Matcher] (hfile : ∀ g ∈ wanted s d folder t, d'.isFile g = d.isFile g)
    (hinclude : ∀ g ∈ children s d folder t, include₂ g = include₁ g) :
    expandBody s include₂ d' folder t = expandBody s include₁ d folder t := by
  have hfiles : ∀ g ∈ wanted s d folder t, d.isFile g = true → include₂ g = include₁ g := by
    intro g hg hf
    apply hinclude
    rw [children_eq, List.mem_filter]
    exact ⟨hg, hf⟩
  unfold expandBody
  rw [detect_congr hfile]
  cases ho : Starter.detect s d folder t with
  | none =>
    have hnamed : ∀ g ∈ named folder t, g ∈ wanted s d folder t := by
      intro g hg
      simp [wanted, ho, hg]
    exact expandText_congr (fun g hg => hfile g (hnamed g hg)) fun g hg => hfiles g (hnamed g hg)
  | some o =>
    have hnamed : ∀ g ∈ named folder o.content, g ∈ wanted s d folder t := by
      intro g hg
      simp [wanted, ho, hg]
    have hlayout : include₂ o.layout = include₁ o.layout := by
      apply hinclude
      simp [children, ho]
    have hpage := expandText_congr (fun g hg => hfile g (hnamed g hg))
      fun g hg => hfiles g (hnamed g hg)
    simp only [expandPage, hlayout, hpage]

/-! ## Two disks -/

/-- Seen from a file, two disks are the same. What can be read at each file that is reached on the
one can be read there on the other, and what is missed on the one is missing on the other. -/
structure SameView (s : StarterSettings) (d d' : Disk) (f : Path) : Prop where
  readBytes_eq : ∀ g, Reaches s d f g → d'.readBytes g = d.readBytes g
  isFile_eq_false : ∀ g h, Reaches s d f g → Misses s d g h → d'.isFile h = false

namespace SameView

theorem readText_eq (h : SameView s d d' f) : d'.readText f = d.readText f := by
  rw [Disk.readText, Disk.readText, h.readBytes_eq f .refl]

/-- What is seen from an included file is seen from the file that includes it. -/
theorem of_includes (h : SameView s d d' f) (hg : Includes s d f g) : SameView s d d' g where
  readBytes_eq := fun k hk => h.readBytes_eq k (.head hg hk)
  isFile_eq_false := fun k m hk => h.isFile_eq_false k m (.head hg hk)

theorem isFile_eq (h : SameView s d d' f) (ht : d.readText f = .ok t)
    (hg : g ∈ wanted s d (folderOf f) t) : d'.isFile g = d.isFile g := by
  cases hf : d.isFile g with
  | false => exact h.isFile_eq_false f g .refl ⟨t, ht, hg, hf⟩
  | true =>
    have hincludes : Includes s d f g := by
      refine ⟨t, ht, ?_⟩
      rw [children_eq, List.mem_filter]
      exact ⟨hg, hf⟩
    rw [Disk.isFile_iff_readBytes] at hf ⊢
    rw [h.readBytes_eq g (.single hincludes)]
    exact hf

end SameView

/-- A file is expanded alike on two disks that are the same seen from it, on any chain. -/
theorem resolveFile_local [Matcher] (hf : f.Canonical) (h : SameView s d d' f) (v : Chain) :
    resolveFile s d' v f = resolveFile s d v f := by
  -- The chain is the same on both disks; it grows by files that are read on both.
  induction v using Chain.extend_induction d generalizing f with
  | h v ih =>
    cases hv : v.has f with
    | true => rw [resolveFile_of_has hf hv, resolveFile_of_has hf hv]
    | false =>
      have hread := h.readText_eq
      cases ht : d.readText f with
      | error why =>
        rw [ht] at hread
        rw [resolveFile_of_unreadable hf hv ht, resolveFile_of_unreadable hf hv hread]
      | ok t =>
        rw [ht] at hread
        rw [resolveFile_of_readable hf hv ht, resolveFile_of_readable hf hv hread]
        refine expandBody_congr (fun g hg => h.isFile_eq ht hg) fun g hg => ?_
        exact ih f t hv ht (canonical_of_mem_children (canonical_folderOf hf) hg)
          (h.of_includes ⟨t, ht, hg⟩)

/-- A page depends only on the files that it reaches and on the paths that it misses. If the former
have the same bytes in another tree, and the latter do not lead to files there either, the page comes
out the same: with the same text or in the same fault, and with the same diagnostics in the same
order. -/
theorem resolve_local [Matcher] (s : StarterSettings) (F G : Tree) (here : Location) (p f : Path)
    (hp : Disk.absolute ⟨F, here⟩ p = .ok f) (h : SameView s ⟨F, here⟩ ⟨G, here⟩ f) :
    resolve s ⟨G, here⟩ p = resolve s ⟨F, here⟩ p := by
  have hp' : Disk.absolute ⟨G, here⟩ p = .ok f := hp
  rw [resolve, resolve, resolveFile_of_absolute hp, resolveFile_of_absolute hp']
  exact resolveFile_local (Disk.absolute_canonical hp) h []

/-- A tree with a page that asks for a part and for a layout, which is not there, and with something
else. -/
def besideSite (name : Text) (e : Entry) : Tree :=
  ⟨[(["p".toList], .file "@@include('pages-starter.html')@@include('a')".toUTF8),
    (["a".toList], .file "x".toUTF8), ([name], e)]⟩

def noteSite : Disk := ⟨besideSite ['b'] (.file "@@include('p')".toUTF8), []⟩

def folderSite : Disk := ⟨besideSite ['c'] .folder, []⟩

theorem sameView_noteSite : SameView {} noteSite folderSite ⟨"/p".toList⟩ := by
  have hpage : noteSite.readText ⟨"/p".toList⟩
      = .ok "@@include('pages-starter.html')@@include('a')".toList := rfl
  have hpart : noteSite.readText ⟨"/a".toList⟩ = .ok "x".toList := rfl
  have hincludes : children {} noteSite (folderOf ⟨"/p".toList⟩)
      "@@include('pages-starter.html')@@include('a')".toList = [⟨"/a".toList⟩] := by decide
  have hnone : children {} noteSite (folderOf ⟨"/a".toList⟩) "x".toList = [] := by decide
  have hmissed : ∀ h ∈ wanted {} noteSite (folderOf ⟨"/p".toList⟩)
      "@@include('pages-starter.html')@@include('a')".toList,
      noteSite.isFile h = false → folderSite.isFile h = false := by decide
  have hasked : wanted {} noteSite (folderOf ⟨"/a".toList⟩) "x".toList = [] := by decide
  have hall : ∀ g, Reaches {} noteSite ⟨"/p".toList⟩ g →
      folderSite.readBytes g = noteSite.readBytes g ∧
        ∀ h, Misses {} noteSite g h → folderSite.isFile h = false := by
    simp only [forall_reaches_iff hpage, hincludes, List.forall_mem_singleton,
      forall_reaches_iff hpart, hnone, misses_iff hpage, misses_iff hpart, hasked]
    exact ⟨⟨rfl, fun h hh => hmissed h hh.1 hh.2⟩, ⟨rfl, by simp⟩, by simp⟩
  exact ⟨fun g hg => (hall g hg).1, fun g h hg => (hall g hg).2 h⟩

section

attribute [local instance] Matcher.unlimited

theorem resolve_local_of_noteSite :
    noteSite.absolute ⟨"p".toList⟩ = .ok ⟨"/p".toList⟩ ∧
    SameView {} noteSite folderSite ⟨"/p".toList⟩ ∧
    resolve {} folderSite ⟨"p".toList⟩ = resolve {} noteSite ⟨"p".toList⟩ :=
  ⟨rfl, sameView_noteSite,
    resolve_local {} noteSite.tree folderSite.tree [] _ _ rfl sameView_noteSite⟩

end

end Pagefold.Expansion
