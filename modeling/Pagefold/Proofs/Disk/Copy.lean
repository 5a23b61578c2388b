import Pagefold.Disk.Copy
import Pagefold.Proofs.Disk.Files

/-!
# Copying a folder

What a copy does to a disk is said once, by `copyTree_cases`: the destination is cleared, folders
are made on the way to it, and then entries are put below it, into a folder that is new.

* `Disk.Inside`, `Disk.Filling`: a folder without links that is filled;
* `Disk.fills_copyEntry`, `Disk.Filling.copyInto_grows`: what is copied is put below it;
* `Disk.copyTree_cases`: what a copy does;
* `Disk.copyTree_keeps`, `Disk.copyTree_replaced`, `Disk.copyTree_above_source`: what stays, what may
  change, and what is lost when the source lies in the destination.
-/

namespace Pagefold.Disk

variable {Q : Location → Entry → Prop} {d d' : Disk} {p : Path} {l top : Location}

/-! ## Filling a folder -/

def Inside (top : Location) (m : Location) (_ : Entry) : Prop := top <+: m ∧ m ≠ top

theorem inside_append {e : Entry} (h : top <+: l) (n : Text) : Inside top (l ++ [n]) e := by
  refine ⟨h.trans (List.prefix_append l [n]), fun heq => ?_⟩
  exact Tree.child_not_above l n (heq ▸ h)

/-- A path leads to a folder in, or at, a folder without links. -/
structure Filling (top : Location) (d : Disk) (p : Path) (l : Location) : Prop where
  wellFormed : d.tree.WellFormed
  noLink : ∀ m q, top <+: m → d.tree.at? m ≠ some (.link q)
  opens : d.Opens p l
  inside : top <+: l

theorem Opens.grows (h : d.Opens p l) (hgrows : d.Grows Q d') : d'.Opens p l := by
  refine ⟨?_, hgrows.tree_extends.folder l h.2⟩
  rw [hgrows.start_eq]
  exact h.1.mono hgrows.tree_extends

theorem start_join (d : Disk) (p : Path) {n : Text} (hn : IsName n) :
    d.start (p.join ⟨n⟩) = d.start p := by
  have habs : (p.join ⟨n⟩).isAbsolute = p.isAbsolute := by
    by_cases hp : p.text = []
    · have : p = ⟨[]⟩ := by rw [← hp]
      subst this
      simp [Path.join, Path.isAbsolute_of_isName hn]
      rfl
    · exact Path.isAbsolute_join p (Path.isAbsolute_of_isName hn) hp
  rw [start, start, habs]

namespace Filling

theorem grows (h : Filling top d p l) (hgrows : d.Grows Q d') : Filling top d' p l where
  wellFormed := hgrows.wellFormed h.wellFormed
  noLink m q hm hlink := h.noLink m q hm (hgrows.link_before hlink)
  opens := h.opens.grows hgrows
  inside := h.inside

theorem leads_child (h : Filling top d p l) {n : Text} (hn : IsName n) :
    d.tree.Leads .content maxLinks (d.start (p.join ⟨n⟩)) p.walked (.found l) := by
  rw [start_join d p hn]
  exact h.opens.1

theorem noLink_child (h : Filling top d p l) (n : Text) (q : Path) :
    d.tree.at? (l ++ [n]) ≠ some (.link q) :=
  h.noLink _ q (h.inside.trans (List.prefix_append l [n]))

theorem writeBytes_grows (h : Filling top d p l) {n : Text} (hn : IsName n) {bytes : ByteArray}
    (hwrite : d.writeBytes (p.join ⟨n⟩) bytes = .ok d') : d.Grows (Inside top) d' := by
  obtain ⟨m, hplace, hadds, -⟩ := writeBytes_ok hwrite
  have hm : m = l ++ [n] := by
    have hwalked := Path.walked_join_name p hn
    obtain ⟨-, ⟨folder, n', rfl, hleads⟩ | ⟨bytes', -, hleads⟩⟩ := writePlace_ok hplace
    · exact place_of_walked hwalked hleads (h.leads_child hn) (h.noLink_child n)
    · exact place_of_walked hwalked hleads (h.leads_child hn) (h.noLink_child n)
  refine Grows.imp (fun m' e he => ?_) (.of_adds hadds)
  rw [he.1, hm]
  exact inside_append h.inside n

theorem copyOne_grows (h : Filling top d p l) {n : Text} (hn : IsName n) (k : Nat)
    (source : Path) : d.Grows (Inside top) (copyOne d k source (p.join ⟨n⟩)).1 := by
  unfold copyOne
  split
  · next d' hcopy =>
    obtain ⟨d₁, bytes, hempty, -, hwrite⟩ := copyFile_ok hcopy
    have hfirst := h.writeBytes_grows hn hempty
    exact hfirst.trans ((h.grows hfirst).writeBytes_grows hn hwrite)
  · exact .refl d

theorem opens_child (h : Filling top d p l) {n : Text} (hn : IsName n) {m : Location}
    (hopens : d.Opens (p.join ⟨n⟩) m) : d.Opens (p.join ⟨n⟩) (l ++ [n]) := by
  have hleads := hopens.1
  rw [Path.walked_join_name p hn] at hleads
  have hm : m = l ++ [n] := place_below hleads (h.leads_child hn) (h.noLink_child n)
  exact hm ▸ hopens

theorem child (h : Filling top d p l) {n : Text} (hn : IsName n) {m : Location}
    (hopens : d.Opens (p.join ⟨n⟩) m) : Filling top d (p.join ⟨n⟩) (l ++ [n]) where
  wellFormed := h.wellFormed
  noLink := h.noLink
  opens := h.opens_child hn hopens
  inside := h.inside.trans (List.prefix_append l [n])

theorem makeFolders_grows (h : Filling top d p l) {n : Text} (hn : IsName n) :
    d.Grows (Inside top) (d.makeFolders (p.join ⟨n⟩)).1 ∧
      ((d.makeFolders (p.join ⟨n⟩)).2 = .ok () →
        Filling top (d.makeFolders (p.join ⟨n⟩)).1 (p.join ⟨n⟩) (l ++ [n])) := by
  have hwalked := Path.walked_join_name p hn
  have hparent : (p.join ⟨n⟩).parent?.isSome = true :=
    Path.parent?_isSome_of_down_mem (n := n) (by simp [hwalked])
  obtain ⟨above, -, heq⟩ := makeFolders_of_parent hparent
  rw [heq]
  rcases makeFolder_below hwalked (h.leads_child hn) h.opens.2 with ⟨hfree, hmake⟩ | ⟨r, hr, hne⟩
  · unfold makeUpwards
    rw [hmake]
    have hgrows : d.Grows (Inside top) (d.put (l ++ [n]) .folder) :=
      .of_adds (.fresh h.opens.2 hn hfree (by simp) (inside_append h.inside n))
    obtain ⟨m, hopens, -⟩ := makeFolder_fresh h.wellFormed hmake
    exact ⟨hgrows, fun _ => (h.grows hgrows).child hn hopens⟩
  · rw [makeUpwards_of_refused hr hne]
    refine ⟨.refl d, fun hok => ?_⟩
    by_cases hfolder : d.isFolder (p.join ⟨n⟩) = true
    · obtain ⟨m, hopens⟩ := opens_of_isFolder hfolder
      exact h.child hn hopens
    · simp [hfolder] at hok

end Filling

/-! ## Copying into a folder -/

theorem isName_of_mem_list {es : List (Text × Entry)} (hd : d.tree.WellFormed)
    (h : d.list p = .ok es) : ∀ x ∈ es, IsName x.1 := by
  unfold list at h
  split at h
  · cases h
  · next l _ =>
    cases h
    rintro ⟨n, e⟩ hx
    obtain ⟨n', -, hn'⟩ := List.mem_filterMap.1 hx
    obtain ⟨e', he', heq⟩ := Option.map_eq_some_iff.1 hn'
    cases heq
    exact hd.names _ _ he' n (by simp)
  · cases h

/-- Whatever copies an entry puts entries into the folder only. -/
def Fills (top : Location) (copyEntry : Copying → Path → Path → Entry → Copying) : Prop :=
  ∀ (s : Copying) (source p : Path) (n : Text) (e : Entry) (l : Location), IsName n →
    Filling top s.1 p l → s.1.Grows (Inside top) (copyEntry s source (p.join ⟨n⟩) e).1

theorem Fills.foldl {copyEntry : Copying → Path → Path → Entry → Copying}
    (hcopy : Fills top copyEntry) (source : Path) {es : List (Text × Entry)}
    (hes : ∀ x ∈ es, IsName x.1) {s : Copying} (h : Filling top s.1 p l) :
    s.1.Grows (Inside top)
      (es.foldl (fun s (m, e) => copyEntry s (source.join ⟨m⟩) (p.join ⟨m⟩) e) s).1 := by
  induction es generalizing s with
  | nil => exact .refl s.1
  | cons x es ih =>
    have hfirst := hcopy s (source.join ⟨x.1⟩) p x.1 x.2 l (hes x List.mem_cons_self) h
    exact hfirst.trans (ih (fun y hy => hes y (List.mem_cons_of_mem x hy)) (h.grows hfirst))

theorem Fills.copyFolder {copyEntry : Copying → Path → Path → Entry → Copying}
    (hcopy : Fills top copyEntry) (hd : d.tree.WellFormed) (k : Nat) (source : Path) {made : Path}
    (hmade : d.Grows (Inside top) (d.makeFolders made).1)
    (hfilling : (d.makeFolders made).2 = .ok () → Filling top (d.makeFolders made).1 p l) :
    d.Grows (Inside top) (copyFolder copyEntry d k source p made).1 := by
  unfold Disk.copyFolder
  generalize d.makeFolders made = made at hmade hfilling
  obtain ⟨d₁, _ | _⟩ := made
  · exact hmade
  · simp only
    cases hlist : d.list source with
    | error r => exact hmade
    | ok es =>
      have hstart : Filling top ((d₁, .ok k) : Copying).1 p l := hfilling rfl
      exact hmade.trans (hcopy.foldl source (isName_of_mem_list hd hlist) hstart)

/-- An entry is copied into the folder. -/
theorem fills_copyEntry (top : Location) (depth : Nat) : Fills top (copyEntry depth) := by
  induction depth with
  | zero =>
    rintro ⟨d, _ | k⟩ source p n e l hn h
    · exact .refl d
    · exact .refl d
  | succ depth ih =>
    rintro ⟨d, _ | k⟩ source p n e l hn h
    · exact .refl d
    · cases e with
      | file bytes => exact h.copyOne_grows hn k source
      | link q => exact .refl d
      | folder =>
        obtain ⟨hmade, hfilling⟩ := h.makeFolders_grows hn
        exact ih.copyFolder h.wellFormed k source hmade hfilling

/-- No file is written to a folder that is told by its path. -/
theorem copyOne_of_opens (h : d.Opens p l) (hp : p.text = [] ∨ p.endStep = [.slash]) (k : Nat)
    (source : Path) : (copyOne d k source p).1 = d := by
  unfold copyOne
  split
  · next d' hcopy =>
    obtain ⟨d₁, bytes, hempty, -⟩ := copyFile_ok hcopy
    obtain ⟨m, hplace, -⟩ := writeBytes_ok hempty
    obtain ⟨hwell, hleads⟩ := writePlace_ok hplace
    have hslash : p.endStep = [.slash] := hp.resolve_left (text_ne_nil_of_wellFormed hwell)
    rcases hleads with ⟨folder, n, -, hleads⟩ | ⟨bytes', hfile, hleads⟩
    · cases reached_of_slash hslash hleads h.1
    · cases reached_of_slash hslash hleads h.1
      rw [h.2] at hfile
      cases hfile
  · rfl

theorem endStep_join_nil (p : Path) :
    (p.join ⟨[]⟩).text = [] ∨ (p.join ⟨[]⟩).endStep = [.slash] := by
  by_cases hp : p.text = []
  · left
    obtain rfl : p = ⟨[]⟩ := by rw [← hp]
    rfl
  · exact .inr (Path.endStep_join_nil hp)

theorem Opens.join_nil (h : d.Opens p l) : d.Opens (p.join ⟨[]⟩) l := by
  by_cases hp : p.text = []
  · obtain rfl : p = ⟨[]⟩ := by rw [← hp]
    exact h
  refine ⟨?_, h.2⟩
  have habs := Path.isAbsolute_join p (p := ⟨[]⟩) rfl hp
  have hstart : d.start (p.join ⟨[]⟩) = d.start p := by rw [start, start, habs]
  rw [hstart, Path.walked_join p rfl, Path.walked_nil, List.append_nil]
  exact h.1

/-- What a source holds is put into the folder. -/
theorem Filling.copyInto_grows (h : Filling top d p l) (source : Path) :
    d.Grows (Inside top) (d.copyInto source p).1 := by
  have hmade := makeFolders_of_opens h.opens.join_nil
  have hsame := makeFolders_of_opens h.opens
  unfold copyInto
  simp only
  split
  · exact .refl d
  · rw [copyOne_of_opens h.opens.join_nil (endStep_join_nil p)]
    exact .refl d
  · refine (fills_copyEntry top maxPathBytes).copyFolder (l := l) h.wellFormed 0 source ?_ fun _ => ?_
    · rw [hmade]
      exact .refl d
    · rw [hmade]
      exact h
  · split
    · exact .refl d
    · refine (fills_copyEntry top maxPathBytes).copyFolder (l := l) h.wellFormed 0 source ?_ fun _ => ?_
      · rw [hsame]
        exact .refl d
      · rw [hsame]
        exact h
    · exact .refl d

/-! ## The whole copy -/

/-- The destination is cleared, unless it is no folder and stays as it is. -/
def Readied (d : Disk) (dest : Path) (d₁ : Disk) : Prop :=
  (d₁ = d ∧ ∀ l, d.entry dest .entry ≠ .ok (l, .folder)) ∨
    ∃ l e, d.entry dest .entry = .ok (l, e) ∧ Cleared d l d₁

theorem Readied.wellFormed {dest : Path} (h : Readied d dest d') (hd : d.tree.WellFormed) :
    d'.tree.WellFormed := by
  rcases h with ⟨rfl, -⟩ | ⟨l, e, -, hcleared⟩
  · exact hd
  · exact hcleared.wellFormed hd

theorem Readied.linkFree {dest : Path} (h : Readied d dest d') (hd : d.tree.LinkFree) :
    d'.tree.LinkFree := by
  rcases h with ⟨rfl, -⟩ | ⟨l, e, -, hcleared⟩
  · exact hd
  · exact hcleared.linkFree hd

theorem Readied.start_eq {dest : Path} (h : Readied d dest d') (p : Path) :
    d'.start p = d.start p := by
  rcases h with ⟨rfl, -⟩ | ⟨l, e, -, hcleared⟩
  · rfl
  · exact hcleared.start_eq p

theorem Readied.within {dest : Path} (h : Readied d dest d') {m : Location} {e : Entry}
    (hm : d'.tree.at? m = some e) : d.tree.at? m = some e := by
  rcases h with ⟨rfl, -⟩ | ⟨l, x, -, hcleared⟩
  · exact hm
  · exact hcleared.within m e hm

theorem Readied.here_eq {dest : Path} (h : Readied d dest d') : d'.here = d.here := by
  rcases h with ⟨rfl, -⟩ | ⟨l, x, -, hcleared⟩
  · rfl
  · exact hcleared.here_eq

/-- Where the destination is removed, or was not there, its path leads nowhere. -/
theorem readied_removed (hd : d.tree.WellFormed) (dest : Path) {removed : Edit Unit}
    (h : removed = if d.present dest then d.removeFolder dest else (d, .ok ())) :
    Readied d dest removed.1 ∧ (removed.2 = .ok () → removed.1.present dest = false) := by
  subst h
  by_cases hpresent : d.present dest = true
  · rw [if_pos hpresent]
    rcases removeFolder_cases hd dest with ⟨hd₁, hr, hfolder⟩ | ⟨l, e, hentry, hcleared, hgone⟩
    · exact ⟨.inl ⟨hd₁, hfolder⟩, fun hok => absurd hok hr⟩
    · exact ⟨.inr ⟨l, e, hentry, hcleared⟩, hgone⟩
  · rw [if_neg hpresent]
    refine ⟨.inl ⟨rfl, fun l hl => hpresent ?_⟩, fun _ => by simpa using hpresent⟩
    obtain ⟨hreach, hfolder⟩ := entry_ok_iff.1 hl
    obtain ⟨hwell, hleads⟩ := reach_ok_iff.1 hreach
    have hcontent := reach_ok_iff.2 ⟨hwell, hleads.content_of_entry hfolder (by simp)⟩
    exact present_iff.2 ⟨l, .folder, entry_ok_iff.2 ⟨hcontent, hfolder⟩⟩

theorem Filling.of_fresh (hd : d.tree.WellFormed) (hopens : d.Opens p l)
    (hempty : ∀ m, l <+: m → m ≠ l → d.tree.at? m = none) : Filling l d p l where
  wellFormed := hd
  noLink m q hm hlink := by
    by_cases hml : m = l
    · rw [hml, hopens.2] at hlink
      cases hlink
    · rw [hempty m hm hml] at hlink
      cases hlink
  opens := hopens
  inside := List.prefix_refl l

/-- A copy goes on from step to step: the destination is cleared, folders are made, and what the
source holds is copied. -/
theorem copyTree_steps (hd : d.tree.WellFormed) (source dest : Path) :
    (source.normalize = dest.normalize ∧ (d.copyTree source dest).1 = d) ∨
    ∃ d₁, Readied d dest d₁ ∧
      ((d.copyTree source dest).1 = d₁ ∨
        d₁.present dest = false ∧
          ((d.copyTree source dest).1 = (d₁.makeFolders dest).1 ∨
            (d₁.makeFolders dest).2 = .ok () ∧
              (d.copyTree source dest).1 = ((d₁.makeFolders dest).1.copyInto source dest).1)) := by
  unfold copyTree
  by_cases hsame : source.normalize = dest.normalize
  · rw [if_pos hsame]
    exact .inl ⟨hsame, rfl⟩
  · right
    rw [if_neg hsame]
    simp only
    generalize hremoved : (if d.present dest then d.removeFolder dest else (d, .ok ())) = removed
    obtain ⟨hready, hgone⟩ := readied_removed hd dest hremoved.symm
    obtain ⟨d₁, _ | _⟩ := removed
    · exact ⟨d₁, hready, .inl rfl⟩
    · refine ⟨d₁, hready, .inr ⟨hgone rfl, ?_⟩⟩
      simp only
      generalize d₁.makeFolders dest = made
      obtain ⟨d₂, _ | _⟩ := made
      · exact .inl rfl
      · exact .inr ⟨rfl, rfl⟩

/-- What a copy does to a path with a parent and without `..`: the folder that is filled is new and
empty. -/
theorem copyTree_cases {dest : Path} (hd : d.tree.WellFormed) (hparent : dest.parent?.isSome = true)
    (hup : .up ∉ dest.walked) (source : Path) :
    (source.normalize = dest.normalize ∧ (d.copyTree source dest).1 = d) ∨
    ∃ d₁ d₂ : Disk, Readied d dest d₁ ∧ d₁.Grows (OnTheWay d₁ dest) d₂ ∧
      ((d.copyTree source dest).1 = d₂ ∨
        ∃ l, d₂.Opens dest l ∧ d₁.tree.at? l = none ∧
          (∀ m, l <+: m → m ≠ l → d₂.tree.at? m = none) ∧
          d₂.Grows (Inside l) (d₂.copyInto source dest).1 ∧
          (d.copyTree source dest).1 = (d₂.copyInto source dest).1) := by
  rcases copyTree_steps hd source dest with hsame | ⟨d₁, hready, hstop | ⟨hgone, hsteps⟩⟩
  · exact .inl hsame
  · exact .inr ⟨d₁, d₁, hready, .refl d₁, .inl hstop⟩
  · have hd₁ := hready.wellFormed hd
    have hmade := makeFolders_grows hd₁ hup
    refine .inr ⟨d₁, (d₁.makeFolders dest).1, hready, hmade, hsteps.imp_right ?_⟩
    rintro ⟨hok, heq⟩
    obtain ⟨l, hopens, hnone, hempty⟩ :=
      makeFolders_fresh hd₁ hparent hup hgone (Prod.ext rfl hok)
    have hfilling := Filling.of_fresh (hmade.wellFormed hd₁) hopens hempty
    exact ⟨l, hopens, hnone, hempty, hfilling.copyInto_grows source, heq⟩

/-! ## What stays -/

/-- A destination is at a location: its path leads there, or would lead there without links. -/
def DestinationAt (d : Disk) (dest : Path) (l : Location) : Prop :=
  (∃ e, d.entry dest .entry = .ok (l, e)) ∨
    d.tree.LinkFree ∧ l = Step.leadAll (d.start dest) dest.walked

/-- Without links, a destination is where its path leads on paper. -/
theorem destinationAt_iff (hd : d.tree.LinkFree) :
    DestinationAt d p l ↔ l = Step.leadAll (d.start p) p.walked := by
  constructor
  · rintro (⟨e, he⟩ | ⟨-, hl⟩)
    · exact location_eq hd he
    · exact hl
  · exact fun hl => .inr ⟨hd, hl⟩

/-- A destination is told by its path: there are no links, or it has a parent and no `..`. -/
def Plain (d : Disk) (dest : Path) : Prop :=
  d.tree.LinkFree ∨ dest.parent?.isSome = true ∧ .up ∉ dest.walked

theorem Readied.here {dest : Path} (h : Readied d dest d') (hd : d.WellFormed)
    (hdest : dest.text = []) : d'.tree.at? d'.here = some .folder := by
  rcases h with ⟨rfl, -⟩ | ⟨l, e, hentry, -⟩
  · exact hd.here
  · -- Nothing can be removed by the empty path.
    have hwell := (reach_ok_iff.1 (entry_ok_iff.1 hentry).1).1
    exact absurd hdest (text_ne_nil_of_wellFormed hwell)

theorem Readied.keeps {dest : Path} {m : Location} (h : Readied d dest d')
    (hout : ∀ l, DestinationAt d dest l → ¬ l <+: m) : d'.tree.at? m = d.tree.at? m := by
  rcases h with ⟨rfl, -⟩ | ⟨l, e, hentry, hcleared⟩
  · rfl
  · exact hcleared.outside m (hout l (.inl ⟨e, hentry⟩))

/-- What is not at the destination and not below it stays, wherever the source is. -/
theorem copyTree_keeps {dest : Path} (hd : d.WellFormed) (hdest : d.Plain dest) (source : Path)
    {m : Location} {e : Entry} (hm : d.tree.at? m = some e)
    (hout : ∀ l, DestinationAt d dest l → ¬ l <+: m) :
    (d.copyTree source dest).1.tree.at? m = some e := by
  rcases hdest with hlinks | ⟨hparent, hup⟩
  · -- Without links, what is filled is where the path leads on paper.
    rcases copyTree_steps hd.tree source dest with ⟨-, hsame⟩ | ⟨d₁, hready, hsteps⟩
    · rw [hsame, hm]
    have hd₁ := hready.wellFormed hd.tree
    have hm₁ := (hready.keeps hout).trans hm
    have hmade : d₁.Grows _ (d₁.makeFolders dest).1 := makeUpwards_grows hd₁ _
    have hm₂ := hmade.keeps hm₁ fun bytes h => by cases h.1
    rcases hsteps with heq | ⟨-, heq | ⟨hok, heq⟩⟩
    · rw [heq, hm₁]
    · rw [heq, hm₂]
    · have hlinks₂ := hmade.linkFree (hready.linkFree hlinks)
      obtain ⟨l, hopens⟩ := makeFolders_opens hd₁ (hready.here hd) (Prod.ext rfl hok)
      have hfilling : Filling l _ dest l :=
        ⟨hmade.wellFormed hd₁, fun k q _ => hlinks₂ k q, hopens, List.prefix_refl l⟩
      have hl : l = Step.leadAll (d.start dest) dest.walked := by
        have hplace : l = _ := hopens.1.place_eq hlinks₂
        rwa [hmade.start_eq, hready.start_eq] at hplace
      rw [heq]
      refine (hfilling.copyInto_grows source).keeps hm₂ fun bytes hinside => ?_
      exact hout l (.inr ⟨hlinks, hl⟩) hinside.1
  · -- What is filled is a new folder, so nothing that was there before is in it.
    rcases copyTree_cases hd.tree hparent hup source with
      ⟨-, hsame⟩ | ⟨d₁, d₂, hready, hmade, hcopy⟩
    · rw [hsame, hm]
    have hm₂ := hmade.keeps ((hready.keeps hout).trans hm) fun bytes h => by cases h.1
    rcases hcopy with heq | ⟨l, -, -, hempty, hfilled, heq⟩
    · rw [heq, hm₂]
    · rw [heq]
      refine hfilled.keeps hm₂ fun bytes hinside => ?_
      rw [hempty m hinside.1 hinside.2] at hm₂
      cases hm₂

/-- What a copy puts on a disk: folders on the way to a location, and entries below it. -/
def CopiedTo (l m : Location) (e : Entry) : Prop := e = .folder ∧ m <+: l ∨ Inside l m e

/-- Without links, a copy clears its destination, and puts what it copies there. -/
theorem copyTree_grows {dest : Path} (hd : d.tree.WellFormed) (hlinks : d.tree.LinkFree)
    (hparent : dest.parent?.isSome = true) (hup : .up ∉ dest.walked) (source : Path) :
    (d.copyTree source dest).1 = d ∨ ∃ d₁, Readied d dest d₁ ∧
      d₁.Grows (CopiedTo (Step.leadAll (d.start dest) dest.walked)) (d.copyTree source dest).1 := by
  rcases copyTree_cases hd hparent hup source with ⟨-, hsame⟩ | ⟨d₁, d₂, hready, hmade, hcopy⟩
  · exact .inl hsame
  refine .inr ⟨d₁, hready, ?_⟩
  have hlinks₁ := hready.linkFree hlinks
  have hway : d₁.Grows (CopiedTo (Step.leadAll (d.start dest) dest.walked)) d₂ := by
    refine hmade.imp fun m e he => .inl ⟨he.1, ?_⟩
    rw [← hready.start_eq]
    exact he.2 hlinks₁
  rcases hcopy with heq | ⟨l, hopens, -, -, hfilled, heq⟩
  · rw [heq]
    exact hway
  · have hl : l = Step.leadAll (d₂.start dest) dest.walked :=
      hopens.1.place_eq (hmade.linkFree hlinks₁)
    rw [hmade.start_eq, hready.start_eq] at hl
    rw [heq]
    exact hway.trans (hfilled.imp fun m e he => .inr (hl ▸ he))

/-- A folder is replaced: what changed lies there and below it, or is a new folder on the way to it. -/
structure Replaced (d : Disk) (l : Location) (d' : Disk) : Prop where
  here_eq : d'.here = d.here
  wellFormed : d'.tree.WellFormed
  linkFree : d'.tree.LinkFree
  changes : ∀ m, d'.tree.at? m ≠ d.tree.at? m →
    l <+: m ∨ m <+: l ∧ d.tree.at? m = none ∧ d'.tree.at? m = some .folder
  no_file : ∀ bytes, d'.tree.at? l = some (.file bytes) → d.tree.at? l = some (.file bytes)

theorem Replaced.refl (hd : d.tree.WellFormed) (hlinks : d.tree.LinkFree) (l : Location) :
    Replaced d l d :=
  ⟨rfl, hd, hlinks, fun _ hm => absurd rfl hm, fun _ => id⟩

/-- Without links, only what is at the destination and below it can change, and folders can be made
on the way to it. -/
theorem copyTree_replaced {dest : Path} (hd : d.tree.WellFormed) (hlinks : d.tree.LinkFree)
    (hparent : dest.parent?.isSome = true) (hup : .up ∉ dest.walked) (source : Path) :
    Replaced d (Step.leadAll (d.start dest) dest.walked) (d.copyTree source dest).1 := by
  rcases copyTree_grows hd hlinks hparent hup source with hsame | ⟨d₁, hready, hgrows⟩
  · rw [hsame]
    exact .refl hd hlinks _
  generalize hl : Step.leadAll (d.start dest) dest.walked = l at hgrows ⊢
  refine ⟨hgrows.here_eq.trans hready.here_eq, hgrows.wellFormed (hready.wellFormed hd),
    hgrows.linkFree (hready.linkFree hlinks), fun m hm => ?_, fun bytes hfile => ?_⟩
  · by_cases hout : l <+: m
    · exact .inl hout
    right
    -- Outside of the destination nothing was cleared, so only a folder on the way can be new.
    have hsame : d₁.tree.at? m = d.tree.at? m := by
      refine hready.keeps fun k hk => ?_
      rwa [(destinationAt_iff hlinks).1 hk, hl]
    rcases hgrows.at?_eq_or m with hlast | ⟨x, hx, ⟨rfl, hway⟩ | hinside, -, hbefore⟩
    · exact absurd (hlast.trans hsame) hm
    · rcases hbefore with hnone | ⟨bytes, bytes', -, hfile⟩
      · exact ⟨hway, hsame ▸ hnone, hx⟩
      · cases hfile
    · exact absurd hinside.1 hout
  · rcases hgrows.at?_eq_or l with hlast | ⟨x, hx, ⟨rfl, -⟩ | hinside, -⟩
    · rw [hlast] at hfile
      exact hready.within hfile
    · rw [hfile] at hx
      cases hx
    · exact absurd rfl hinside.2

/-- Without links, a copy of what lies below the destination destroys all that lies there, and copies
nothing. -/
theorem copyTree_above_source {source dest : Path} {l m : Location} {e : Entry}
    (hd : d.tree.WellFormed) (hlinks : d.tree.LinkFree) (hparent : dest.parent?.isSome = true)
    (hup : .up ∉ dest.walked) (hdiff : source.normalize ≠ dest.normalize)
    (hdest : d.entry dest .entry = .ok (l, e))
    (hsource : d.entry source .content = .ok (m, .folder)) (hlm : l <+: m) (hne : l ≠ m)
    {n : Location} (hn : l <+: n) (hnl : n ≠ l) :
    (d.copyTree source dest).1.tree.at? n = none := by
  have hsome := (entry_ok_iff.1 hsource).2
  have he : e = .folder := by
    have := hd.folder_above hsome hlm hne
    rw [(entry_ok_iff.1 hdest).2] at this
    exact Option.some.inj this
  subst he
  have hl := location_eq hlinks hdest
  rcases copyTree_cases hd hparent hup source with ⟨hsame, -⟩ | ⟨d₁, d₂, hready, hmade, hcopy⟩
  · exact absurd hsame hdiff
  rcases hready with ⟨-, hnone⟩ | ⟨l', x, hentry, hcleared⟩
  · exact absurd hdest (hnone l)
  rw [hdest] at hentry
  cases hentry
  have hlinks₁ := hcleared.linkFree hlinks
  -- What lay below the destination is gone, and the new folder is empty.
  have hbelow : ∀ k, l <+: k → k ≠ l → d₂.tree.at? k = none := by
    intro k hk hkl
    rcases hmade.at?_eq_or k with hsame | ⟨x, -, ⟨-, hway⟩, -⟩
    · rw [hsame, hcleared.below k hk hkl]
    · have hkl' := hway hlinks₁
      rw [hcleared.start_eq, ← hl] at hkl'
      exact absurd (hkl'.eq_of_length_le hk.length_le) hkl
  rcases hcopy with heq | ⟨-, -, -, -, -, heq⟩
  · rw [heq, hbelow n hn hnl]
  · have hgone : ∀ k x, d₂.entry source .entry ≠ .ok (k, x) := by
      intro k x hk
      have hplace := location_eq (hmade.linkFree hlinks₁) hk
      rw [hmade.start_eq, hcleared.start_eq, ← location_eq hlinks hsource] at hplace
      have hkx := (entry_ok_iff.1 hk).2
      rw [hplace, hbelow m hlm (Ne.symm hne)] at hkx
      cases hkx
    have hstop : (d₂.copyInto source dest).1 = d₂ := by
      unfold copyInto
      cases hk : d₂.entry source .entry with
      | error r => rfl
      | ok x => exact absurd hk (hgone x.1 x.2)
    rw [heq, hstop, hbelow n hn hnl]

end Pagefold.Disk
