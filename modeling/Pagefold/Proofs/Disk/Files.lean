import Pagefold.Proofs.Disk.Folders

/-!
# Writing files and removing folders

* `Disk.writeBytes_ok`, `Disk.copyFile_ok`: a file that is written holds what was written, and
  nothing else changes;
* `Disk.Cleared`, `Disk.removeFolder_cases`: a folder that is removed takes with it what is below it,
  even when it cannot be removed itself.
-/

namespace Pagefold.Disk

variable {d d' : Disk} {p : Path} {l m : Location}

/-! ## A name in a folder -/

/-- A name in a folder, unless it is a link, leads right below the folder. -/
theorem place_below {t : Tree} {purpose : Purpose} {k : Nat} {start : Location} {ss : List Step}
    {n : Text} {r : Reached} (h : t.Leads purpose k start (ss ++ [.down n]) r)
    (hl : t.Leads .content k start ss (.found l)) (hlink : ∀ q, t.at? (l ++ [n]) ≠ some (.link q)) :
    r.place = l ++ [n] := by
  obtain ⟨l', hl', hend⟩ := h.split (by simp)
  cases hl'.unique hl
  cases hend with
  | free => rfl
  | link _ _ _ hm => exact absurd hm (hlink _)
  | down _ _ _ _ _ hrest =>
    cases hrest
    rfl
  | follow _ _ _ _ hm => exact absurd hm (hlink _)

/-- A path whose last name is not a link leads right below the folder of that name, with a slash at
its end or without. -/
theorem place_of_walked {t : Tree} {purpose : Purpose} {k : Nat} {start : Location}
    {ss : List Step} {n : Text} {r : Reached} (hp : p.walked = ss ++ [.down n])
    (h : t.Leads purpose k start p.steps r) (hl : t.Leads .content k start ss (.found l))
    (hlink : ∀ q, t.at? (l ++ [n]) ≠ some (.link q)) : r.place = l ++ [n] := by
  rw [Path.steps_eq, hp] at h
  rcases p.endStep_cases with he | he
  · rw [he, List.append_nil] at h
    exact place_below h hl hlink
  · rw [he] at h
    obtain ⟨m, hm, hend⟩ := h.split (by simp)
    cases hend with
    | slash _ hrest =>
      cases hrest
      exact place_below hm hl hlink

theorem reached_of_slash {t : Tree} {purpose : Purpose} {k : Nat} {start : Location} {r : Reached}
    (hp : p.endStep = [.slash]) (h : t.Leads purpose k start p.steps r)
    (hl : t.Leads .content k start p.walked (.found l)) : r = .found l := by
  rw [Path.steps_eq, hp] at h
  obtain ⟨m, hm, hend⟩ := h.split (by simp)
  cases hm.unique hl
  cases hend with
  | slash _ hrest =>
    cases hrest
    rfl

/-! ## Files -/

theorem writePlace_ok (h : d.writePlace p = .ok l) :
    malformed? p = none ∧
      ((∃ folder n, l = folder ++ [n] ∧
          d.tree.Leads .writing maxLinks (d.start p) p.steps (.vacant folder n)) ∨
        ∃ bytes, d.tree.at? l = some (.file bytes) ∧
          d.tree.Leads .writing maxLinks (d.start p) p.steps (.found l)) := by
  unfold writePlace at h
  split at h
  · cases h
  · next folder n hreach =>
    cases h
    obtain ⟨hwell, hleads⟩ := reach_ok_iff.1 hreach
    exact ⟨hwell, .inl ⟨folder, n, rfl, hleads⟩⟩
  · next m hreach =>
    obtain ⟨hwell, hleads⟩ := reach_ok_iff.1 hreach
    split at h
    · next bytes hm =>
      cases h
      exact ⟨hwell, .inr ⟨bytes, hm, hleads⟩⟩
    · cases h

/-- One file is put on a disk, and that is what the path leads to from then on. -/
theorem writeBytes_ok {bytes : ByteArray} (h : d.writeBytes p bytes = .ok d') :
    ∃ l, d.writePlace p = .ok l ∧ Adds (fun m e => m = l ∧ e = .file bytes) d d' ∧
      d'.entry p .content = .ok (l, .file bytes) := by
  unfold writeBytes at h
  cases hplace : d.writePlace p with
  | error why => simp [hplace, Except.map] at h
  | ok l =>
    simp only [hplace, Except.map, Except.ok.injEq] at h
    subst h
    refine ⟨l, rfl, ?_⟩
    obtain ⟨hwell, ⟨folder, n, rfl, hleads⟩ | ⟨bytes', hfile, hleads⟩⟩ := writePlace_ok hplace
    · -- A file of that name is new in its folder.
      obtain ⟨hfolder, -, hfree⟩ := hleads.of_vacant
      have hadds : Adds (fun m e => m = folder ++ [n] ∧ e = .file bytes) d
          (d.put (folder ++ [n]) (.file bytes)) := by
        refine .fresh hfolder ?_ hfree (by simp) ⟨rfl, rfl⟩
        exact hleads.isName_of_vacant fun n hn => Path.isName_of_down_mem_steps hn
      have hput : (d.put (folder ++ [n]) (.file bytes)).tree.at? (folder ++ [n]) =
          some (.file bytes) := by
        rw [put, Tree.at?_put_of_ne_nil (by simp), if_pos rfl]
      refine ⟨hadds, entry_ok_iff.2 ⟨reach_ok_iff.2 ⟨hwell, ?_⟩, hput⟩⟩
      exact hleads.fill hadds.tree_extends hput (by simp)
    · -- A file that is there has other bytes now.
      have hadds : Adds (fun m e => m = l ∧ e = .file bytes) d (d.put l (.file bytes)) :=
        .rewritten hfile ⟨rfl, rfl⟩
      have hput : (d.put l (.file bytes)).tree.at? l = some (.file bytes) := by
        rw [put, Tree.at?_put_of_ne_nil (ne_nil_of_file hfile), if_pos rfl]
      refine ⟨hadds, entry_ok_iff.2 ⟨reach_ok_iff.2 ⟨hwell, ?_⟩, hput⟩⟩
      exact hleads.content_of_writing.mono hadds.tree_extends

/-- A file that is copied is written twice, and its source is read in between. -/
theorem copyFile_ok {source dest : Path} (h : d.copyFile source dest = .ok d') :
    ∃ d₁ bytes, d.writeBytes dest .empty = .ok d₁ ∧ d₁.readBytes source = .ok bytes ∧
      d₁.writeBytes dest bytes = .ok d' := by
  unfold copyFile at h
  cases hread : d.readBytes source with
  | error why => simp [hread, bind, Except.bind] at h
  | ok old =>
    cases hempty : d.writeBytes dest .empty with
    | error why => simp [hread, hempty, bind, Except.bind] at h
    | ok d₁ =>
      cases hagain : d₁.readBytes source with
      | error why => simp [hread, hempty, hagain, bind, Except.bind] at h
      | ok bytes =>
        simp only [hread, hempty, hagain, bind, Except.bind] at h
        exact ⟨d₁, bytes, rfl, hagain, h⟩

/-! ## Removing -/

/-- What is below a location is gone, and the location itself may be gone. -/
structure Cleared (d : Disk) (l : Location) (d' : Disk) : Prop where
  here_eq : d'.here = d.here
  within : ∀ m e, d'.tree.at? m = some e → d.tree.at? m = some e
  outside : ∀ m, ¬ l <+: m → d'.tree.at? m = d.tree.at? m
  below : ∀ m, l <+: m → m ≠ l → d'.tree.at? m = none

namespace Cleared

theorem tree_extends (h : Cleared d l d') : d'.tree.Extends d.tree := .of_subset h.within

theorem start_eq (h : Cleared d l d') (p : Path) : d'.start p = d.start p := by
  rw [start, start, h.here_eq]

theorem linkFree (h : Cleared d l d') (hd : d.tree.LinkFree) : d'.tree.LinkFree :=
  fun m q hm => hd m q (h.within m _ hm)

theorem wellFormed (h : Cleared d l d') (hd : d.tree.WellFormed) : d'.tree.WellFormed where
  names m e hm := hd.names m e (h.within m e hm)
  parents m n e hm := by
    have hfolder := hd.parents m n e (h.within _ _ hm)
    by_cases hl : l <+: m
    · have hgone := h.below (m ++ [n]) (hl.trans (List.prefix_append m [n])) (by
        rintro rfl
        exact Tree.child_not_above m n hl)
      rw [hgone] at hm
      cases hm
    · rw [h.outside m hl, hfolder]

theorem pruneBelow (d : Disk) (l : Location) :
    Cleared d l { d with tree := d.tree.pruneBelow l } := by
  have hat : ∀ m, (d.tree.pruneBelow l).at? m = if l <+: m ∧ m ≠ l then none else d.tree.at? m := by
    intro m
    by_cases hm : m = []
    · subst hm
      rw [if_neg (fun h => h.2 (List.prefix_nil.1 h.1).symm)]
      rfl
    · exact Tree.at?_pruneBelow hm
  refine ⟨rfl, fun m e hm => ?_, fun m hm => ?_, fun m hm hne => ?_⟩
  · rw [hat] at hm
    split at hm
    · cases hm
    · exact hm
  · rw [hat, if_neg (fun h => hm h.1)]
  · rw [hat, if_pos ⟨hm, hne⟩]

theorem prune (d : Disk) (hl : l ≠ []) : Cleared d l { d with tree := d.tree.prune l } := by
  have hat : ∀ m, (d.tree.prune l).at? m = if l <+: m then none else d.tree.at? m := by
    intro m
    by_cases hm : m = []
    · subst hm
      rw [if_neg (fun h => hl (List.prefix_nil.1 h))]
      rfl
    · exact Tree.at?_prune hm
  refine ⟨rfl, fun m e hm => ?_, fun m hm => ?_, fun m hm _ => ?_⟩
  · rw [hat] at hm
    split at hm
    · cases hm
    · exact hm
  · rw [hat, if_neg hm]
  · rw [hat, if_pos hm]

theorem trans {d'' : Disk} (h : Cleared d l d') (h' : Cleared d' l d'') : Cleared d l d'' where
  here_eq := h'.here_eq.trans h.here_eq
  within m e hm := h.within m e (h'.within m e hm)
  outside m hm := (h'.outside m hm).trans (h.outside m hm)
  below := h'.below

end Cleared

/-- Where the last name of a path is gone, the path leads nowhere. -/
theorem Cleared.not_present {ss : List Step} {n : Text} (h : Cleared d (l ++ [n]) d')
    (hgone : d'.tree.at? (l ++ [n]) = none) (hp : p.walked = ss ++ [.down n])
    (hl : d.tree.Leads .content maxLinks (d.start p) ss (.found l)) : d'.present p = false := by
  rw [← Bool.not_eq_true]
  intro hpresent
  obtain ⟨m, e, he⟩ := present_iff.1 hpresent
  have hwalked := leads_walked (reach_ok_iff.1 (entry_ok_iff.1 he).1).2
  rw [hp, h.start_eq] at hwalked
  obtain ⟨l', hl', hend⟩ := hwalked.split (by simp)
  cases (hl'.mono h.tree_extends).unique hl
  cases hend with
  | link hentry => cases hentry
  | down _ _ _ hsome =>
    rw [hgone] at hsome
    cases hsome
  | follow _ _ _ _ hsome =>
    rw [hgone] at hsome
    cases hsome

/-- A path that leads to a link itself has its name as its last step. -/
theorem entry_link {q : Path} (hd : d.tree.WellFormed) (h : d.entry p .entry = .ok (l, .link q)) :
    ∃ ss n folder, p.walked = ss ++ [.down n] ∧
      d.tree.Leads .content maxLinks (d.start p) ss (.found folder) ∧ l = folder ++ [n] := by
  obtain ⟨hreach, hlink⟩ := entry_ok_iff.1 h
  obtain ⟨hwell, hleads⟩ := reach_ok_iff.1 hreach
  have hfolder : d.tree.at? l ≠ some .folder := by
    rw [hlink]
    simp
  have hne : p.steps ≠ [] := Path.steps_ne_nil (text_ne_nil_of_wellFormed hwell)
  rw [Path.steps_eq] at hne hleads
  rcases p.endStep_cases with hslash | hslash
  · rw [hslash, List.append_nil] at hne hleads
    obtain ⟨ss, x, hss⟩ := (List.eq_nil_or_concat p.walked).resolve_left hne
    rw [List.concat_eq_append] at hss
    rw [hss] at hleads
    obtain ⟨folder, hss', hend⟩ := hleads.split (by simp)
    -- Any other last step leads to a folder, to what is no link, or behind the link.
    cases hend with
    | stay hm hrest =>
      cases hrest
      exact absurd hm hfolder
    | slash hm hrest =>
      cases hrest
      exact absurd hm hfolder
    | up hm hrest =>
      cases hrest
      exact absurd (hd.folder_dropLast hm) hfolder
    | @link _ _ n => exact ⟨ss, n, folder, hss, hss', rfl⟩
    | down _ _ _ hm hq hrest =>
      cases hrest
      rw [hm] at hlink
      exact absurd (Option.some.inj hlink) (hq q)
    | follow _ hentry => exact absurd ⟨rfl, rfl⟩ hentry
  · -- A slash at the end is taken in folders only.
    rw [hslash] at hleads
    obtain ⟨m, -, hend⟩ := hleads.split (by simp)
    cases hend with
    | slash hm hrest =>
      cases hrest
      exact absurd hm hfolder

theorem folderOf_eq_ok (h : d.folderOf p = .ok l) :
    d.tree.Leads .content maxLinks (d.start p) p.steps.dropLast (.found l) ∧
      d.tree.at? l = some .folder := by
  unfold folderOf at h
  split at h
  · cases h
  · cases h
  · next m hwalk =>
    split at h
    · next hm =>
      cases h
      exact ⟨Tree.leads_of_walk hwalk, hm⟩
    · cases h
    · cases h

theorem removeEmpty_ok (h : d.removeEmpty p = .ok d') :
    ∃ ss n folder, p.walked = ss ++ [.down n] ∧
      d.tree.Leads .content maxLinks (d.start p) ss (.found folder) ∧
      d.tree.at? (folder ++ [n]) = some .folder ∧
      d' = { d with tree := d.tree.prune (folder ++ [n]) } := by
  unfold removeEmpty at h
  simp only [bind, Except.bind] at h
  split at h
  · cases h
  · cases h
  · split at h <;> cases h
  · split at h <;> cases h
  · next n hlast =>
    split at h
    · cases h
    · next folder hfolder =>
      -- Only a name at the end is removed, and slashes behind it do not matter.
      obtain ⟨ss, hss⟩ := List.getLast?_eq_some_iff.1 hlast
      have hwalked : p.walked = ss ++ [.down n] := by
        rcases p.steps_withoutEndSlashes with hsteps | ⟨-, -, hsteps⟩
        · rw [← hsteps, hss]
        · simp [hsteps] at hlast
      obtain ⟨hleads, -⟩ := folderOf_eq_ok hfolder
      rw [hss, List.dropLast_concat, start_withoutEndSlashes] at hleads
      split at h
      · cases h
      · next hm =>
        cases h
        exact ⟨ss, n, folder, hwalked, hleads, hm, rfl⟩
      · cases h

/-- No folder is removed where the last step is not a name, and none is missing there. -/
theorem removeEmpty_of_last {ss : List Step} {x : Step} (hp : p.withoutEndSlashes.steps = ss ++ [x])
    (hx : ∀ n, x ≠ .down n) (hl : d.tree.Leads .content maxLinks (d.start p) ss (.found l))
    (hfolder : d.tree.at? l = some .folder) : d.removeEmpty p ≠ .error .absent := by
  have hf : d.folderOf p.withoutEndSlashes = .ok l :=
    folderOf_ok hp (by rwa [start_withoutEndSlashes]) hfolder
  unfold removeEmpty
  simp only [hp, List.getLast?_concat, hf]
  cases x with
  | down n => exact absurd rfl (hx n)
  | stay => simp [Except.bind]
  | up => simp [Except.bind]
  | slash => simp

/-- A folder of a name is not missing if something of that name is there. -/
theorem removeEmpty_below {ss : List Step} {n : Text} {e : Entry} (hp : p.walked = ss ++ [.down n])
    (hl : d.tree.Leads .content maxLinks (d.start p) ss (.found l))
    (hfolder : d.tree.at? l = some .folder) (hm : d.tree.at? (l ++ [n]) = some e) :
    d.removeEmpty p ≠ .error .absent := by
  have hsteps := steps_of_walked_concat hp
  have hf : d.folderOf p.withoutEndSlashes = .ok l :=
    folderOf_ok hsteps (by rwa [start_withoutEndSlashes]) hfolder
  unfold removeEmpty
  simp only [hsteps, List.getLast?_concat, hf, hm, bind, Except.bind]
  cases e <;> simp

/-- Where a path leads somewhere, no folder is missing. -/
theorem removeEmpty_of_present (h : d.present p = true) : d.removeEmpty p ≠ .error .absent := by
  obtain ⟨m, e, hentry⟩ := present_iff.1 h
  obtain ⟨hwell, hleads⟩ := reach_ok_iff.1 (entry_ok_iff.1 hentry).1
  have hwalked := leads_walked hleads
  rcases List.eq_nil_or_concat p.walked with hnil | ⟨ss, x, hss⟩
  · rcases p.steps_withoutEndSlashes with hsteps | ⟨-, -, hsteps⟩
    · -- Only the empty path has no steps without the slashes at its end.
      have hne := text_ne_nil_of_wellFormed hwell
      rw [hnil] at hsteps
      exact absurd hsteps (Path.steps_ne_nil (Path.withoutEndSlashes_text_ne_nil hne))
    · unfold removeEmpty
      simp [hsteps]
  · rw [List.concat_eq_append] at hss
    have hsteps := steps_of_walked_concat hss
    rw [hss] at hwalked
    obtain ⟨l, hl, hend⟩ := hwalked.split (by simp)
    cases hend with
    | stay hfolder => exact removeEmpty_of_last hsteps (by simp) hl hfolder
    | slash hfolder => exact removeEmpty_of_last hsteps (by simp) hl hfolder
    | up hfolder => exact removeEmpty_of_last hsteps (by simp) hl hfolder
    | link hpurpose => cases hpurpose
    | down _ hfolder _ hm => exact removeEmpty_below hss hl hfolder hm
    | follow _ _ hfolder _ hm => exact removeEmpty_below hss hl hfolder hm

/-- A folder or a link is removed, or nothing is. Where it is removed, the path leads nowhere
afterwards. -/
theorem removeFolder_cases (hd : d.tree.WellFormed) (p : Path) :
    ((d.removeFolder p).1 = d ∧ (d.removeFolder p).2 ≠ .ok () ∧
        ∀ l, d.entry p .entry ≠ .ok (l, .folder)) ∨
      ∃ l e, d.entry p .entry = .ok (l, e) ∧ Cleared d l (d.removeFolder p).1 ∧
        ((d.removeFolder p).2 = .ok () → (d.removeFolder p).1.present p = false) := by
  unfold removeFolder
  split
  · next hentry => exact .inl ⟨rfl, by simp, by simp [hentry]⟩
  · next hentry => exact .inl ⟨rfl, by simp, by simp [hentry]⟩
  · next l q hentry =>
    obtain ⟨ss, n, folder, hwalked, hleads, rfl⟩ := entry_link hd hentry
    have hcleared := Cleared.prune d (l := folder ++ [n]) (by simp)
    exact .inr ⟨_, _, hentry, hcleared, fun _ =>
      hcleared.not_present (Tree.at?_prune_self (by simp)) hwalked hleads⟩
  · next l hentry =>
    have hemptied := Cleared.pruneBelow d l
    refine .inr ⟨l, .folder, hentry, ?_⟩
    cases hremove : removeEmpty { d with tree := d.tree.pruneBelow l } p with
    | error r =>
      cases r with
      | absent =>
        -- The path led through what the folder held, so now it leads nowhere.
        simp only [hremove]
        refine ⟨hemptied, fun _ => ?_⟩
        rw [← Bool.not_eq_true]
        exact fun hpresent => removeEmpty_of_present hpresent hremove
      | _ =>
        simp only [hremove]
        exact ⟨hemptied, fun h => by cases h⟩
    | ok d' =>
      simp only [hremove]
      obtain ⟨ss, n, folder, hwalked, hleads, hfolder, rfl⟩ := removeEmpty_ok hremove
      have hbefore := hleads.mono hemptied.tree_extends
      have hl : l = folder ++ [n] := by
        obtain ⟨-, hentry⟩ := reach_ok_iff.1 (entry_ok_iff.1 hentry).1
        refine place_of_walked hwalked hentry hbefore fun q hq => ?_
        rw [hemptied.within _ _ hfolder] at hq
        cases hq
      subst hl
      have hcleared := hemptied.trans (Cleared.prune _ (by simp))
      exact ⟨hcleared, fun _ =>
        hcleared.not_present (Tree.at?_prune_self (by simp)) hwalked hbefore⟩

/-- A path through what a folder holds empties the folder, and it stays. -/
example :
    removeFolder ⟨⟨[(["a".toList], .folder), (["a".toList, "b".toList], .folder)]⟩, []⟩
        ⟨"/a/b/..".toList⟩
      = (⟨⟨[(["a".toList], .folder)]⟩, []⟩, .ok ()) := rfl

end Pagefold.Disk
