import Pagefold.Disk.Copy
import Pagefold.Proofs.Disk.Files
import Pagefold.Proofs.Path.Above

/-!
# Paths that are accepted

Without links, an absolute path that never goes up leads to its location on paper or nowhere. It leads
there if something is there and the path is accepted: its text and its names are not too long. So no
operation on an accepted path is refused without a reason that lies on the disk.

* `Path.Accepted`: the limits;
* `Disk.entry_of_folder`, `Disk.entry_child`: an accepted path leads to what is at its location;
* `Disk.writeBytes_child`, `Disk.makeFolder_child`: a name in a folder is written to, or made a folder;
* `Disk.makeFolders_of_accepted`: a folder is made with all those above it;
* `Disk.removeFolder_of_accepted`: a folder is removed.
-/

namespace Pagefold

/-- A path is not too long and has no NUL character, and none of its names is too long. -/
structure Path.Accepted (p : Path) : Prop where
  wellFormed : Disk.malformed? p = none
  names : ∀ n, .down n ∈ p.walked → n.byteSize ≤ maxNameBytes

/-- Whether the name of a step is not too long, if it has one. -/
def Step.isShort : Step → Bool
  | .down n => n.byteSize ≤ maxNameBytes
  | _ => true

instance (p : Path) : Decidable p.Accepted :=
  decidable_of_iff (Disk.malformed? p = none ∧ p.walked.all Step.isShort = true) <| by
    rw [List.all_eq_true]
    constructor
    · rintro ⟨hp, hnames⟩
      exact ⟨hp, fun n hn => by simpa [Step.isShort] using hnames _ hn⟩
    · rintro ⟨hp, hnames⟩
      refine ⟨hp, fun s hs => ?_⟩
      cases s with
      | down n => simpa [Step.isShort] using hnames n hs
      | _ => rfl

namespace Path

variable {p q : Path} {n : Text}

theorem down_mem_steps_iff : .down n ∈ p.steps ↔ .down n ∈ p.walked := by
  rw [steps_eq, List.mem_append]
  rcases p.endStep_cases with h | h <;> simp [h]

theorem up_mem_steps_iff : .up ∈ p.steps ↔ .up ∈ p.walked := by
  rw [steps_eq, List.mem_append]
  rcases p.endStep_cases with h | h <;> simp [h]

theorem steps_join_name (p : Path) (hn : IsName n) : (p.join ⟨n⟩).steps = p.walked ++ [.down n] := by
  have hlast : (p.join ⟨n⟩).text.getLast? = n.getLast? := by
    unfold join
    rw [isAbsolute_of_isName hn]
    simp only [Bool.false_eq_true, if_false]
    split <;> simp [List.getLast?_append, List.getLast?_cons, List.getLast?_eq_some_getLast hn.1]
  have hend : (p.join ⟨n⟩).endStep = [] := by
    rw [endStep, hlast, if_neg]
    exact fun h => hn.2.1 (List.mem_of_getLast? h)
  rw [steps_eq, hend, List.append_nil, walked_join_name p hn]

theorem Accepted.of_text (h : p.Accepted) (hq : q.text <+: p.text) (hne : q.text ≠ [])
    (hwalked : q.walked <+: p.walked) : q.Accepted where
  wellFormed := by
    obtain ⟨t, ht⟩ := hq
    have hp := h.wellFormed
    unfold Disk.malformed? at hp ⊢
    rw [← ht] at hp
    split at hp
    · cases hp
    · next hnul =>
      split at hp
      · cases hp
      · split at hp
        · cases hp
        · next hsize =>
          rw [Text.byteSize_append] at hsize
          rw [List.mem_append, not_or] at hnul
          rw [if_neg hnul.1, if_neg hne, if_neg (by omega)]
  names n hn := h.names n (hwalked.subset hn)

theorem Accepted.parent (h : p.Accepted) (habs : p.isAbsolute = true) (hq : p.parent? = some q) :
    q.Accepted := by
  obtain ⟨hqabs, i, x, j, hwalked⟩ := walked_of_parent? hq
  refine h.of_text (parent?_of_isAbsolute habs hq).1 ?_ ?_
  · intro hnil
    rw [habs, isAbsolute, hnil] at hqabs
    cases hqabs
  · rw [hwalked, List.append_assoc]
    exact List.prefix_append _ _

end Path

namespace Tree

variable {t : Tree} {purpose : Purpose} {k : Nat} {l m : Location} {ss rs : List Step} {n : Text}

theorem WellFormed.folder_of_prefix (ht : t.WellFormed) (hm : t.at? m = some .folder) (hlm : l <+: m) :
    t.at? l = some .folder := by
  by_cases hne : l = m
  · rw [hne, hm]
  · exact ht.folder_above hm hlm hne

/-- Steps that never go up lead to a folder, if there is one. -/
theorem leads_of_folder (ht : t.WellFormed) (hw : purpose ≠ .writing) (hup : .up ∉ ss)
    (hnames : ∀ n, .down n ∈ ss → n.byteSize ≤ maxNameBytes) (hplace : Step.leadAll l ss = m)
    (hfolder : t.at? m = some .folder) : Leads t purpose k l ss (.found m) := by
  induction ss generalizing l with
  | nil =>
    rw [← hplace]
    exact .here k l
  | cons s ss ih =>
    have hl := ht.folder_of_prefix hfolder (hplace ▸ Step.prefix_leadAll hup l)
    have hup' : .up ∉ ss := fun h => hup (List.mem_cons_of_mem s h)
    have hrest : Leads t purpose k (s.lead l) ss (.found m) :=
      ih hup' (fun n hn => hnames n (List.mem_cons_of_mem s hn)) hplace
    cases s with
    | up => exact absurd List.mem_cons_self hup
    | stay => exact .stay hl hrest
    | slash => exact .slash hl hrest
    | down n =>
      have hchild := ht.folder_of_prefix hfolder (hplace ▸ Step.prefix_leadAll hup' (l ++ [n]))
      exact .down (by simp [hw]) hl (hnames n List.mem_cons_self) hchild (by simp) hrest

/-- Where a folder on the way is missing, it is told so, if no file is in the way. -/
theorem advance_of_absent (hlinks : t.LinkFree) (hl : t.at? l = some .folder)
    (hup : .up ∉ ss) (hslash : .slash ∉ rs) (hnames : ∀ n, .down n ∈ ss → n.byteSize ≤ maxNameBytes)
    (hfiles : ∀ m bytes, m <+: Step.leadAll l ss → t.at? m ≠ some (.file bytes))
    (hnone : t.at? (Step.leadAll l ss) = none) (hrs : rs ≠ []) :
    t.advance purpose l (ss ++ rs) = .refused .absent := by
  -- By induction on the steps, which lead from folder to folder until one is missing.
  induction ss generalizing l with
  | nil =>
    rw [Step.leadAll_nil, hl] at hnone
    cases hnone
  | cons s ss ih =>
    have hup' : .up ∉ ss := fun h => hup (List.mem_cons_of_mem s h)
    have hnames' : ∀ n, .down n ∈ ss → n.byteSize ≤ maxNameBytes :=
      fun n hn => hnames n (List.mem_cons_of_mem s hn)
    cases s with
    | up => exact absurd List.mem_cons_self hup
    | stay =>
      rw [List.cons_append, advance, hl]
      exact ih hl hup' hnames' hfiles hnone
    | slash =>
      rw [List.cons_append, advance, hl]
      exact ih hl hup' hnames' hfiles hnone
    | down n =>
      -- A slash right behind this name would be a step of `rs`.
      have hwriting : ¬ (decide (purpose = .writing) && decide (ss ++ rs = [.slash])) = true := by
        simp only [Bool.and_eq_true, decide_eq_true_eq, not_and]
        rintro - h
        have : rs <:+ [Step.slash] := h ▸ List.suffix_append ss rs
        rcases List.suffix_cons_iff.1 this with h | h
        · exact hslash (by simp [h])
        · exact hrs (List.suffix_nil.1 h)
      rw [List.cons_append, advance_down hl, if_neg hwriting,
        if_neg (Nat.not_lt.2 (hnames n List.mem_cons_self))]
      cases hm : t.at? (l ++ [n]) with
      | none => simp [hrs]
      | some e =>
        cases e with
        | link q => exact absurd hm (hlinks _ q)
        | file bytes => exact absurd hm (hfiles _ bytes (Step.prefix_leadAll hup' (l ++ [n])))
        | folder => exact ih hm hup' hnames' hfiles hnone

end Tree

namespace Disk

variable {d d' : Disk} {p q : Path} {a b l m : Location} {n : Text} {e : Entry} {purpose : Purpose}
  {bytes : ByteArray}

/-! ## What is at a location -/

theorem entry_points (hlinks : d.tree.LinkFree) (hp : p.Points l)
    (h : d.entry p purpose = .ok (m, e)) : m = l ∧ d.tree.at? l = some e := by
  have hm := location_eq hlinks h
  rw [hp.start_eq, hp.place] at hm
  exact ⟨hm, hm ▸ (entry_ok_iff.1 h).2⟩

theorem Opens.eq_of_points (h : d.Opens p m) (hlinks : d.tree.LinkFree) (hp : p.Points l) : m = l := by
  have hplace := h.1.place_eq hlinks
  rwa [hp.start_eq, hp.place] at hplace

theorem entry_of_folder (hd : d.tree.WellFormed) (hp : p.Points l) (ha : p.Accepted)
    (hl : d.tree.at? l = some .folder) (hw : purpose ≠ .writing) :
    d.entry p purpose = .ok (l, .folder) := by
  refine entry_ok_iff.2 ⟨reach_ok_iff.2 ⟨ha.wellFormed, ?_⟩, hl⟩
  refine Tree.leads_of_folder hd hw ?_ (fun n hn => ha.names n (Path.down_mem_steps_iff.1 hn)) ?_ hl
  · rw [Path.up_mem_steps_iff]
    exact hp.noUp
  · rw [Path.leadAll_steps, hp.start_eq, hp.place]

/-! ## A name in a folder -/

/-- The folder of the last name of an accepted path is reached on the way to it. -/
theorem leads_before (hd : d.tree.WellFormed) {ss : List Step} (hp : p.Points (l ++ [n]))
    (hwalked : p.walked = ss ++ [.down n]) (ha : p.Accepted) (hss : Step.leadAll [] ss = l)
    (hl : d.tree.at? l = some .folder) :
    d.tree.Leads .content maxLinks (d.start p) ss (.found l) := by
  refine Tree.leads_of_folder hd (by simp) (fun h => hp.noUp ?_) (fun m hm => ha.names m ?_) ?_ hl
  · rw [hwalked]
    exact List.mem_append_left _ h
  · rw [hwalked]
    exact List.mem_append_left _ hm
  · rw [hp.start_eq, hss]

theorem leads_folder (hd : d.tree.WellFormed) (hq : q.Points a) (hn : IsName n)
    (ha : (q.join ⟨n⟩).Accepted) (hfolder : d.tree.at? a = some .folder) :
    d.tree.Leads .content maxLinks (d.start (q.join ⟨n⟩)) q.walked (.found a) :=
  leads_before hd (hq.join hn) (Path.walked_join_name q hn) ha hq.place hfolder

theorem byteSize_le (hn : IsName n) (ha : (q.join ⟨n⟩).Accepted) : n.byteSize ≤ maxNameBytes :=
  ha.names n (by simp [Path.walked_join_name q hn])

theorem reach_child (hd : d.tree.WellFormed) (hlinks : d.tree.LinkFree) (hq : q.Points a)
    (hn : IsName n) (ha : (q.join ⟨n⟩).Accepted) (he : d.tree.at? (a ++ [n]) = some e) :
    d.reach (q.join ⟨n⟩) purpose = .ok (.found (a ++ [n])) := by
  have hfolder := hd.parents a n e he
  refine reach_ok_iff.2 ⟨ha.wellFormed, ?_⟩
  rw [Path.steps_join_name q hn]
  refine (leads_folder hd hq hn ha hfolder).append (by simp) (by simp) ?_
  exact .down (by simp) hfolder (byteSize_le hn ha) he (fun x hx => hlinks _ x (hx ▸ he)) (.here _ _)

theorem entry_child (hd : d.tree.WellFormed) (hlinks : d.tree.LinkFree) (hq : q.Points a)
    (hn : IsName n) (ha : (q.join ⟨n⟩).Accepted) (he : d.tree.at? (a ++ [n]) = some e) :
    d.entry (q.join ⟨n⟩) purpose = .ok (a ++ [n], e) :=
  entry_ok_iff.2 ⟨reach_child hd hlinks hq hn ha he, he⟩

theorem writeBytes_points (hlinks : d.tree.LinkFree) (hp : p.Points b)
    (h : d.writeBytes p bytes = .ok d') :
    d.Grows (fun m e => m = b ∧ e = .file bytes) d' ∧ d'.tree.at? b = some (.file bytes) := by
  obtain ⟨l, hplace, hadds, hentry⟩ := writeBytes_ok h
  have hgrows : d.Grows (fun m e => m = l ∧ e = .file bytes) d' := .of_adds hadds
  obtain ⟨rfl, hfile⟩ := entry_points (hgrows.linkFree hlinks) hp hentry
  exact ⟨hgrows, hfile⟩

theorem writeBytes_child (hd : d.tree.WellFormed) (hlinks : d.tree.LinkFree) (hq : q.Points a)
    (hn : IsName n) (ha : (q.join ⟨n⟩).Accepted) (hfolder : d.tree.at? a = some .folder)
    (hfree : d.tree.at? (a ++ [n]) ≠ some .folder) :
    ∃ d', d.writeBytes (q.join ⟨n⟩) bytes = .ok d' := by
  have hplace : d.writePlace (q.join ⟨n⟩) = .ok (a ++ [n]) := by
    unfold writePlace
    cases he : d.tree.at? (a ++ [n]) with
    | none =>
      have hreach : d.reach (q.join ⟨n⟩) .writing = .ok (.vacant a n) := by
        refine reach_ok_iff.2 ⟨ha.wellFormed, ?_⟩
        rw [Path.steps_join_name q hn]
        refine (leads_folder hd hq hn ha hfolder).append (by simp) (by simp) ?_
        exact .free hfolder (byteSize_le hn ha) he
      rw [hreach]
    | some e =>
      rw [reach_child hd hlinks hq hn ha he]
      cases e with
      | folder => exact absurd he hfree
      | link x => exact absurd he (hlinks _ x)
      | file bytes' => simp only [he]
  exact ⟨_, by rw [writeBytes, hplace]; rfl⟩

theorem makeFolder_child {ss : List Step} (hp : p.walked = ss ++ [.down n]) (ha : p.Accepted)
    (hl : d.tree.Leads .content maxLinks (d.start p) ss (.found l))
    (hfolder : d.tree.at? l = some .folder) (hfree : d.tree.at? (l ++ [n]) = none) :
    d.makeFolder p = .ok (d.put (l ++ [n]) .folder) := by
  have hsize := ha.names n (by simp [hp])
  rw [makeFolder_eq_below hp hl hfolder, ha.wellFormed]
  simp [hfree, Nat.not_lt.2 hsize]

/-! ## Folders -/

theorem makeFolders_of_parent? (hp : p.text ≠ []) (h : p.parent? = some q) :
    ∃ above, (∀ d : Disk, d.makeFolders p = d.makeUpwards (p :: above)) ∧
      ∀ d : Disk, d.makeFolders q = d.makeUpwards above := by
  refine ⟨_, fun d => ?_, fun d => rfl⟩
  rw [makeFolders, Path.ancestors_of_parent? h, List.takeWhile_cons, if_pos (by simp [hp, h])]

theorem makeUpwards_of_made {above : List Path} (h : d.makeFolder p = .ok d') :
    d.makeUpwards (p :: above) = (d', .ok ()) := by
  rw [makeUpwards, h]

theorem makeUpwards_of_absent {above : List Path} {d₁ : Disk} (h : d.makeFolder p = .error .absent)
    (habove : d.makeUpwards above = (d₁, .ok ())) (hmake : d₁.makeFolder p = .ok d') :
    d.makeUpwards (p :: above) = (d', .ok ()) := by
  rw [makeUpwards, h]
  simp only [habove, hmake]

theorem makeFolder_absent {ss : List Step} (hlinks : d.tree.LinkFree) (hp : p.Points (l ++ [n]))
    (hwalked : p.walked = ss ++ [.down n]) (ha : p.Accepted) (hss : Step.leadAll [] ss = l)
    (hfiles : ∀ m bytes, m <+: l → d.tree.at? m ≠ some (.file bytes)) (hnone : d.tree.at? l = none) :
    d.makeFolder p = .error .absent := by
  have hup : .up ∉ ss := fun h => hp.noUp (by simp [hwalked, h])
  have hadvance : d.tree.advance .entry [] (ss ++ [.down n]) = .refused .absent := by
    refine Tree.advance_of_absent hlinks (Tree.at?_nil _) hup (by simp)
      (fun m hm => ha.names m (by simp [hwalked, hm])) ?_ ?_ (by simp)
    · rwa [hss]
    · rwa [hss]
  have hwalk : d.tree.walk .entry maxLinks [] (ss ++ [.down n]) = .error .absent := by
    rw [Tree.walk, hadvance]
  have hlast : (ss ++ [Step.down n]).getLast? = some (.down n) := List.getLast?_concat
  unfold makeFolder
  simp only [ha.wellFormed, start_withoutEndSlashes, steps_of_walked_concat hwalked, hlast,
    hp.start_eq, hwalk]

/-- A folder is made with those above it, if no file is in the way. By induction on the path: where the
folder above is missing too, it is made first. -/
theorem makeFolders_of_accepted {p : Path} {l : Location} (hd : d.tree.WellFormed)
    (hlinks : d.tree.LinkFree) (hp : p.Points l) (ha : p.Accepted)
    (hlast : p.walked.getLast? ≠ some .stay)
    (hfiles : ∀ m bytes, m <+: l → d.tree.at? m ≠ some (.file bytes)) (hnone : d.tree.at? l = none) :
    (d.makeFolders p).2 = .ok () := by
  have hne : l ≠ [] := by
    rintro rfl
    cases hnone
  obtain ⟨ss, n, folder, hwalked, hss, rfl⟩ := hp.exists_last hne hlast
  obtain ⟨q, hq⟩ := Option.isSome_iff_exists.1 (Path.parent?_isSome_of_down_mem (n := n)
    (by simp [hwalked] : .down n ∈ p.walked))
  obtain ⟨above, hmake, hmakeq⟩ := makeFolders_of_parent? hp.text_ne_nil hq
  obtain ⟨i, hi⟩ := Path.walked_of_parent?_of_last hq hwalked
  have hqp : q.Points folder := by
    refine ⟨?_, fun h => hp.noUp (by simp [hwalked, hi, h]), ?_⟩
    · rw [(Path.walked_of_parent? hq).1, hp.absolute]
    · rw [← hss, hi, Step.leadAll_append, Step.leadAll_replicate_stay]
  rw [hmake]
  cases hfolder : d.tree.at? folder with
  | some e =>
    cases e with
    | file bytes => exact absurd hfolder (hfiles _ bytes (List.prefix_append folder [n]))
    | link x => exact absurd hfolder (hlinks _ x)
    | folder =>
      -- Only the last folder is missing.
      have hleads := leads_before hd hp hwalked ha hss hfolder
      rw [makeUpwards_of_made (makeFolder_child hwalked ha hleads hfolder hnone)]
  | none =>
    have hfiles' : ∀ m bytes, m <+: folder → d.tree.at? m ≠ some (.file bytes) :=
      fun m bytes hm => hfiles m bytes (hm.trans (List.prefix_append folder [n]))
    have habsent := makeFolder_absent hlinks hp hwalked ha hss hfiles' hfolder
    -- The folder above is missing, too, and it is made first; its path is shorter.
    have hlt := Path.length_walked_lt hq
    have hup := makeFolders_of_accepted hd hlinks hqp (ha.parent hp.absolute hq)
      (Path.parent?_of_isAbsolute hp.absolute hq).2 hfiles' hfolder
    generalize hmade : d.makeFolders q = made at hup
    obtain ⟨d₁, r⟩ := made
    obtain rfl : r = .ok () := hup
    have hgrows := makeFolders_grows hd hqp.noUp
    rw [hmade] at hgrows
    obtain ⟨l', hopens⟩ := makeFolders_opens hd (fun h => absurd h hqp.text_ne_nil) hmade
    obtain rfl := hopens.eq_of_points (hgrows.linkFree hlinks) hqp
    have hfree : d₁.tree.at? (l' ++ [n]) = none := by
      rw [hgrows.at?_eq, hnone]
      rintro e ⟨-, hwithin⟩
      have hway := hwithin hlinks
      rw [hqp.start_eq, hqp.place] at hway
      exact Tree.child_not_above l' n hway
    have hleads := leads_before (hgrows.wellFormed hd) hp hwalked ha hss hopens.2
    have hmake' := makeFolder_child hwalked ha hleads hopens.2 hfree
    rw [makeUpwards_of_absent habsent ((hmakeq d).symm.trans hmade) hmake']
termination_by p.walked.length

/-- A folder is removed with all it holds. -/
theorem removeFolder_of_accepted (hd : d.tree.WellFormed) (hp : p.Points l) (ha : p.Accepted)
    (hlast : p.walked.getLast? ≠ some .stay) (hne : l ≠ []) (hl : d.tree.at? l = some .folder) :
    (d.removeFolder p).2 = .ok () := by
  obtain ⟨ss, n, folder, hwalked, hss, rfl⟩ := hp.exists_last hne hlast
  have hcleared := Cleared.pruneBelow d (folder ++ [n])
  generalize hemptied : ({ d with tree := d.tree.pruneBelow (folder ++ [n]) } : Disk) = emptied
    at hcleared
  have hfolder : emptied.tree.at? folder = some .folder := by
    rw [hcleared.outside _ (Tree.child_not_above folder n)]
    exact hd.parents folder n _ hl
  have hlast' : emptied.tree.at? (folder ++ [n]) = some .folder := by
    rw [← hemptied, Tree.at?_pruneBelow (by simp), if_neg (by simp), hl]
  have hleads := leads_before (hcleared.wellFormed hd) hp hwalked ha hss hfolder
  have hsteps := steps_of_walked_concat hwalked
  have hof : emptied.folderOf p.withoutEndSlashes = .ok folder :=
    folderOf_ok hsteps (by rwa [start_withoutEndSlashes]) hfolder
  have hremove : emptied.removeEmpty p
      = .ok { emptied with tree := emptied.tree.prune (folder ++ [n]) } := by
    unfold removeEmpty
    simp only [hsteps, List.getLast?_concat, hof, bind, Except.bind, hlast']
  unfold removeFolder
  rw [entry_of_folder hd hp ha hl (by simp)]
  simp only [hemptied, hremove]

end Disk

end Pagefold
