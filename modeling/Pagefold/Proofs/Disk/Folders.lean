import Mathlib.Data.List.Chain
import Pagefold.Disk.Edit
import Pagefold.Proofs.Disk.Growth

/-!
# Making folders

* `Path.steps_withoutEndSlashes`: slashes at the end of a path lead nowhere;
* `Disk.Opens`: a path leads to a folder;
* `Disk.makeFolder_ok`, `Disk.makeFolder_of_leads`, `Disk.makeFolder_below`: one folder;
* `Disk.makeFolders_grows`: nothing but folders is made, and without links they are on the way;
* `Disk.makeFolders_fresh`: where a path leads nowhere and has no `..`, the folder that is made for
  it is a new one, and it is empty.
-/

namespace Pagefold

namespace Path

/-! ## Slashes at the end -/

theorem walked_append_slashes (t : Text) (k : Nat) :
    walked ⟨t ++ List.replicate k '/'⟩ = walked ⟨t⟩ := by
  induction k generalizing t with
  | zero => simp
  | succ k ih =>
    have hsplit : t ++ List.replicate (k + 1) '/' = (t ++ ['/']) ++ List.replicate k '/' := by
      simp [List.replicate_succ]
    rw [hsplit, ih, walked_append_slash, walked_nil, List.append_nil]

/-- A path is the root, or what it is without slashes at its end and slashes behind that. -/
theorem withoutEndSlashes_cases (p : Path) :
    (∃ k, p.text = List.replicate (k + 1) '/' ∧ p.withoutEndSlashes = ⟨['/']⟩) ∨
      ∃ k, p.text = p.withoutEndSlashes.text ++ List.replicate k '/' ∧
        p.withoutEndSlashes.text.getLast? ≠ some '/' ∧
        (p.withoutEndSlashes.text = [] → k = 0) := by
  have hsplit : p.text = (p.text.reverse.dropWhile (· == '/')).reverse ++
      (p.text.reverse.takeWhile (· == '/')).reverse := by
    rw [← List.reverse_append, List.takeWhile_append_dropWhile, List.reverse_reverse]
  have hslashes : (p.text.reverse.takeWhile (· == '/')).reverse =
      List.replicate (p.text.reverse.takeWhile (· == '/')).length '/' := by
    rw [List.eq_replicate_iff]
    refine ⟨List.length_reverse, fun c hc => ?_⟩
    have := List.mem_takeWhile_imp (List.mem_reverse.1 hc)
    simpa using this
  rw [hslashes] at hsplit
  generalize (p.text.reverse.takeWhile (· == '/')).length = k at hsplit
  unfold withoutEndSlashes
  generalize hback : p.text.reverse.dropWhile (· == '/') = back at hsplit ⊢
  cases back with
  | nil =>
    rw [List.reverse_nil, List.nil_append] at hsplit
    cases k with
    | zero => exact .inr ⟨0, by simp [hsplit]⟩
    | succ k => exact .inl ⟨k, hsplit, by simp [hsplit, List.replicate_succ]⟩
  | cons c back =>
    refine .inr ⟨k, hsplit, ?_, by simp⟩
    have := List.head?_dropWhile_not (· == '/') p.text.reverse
    rw [hback] at this
    simpa using this

theorem withoutEndSlashes_text_ne_nil {p : Path} (h : p.text ≠ []) :
    p.withoutEndSlashes.text ≠ [] := by
  rcases p.withoutEndSlashes_cases with ⟨k, -, hp⟩ | ⟨k, hk, -, hnil⟩
  · simp [hp]
  · intro ht
    rw [ht, hnil ht] at hk
    exact h hk

theorem walked_withoutEndSlashes (p : Path) : p.withoutEndSlashes.walked = p.walked := by
  rcases p.withoutEndSlashes_cases with ⟨k, hk, hp⟩ | ⟨k, hk, -⟩
  · have hroot : p = ⟨[] ++ List.replicate (k + 1) '/'⟩ := by rw [List.nil_append, ← hk]
    rw [hp, hroot, walked_append_slashes]
    rfl
  · have hsplit : p = ⟨p.withoutEndSlashes.text ++ List.replicate k '/'⟩ := by rw [← hk]
    conv_rhs => rw [hsplit]
    exact (walked_append_slashes _ k).symm

theorem isAbsolute_withoutEndSlashes (p : Path) :
    p.withoutEndSlashes.isAbsolute = p.isAbsolute := by
  rcases p.withoutEndSlashes_cases with ⟨k, hk, hp⟩ | ⟨k, hk, -, hnil⟩
  · rw [hp, isAbsolute, isAbsolute, hk]
    rfl
  · rw [isAbsolute, isAbsolute, hk]
    cases ht : p.withoutEndSlashes.text with
    | nil => rw [hnil ht]; rfl
    | cons c t => rfl

/-- Slashes at the end of a path lead nowhere, but the one of the root stays. -/
theorem steps_withoutEndSlashes (p : Path) :
    p.withoutEndSlashes.steps = p.walked ∨
      p.walked = [] ∧ p.isAbsolute = true ∧ p.withoutEndSlashes.steps = [.slash] := by
  rcases p.withoutEndSlashes_cases with ⟨k, hk, hp⟩ | ⟨k, hk, hlast, -⟩
  · right
    rw [← walked_withoutEndSlashes, ← isAbsolute_withoutEndSlashes, hp]
    exact ⟨rfl, rfl, rfl⟩
  · left
    rw [steps_eq, walked_withoutEndSlashes, endStep, if_neg hlast, List.append_nil]

end Path

namespace Disk

variable {Q : Location → Entry → Prop} {d d' : Disk} {p q : Path} {l m : Location}

def Opens (d : Disk) (p : Path) (l : Location) : Prop :=
  d.tree.Leads .content maxLinks (d.start p) p.walked (.found l) ∧ d.tree.at? l = some .folder

theorem start_withoutEndSlashes (d : Disk) (p : Path) :
    d.start p.withoutEndSlashes = d.start p := by
  rw [start, start, Path.isAbsolute_withoutEndSlashes]

theorem opens_of_isFolder (h : d.isFolder p = true) : ∃ l, d.Opens p l := by
  obtain ⟨l, hl⟩ := isFolder_iff.1 h
  obtain ⟨hreach, hfolder⟩ := entry_ok_iff.1 hl
  obtain ⟨-, hleads⟩ := reach_ok_iff.1 hreach
  exact ⟨l, leads_walked hleads, hfolder⟩

theorem text_ne_nil_of_wellFormed (h : malformed? p = none) : p.text ≠ [] := by
  intro hnil
  simp [malformed?, hnil] at h

theorem malformed?_ne_absent (hp : p.text ≠ []) : malformed? p ≠ some .absent := by
  unfold malformed?
  rw [if_neg hp]
  split
  · simp
  · split <;> simp

/-! ## One folder -/

theorem makeFolder_ok (h : d.makeFolder p = .ok d') :
    ∃ l n, d.tree.Leads .entry maxLinks (d.start p) p.walked (.vacant l n) ∧
      d' = d.put (l ++ [n]) .folder := by
  unfold makeFolder at h
  split at h
  · simp at h
  · simp only [start_withoutEndSlashes] at h
    split at h
    · next n hlast =>
      split at h
      · simp at h
      · simp at h
      · next l m hwalk =>
        cases h
        refine ⟨l, m, ?_, rfl⟩
        rcases p.steps_withoutEndSlashes with hsteps | ⟨-, -, hsteps⟩
        · rw [← hsteps]
          exact Tree.leads_of_walk hwalk
        · simp [hsteps] at hlast
    · cases hf : d.folderOf p.withoutEndSlashes <;> simp [hf, Except.bind] at h
    · simp at h

theorem makeFolder_fresh (hd : d.tree.WellFormed) (h : d.makeFolder p = .ok d') :
    ∃ l, d'.Opens p l ∧ d.tree.at? l = none ∧
      (∀ m, l <+: m → m ≠ l → d'.tree.at? m = none) ∧
      d.Grows (fun m e => e = .folder ∧
        (d.tree.LinkFree → m = Step.leadAll (d.start p) p.walked)) d' := by
  obtain ⟨l, n, hleads, rfl⟩ := makeFolder_ok h
  obtain ⟨hl, -, hfree⟩ := hleads.of_vacant
  have hput : ∀ m, (d.put (l ++ [n]) .folder).tree.at? m =
      if m = l ++ [n] then some .folder else d.tree.at? m :=
    fun m => Tree.at?_put_of_ne_nil (by simp)
  have hadds : Adds (fun m e => e = .folder ∧
      (d.tree.LinkFree → m = Step.leadAll (d.start p) p.walked)) d (d.put (l ++ [n]) .folder) := by
    refine .fresh hl (hleads.isName_of_vacant fun n hn => Path.isName_of_down_mem_walked hn) hfree
      (by simp) ⟨rfl, fun hlinks => ?_⟩
    exact hleads.place_eq hlinks
  refine ⟨l ++ [n], ⟨?_, ?_⟩, hfree, fun m hm hne => ?_, .of_adds hadds⟩
  · exact hleads.fill hadds.tree_extends (by rw [hput, if_pos rfl]) (by simp)
  · rw [hput, if_pos rfl]
  · rw [hput, if_neg hne]
    exact hd.none_below hfree hm

theorem steps_of_walked_concat {ss : List Step} {x : Step} (hp : p.walked = ss ++ [x]) :
    p.withoutEndSlashes.steps = ss ++ [x] := by
  rcases p.steps_withoutEndSlashes with hsteps | ⟨hnil, -, -⟩
  · rw [hsteps, hp]
  · simp [hp] at hnil

theorem text_ne_nil_of_walked {ss : List Step} {x : Step} (hp : p.walked = ss ++ [x]) :
    p.text ≠ [] := by
  intro hnil
  have : p = ⟨[]⟩ := by rw [← hnil]
  rw [this, Path.walked_nil] at hp
  simp at hp

/-- Below a folder, whether a folder is made hangs on its path, its name and what is there. -/
theorem makeFolder_eq_below {ss : List Step} {n : Text} (hp : p.walked = ss ++ [.down n])
    (hl : d.tree.Leads .content maxLinks (d.start p) ss (.found l))
    (hfolder : d.tree.at? l = some .folder) :
    d.makeFolder p =
      match malformed? p with
      | some r => .error r
      | none =>
        if maxNameBytes < n.byteSize then .error .nameTooLong
        else if d.tree.at? (l ++ [n]) = none then .ok (d.put (l ++ [n]) .folder)
        else .error .present := by
  obtain ⟨j, hj⟩ : ∃ j, d.tree.walk .entry maxLinks (d.start p) (ss ++ [.down n]) =
      d.tree.walk .entry j l [.down n] := hl.walk_append (by simp) (by simp)
  rw [Tree.walk_down_entry hfolder] at hj
  have hlast : (ss ++ [Step.down n]).getLast? = some (.down n) := List.getLast?_concat
  unfold makeFolder
  cases malformed? p with
  | some r => rfl
  | none =>
    simp only [start_withoutEndSlashes, steps_of_walked_concat hp, hlast, hj]
    by_cases hn : maxNameBytes < n.byteSize
    · simp [hn]
    · by_cases hfree : d.tree.at? (l ++ [n]) = none <;> simp [hn, hfree]

/-- Below a folder, a folder is made if the name is free, and otherwise it is not missing. -/
theorem makeFolder_below {ss : List Step} {n : Text} (hp : p.walked = ss ++ [.down n])
    (hl : d.tree.Leads .content maxLinks (d.start p) ss (.found l))
    (hfolder : d.tree.at? l = some .folder) :
    (d.tree.at? (l ++ [n]) = none ∧ d.makeFolder p = .ok (d.put (l ++ [n]) .folder)) ∨
      ∃ r, d.makeFolder p = .error r ∧ r ≠ .absent := by
  rw [makeFolder_eq_below hp hl hfolder]
  cases hm : malformed? p with
  | some r =>
    refine .inr ⟨r, rfl, ?_⟩
    rintro rfl
    exact malformed?_ne_absent (text_ne_nil_of_walked hp) hm
  | none =>
    by_cases hn : maxNameBytes < n.byteSize
    · exact .inr ⟨.nameTooLong, by simp [hn], by simp⟩
    · by_cases hfree : d.tree.at? (l ++ [n]) = none
      · exact .inl ⟨hfree, by simp [hn, hfree]⟩
      · exact .inr ⟨.present, by simp [hn, hfree], by simp⟩

theorem folderOf_ok {ss : List Step} {x : Step} (hp : p.steps = ss ++ [x])
    (hl : d.tree.Leads .content maxLinks (d.start p) ss (.found l))
    (hfolder : d.tree.at? l = some .folder) : d.folderOf p = .ok l := by
  rw [folderOf, hp, List.dropLast_concat, Tree.walk_of_leads hl]
  simp only [hfolder]

/-- No folder is made where the last step is not a name. -/
theorem makeFolder_of_last {ss : List Step} {x : Step} (hwell : malformed? p = none)
    (hp : p.withoutEndSlashes.steps = ss ++ [x]) (hx : ∀ n, x ≠ .down n)
    (hl : d.tree.Leads .content maxLinks (d.start p) ss (.found l))
    (hfolder : d.tree.at? l = some .folder) : d.makeFolder p = .error .present := by
  have hf : d.folderOf p.withoutEndSlashes = .ok l :=
    folderOf_ok hp (by rwa [start_withoutEndSlashes]) hfolder
  unfold makeFolder
  simp only [hwell, hp, List.getLast?_concat, hf]
  cases x with
  | down n => exact absurd rfl (hx n)
  | stay => rfl
  | up => rfl
  | slash => rfl

/-- Where a path leads somewhere, no folder is made, and none is missing. -/
theorem makeFolder_of_leads (hne : p.text ≠ [])
    (hwalked : d.tree.Leads .content maxLinks (d.start p) p.walked (.found m)) :
    ∃ r, d.makeFolder p = .error r ∧ r ≠ .absent := by
  cases hwell : malformed? p with
  | some r =>
    refine ⟨r, by simp only [makeFolder, hwell], ?_⟩
    rintro rfl
    exact malformed?_ne_absent hne hwell
  | none =>
    rcases List.eq_nil_or_concat p.walked with hnil | ⟨ss, x, hss⟩
    · refine ⟨.present, ?_, by simp⟩
      rcases p.steps_withoutEndSlashes with hsteps | ⟨-, habs, hsteps⟩
      · unfold makeFolder
        simp only [hwell, hsteps, hnil, List.getLast?_nil]
      · have hroot : p.withoutEndSlashes.steps = [] ++ [.slash] := hsteps
        refine makeFolder_of_last hwell hroot (by simp) (.here _ _) ?_
        rw [start, if_pos habs, Tree.at?_nil]
    · rw [List.concat_eq_append] at hss
      have hsteps := steps_of_walked_concat hss
      rw [hss] at hwalked
      obtain ⟨l, hl, hend⟩ := hwalked.split (by simp)
      -- The last step is no name, or something of that name is there.
      cases hend with
      | stay hfolder =>
        exact ⟨.present, makeFolder_of_last hwell hsteps (by simp) hl hfolder, by simp⟩
      | slash hfolder =>
        exact ⟨.present, makeFolder_of_last hwell hsteps (by simp) hl hfolder, by simp⟩
      | up hfolder =>
        exact ⟨.present, makeFolder_of_last hwell hsteps (by simp) hl hfolder, by simp⟩
      | link hentry => cases hentry
      | down _ hfolder _ hm =>
        refine (makeFolder_below hss hl hfolder).resolve_left ?_
        rintro ⟨hfree, -⟩
        rw [hfree] at hm
        cases hm
      | follow _ _ hfolder _ hm =>
        refine (makeFolder_below hss hl hfolder).resolve_left ?_
        rintro ⟨hfree, -⟩
        rw [hfree] at hm
        cases hm

/-! ## Folders above -/

/-- The folders that are made at the paths of a list, when a disk had no links. -/
def MadeAt (d : Disk) (ps : List Path) (m : Location) (e : Entry) : Prop :=
  e = .folder ∧ (d.tree.LinkFree → ∃ p ∈ ps, m = Step.leadAll (d.start p) p.walked)

theorem makeFolder_grows (hd : d.tree.WellFormed) (h : d.makeFolder p = .ok d') (above : List Path) :
    d.Grows (MadeAt d (p :: above)) d' := by
  obtain ⟨l, -, -, -, hgrows⟩ := makeFolder_fresh hd h
  exact hgrows.imp fun m e he => ⟨he.1, fun hlinks => ⟨p, List.mem_cons_self, he.2 hlinks⟩⟩

theorem MadeAt.cons {above : List Path} {m : Location} {e : Entry} (p : Path)
    (h : MadeAt d above m e) : MadeAt d (p :: above) m e := by
  refine ⟨h.1, fun hlinks => ?_⟩
  obtain ⟨q, hq, hm⟩ := h.2 hlinks
  exact ⟨q, List.mem_cons_of_mem p hq, hm⟩

theorem MadeAt.of_grows {d₁ : Disk} {ps : List Path} {m : Location} {e : Entry}
    (hgrows : d.Grows Q d₁) (h : MadeAt d₁ ps m e) : MadeAt d ps m e := by
  refine ⟨h.1, fun hlinks => ?_⟩
  obtain ⟨p, hp, hm⟩ := h.2 (hgrows.linkFree hlinks)
  exact ⟨p, hp, by rw [hm, hgrows.start_eq]⟩

/-- What was made before a folder could not be made is made still. -/
theorem makeUpwards_grows (hd : d.tree.WellFormed) (ps : List Path) :
    d.Grows (MadeAt d ps) (d.makeUpwards ps).1 := by
  induction ps generalizing d with
  | nil => exact .refl d
  | cons p above ih =>
    unfold makeUpwards
    split
    · next d' h => exact makeFolder_grows hd h above
    · have hup : d.Grows (MadeAt d (p :: above)) (d.makeUpwards above).1 :=
        (ih hd).imp fun m e => .cons p
      split
      · next d₁ r h =>
        rw [h] at hup
        exact hup
      · next d₁ h =>
        rw [h] at hup
        split
        · next d' h' =>
          have hlast := makeFolder_grows (hup.wellFormed hd) h' above
          exact hup.trans (hlast.imp fun m e => .of_grows hup)
        · split <;> exact hup
    · split <;> exact .refl d

/-- A folder is there if it is made now, if it is made after those above it, or if it was there. -/
theorem makeUpwards_ok {above : List Path} (h : d.makeUpwards (p :: above) = (d', .ok ())) :
    ∃ d₁, (d₁ = d ∨ d.makeUpwards above = (d₁, .ok ())) ∧
      (d₁.makeFolder p = .ok d' ∨ d' = d₁ ∧ d₁.isFolder p = true) := by
  unfold makeUpwards at h
  split at h
  · next d₁ hmake =>
    cases h
    exact ⟨d, .inl rfl, .inl hmake⟩
  · split at h
    · cases h
    · next d₁ hmade =>
      refine ⟨d₁, .inr hmade, ?_⟩
      split at h
      · next d₂ hmake =>
        cases h
        exact .inl hmake
      · split at h
        · next hfolder =>
          cases h
          exact .inr ⟨rfl, hfolder⟩
        · cases h
  · split at h
    · next hfolder =>
      cases h
      exact ⟨d, .inl rfl, .inr ⟨rfl, hfolder⟩⟩
    · cases h

/-- A path leads to a folder that is new and empty. -/
def OpensFresh (d d' : Disk) (p : Path) : Prop :=
  ∃ l, d'.Opens p l ∧ d.tree.at? l = none ∧ ∀ m, l <+: m → m ≠ l → d'.tree.at? m = none

theorem present_of_isFolder (h : d.isFolder p = true) : d.present p = true := by
  obtain ⟨l, hl⟩ := isFolder_iff.1 h
  exact present_iff.2 ⟨l, _, hl⟩

/-- Right behind an empty folder, a path without `..` leads nowhere or to the folder itself. -/
theorem opens_of_empty {i j : Nat} {x : Step} {l : Location} (hq : d.Opens q l)
    (hempty : ∀ m, l <+: m → m ≠ l → d.tree.at? m = none) (hstart : d.start q = d.start p)
    (hx : x ≠ .up)
    (hp : p.walked = q.walked ++ List.replicate i .stay ++ x :: List.replicate j .stay)
    (h : d.isFolder p = true) : d.Opens p l := by
  obtain ⟨m, hm, hfolder⟩ := opens_of_isFolder h
  have hsplit := hm
  rw [hp, List.append_assoc] at hsplit
  obtain ⟨l', hl', hrest⟩ := hsplit.split (by simp)
  rw [← hstart] at hl'
  cases hl'.unique hq.1
  have hstep := hrest.of_replicate_stay
  have hstays : ∀ k, d.tree.Leads .content k l (List.replicate j .stay) (.found m) →
      d.Opens p l := by
    intro k hk
    rw [← List.append_nil (List.replicate j Step.stay)] at hk
    cases hk.of_replicate_stay
    exact ⟨hm, hfolder⟩
  have hnone : ∀ n, d.tree.at? (l ++ [n]) = none :=
    fun n => hempty _ (List.prefix_append l [n]) (by simp)
  generalize List.replicate j Step.stay = stays at hstep hstays
  -- A name would have to lead to something in the empty folder.
  cases hstep with
  | stay _ hstep => exact hstays _ hstep
  | slash _ hstep => exact hstays _ hstep
  | up => exact absurd rfl hx
  | link hentry => cases hentry
  | down _ _ _ hsome =>
    rw [hnone] at hsome
    cases hsome
  | follow _ _ _ _ hsome =>
    rw [hnone] at hsome
    cases hsome

/-- Each path of the list is the parent of the one before it. -/
def Upwards : List Path → Prop := List.IsChain fun p q => p.parent? = some q

theorem makeUpwards_of_refused {r : Refusal} (hr : d.makeFolder p = .error r) (hne : r ≠ .absent)
    (above : List Path) :
    d.makeUpwards (p :: above) = (d, if d.isFolder p then .ok () else .error r) := by
  unfold makeUpwards
  rw [hr]
  split
  · next heq => cases heq
  · next heq =>
    cases heq
    exact absurd rfl hne
  · next heq =>
    cases heq
    split <;> rfl

theorem makeUpwards_of_leads (hne : p.text ≠ [])
    (h : d.tree.Leads .content maxLinks (d.start p) p.walked (.found m)) (above : List Path) :
    (d.makeUpwards (p :: above)).1 = d := by
  obtain ⟨r, hr, hne⟩ := makeFolder_of_leads hne h
  rw [makeUpwards_of_refused hr hne]

/-- The first folder of a list is a new one if nothing above it changed, or if the folder right above
it is a new one. -/
theorem makeUpwards_fresh_of_above {above : List Path} (hd : d.tree.WellFormed)
    (hup : .up ∉ p.walked) (hp : d.present p = false)
    (habove : ∀ d₁, d.makeUpwards above = (d₁, .ok ()) →
      d₁ = d ∨ ∃ q, p.parent? = some q ∧ OpensFresh d d₁ q)
    (h : d.makeUpwards (p :: above) = (d', .ok ())) : OpensFresh d d' p := by
  obtain ⟨d₁, hmade, hlast⟩ := makeUpwards_ok h
  have hgrows : d.Grows (MadeAt d above) d₁ := by
    rcases hmade with rfl | hmade
    · exact .refl d₁
    · have := makeUpwards_grows hd above
      rwa [hmade] at this
  rcases hlast with hmake | ⟨rfl, hfolder⟩
  · obtain ⟨l, hopens, hnone, hempty, -⟩ := makeFolder_fresh (hgrows.wellFormed hd) hmake
    exact ⟨l, hopens, hgrows.tree_extends.none_of_none hnone, hempty⟩
  · rcases hmade.elim .inl (habove d') with rfl | ⟨q, hq, l, hopens, hnone, hempty⟩
    · rw [present_of_isFolder hfolder] at hp
      cases hp
    · obtain ⟨habs, i, x, j, hwalked⟩ := Path.walked_of_parent? hq
      have hx : x ≠ .up := by
        rintro rfl
        exact hup (by simp [hwalked])
      have hstart : d'.start q = d'.start p := by rw [start, start, habs]
      exact ⟨l, opens_of_empty hopens hempty hstart hx hwalked hfolder, hnone, hempty⟩

theorem makeUpwards_fresh {above : List Path} (hchain : Upwards (p :: above))
    (hd : d.tree.WellFormed) (hup : .up ∉ p.walked) (hp : d.present p = false)
    (h : d.makeUpwards (p :: above) = (d', .ok ())) : OpensFresh d d' p := by
  induction above generalizing p d' with
  | nil =>
    refine makeUpwards_fresh_of_above hd hup hp (fun d₁ h₁ => ?_) h
    cases h₁
    exact .inl rfl
  | cons q above ih =>
    obtain ⟨hq, hrest⟩ := List.isChain_cons_cons.1 hchain
    refine makeUpwards_fresh_of_above hd hup hp (fun d₁ h₁ => ?_) h
    by_cases hpresent : d.present q = true
    · left
      obtain ⟨m, e, he⟩ := present_iff.1 hpresent
      obtain ⟨hwell, hleads⟩ := reach_ok_iff.1 (entry_ok_iff.1 he).1
      have hne := text_ne_nil_of_wellFormed hwell
      have := makeUpwards_of_leads hne (leads_walked hleads) above
      rw [h₁] at this
      exact this
    · obtain ⟨-, i, x, j, hwalked⟩ := Path.walked_of_parent? hq
      have hup' : .up ∉ q.walked := fun hmem => hup (by simp [hwalked, hmem])
      exact .inr ⟨q, hq, ih hrest hup' (by simpa using hpresent) h₁⟩

/-! ## A folder with those above it -/

theorem upwards_ancestorsWithin (n : Nat) (p : Path) : Upwards (Path.ancestorsWithin n p) := by
  induction n generalizing p with
  | zero => exact List.IsChain.nil
  | succ n ih =>
    unfold Path.ancestorsWithin
    split
    · exact List.IsChain.singleton p
    · next q hq =>
      cases n with
      | zero => exact List.IsChain.singleton p
      | succ n =>
        have := ih q
        unfold Path.ancestorsWithin at this ⊢
        split at this
        · next hnone => simpa [hnone, Upwards] using hq
        · next r hr => simpa [hr, Upwards, hq] using this

/-- The paths above a path start where it starts, and take the first of its steps. -/
theorem walked_of_mem_ancestorsWithin {n : Nat} (h : q ∈ Path.ancestorsWithin n p) :
    q.isAbsolute = p.isAbsolute ∧ q.walked <+: p.walked := by
  induction n generalizing p with
  | zero => simp [Path.ancestorsWithin] at h
  | succ n ih =>
    unfold Path.ancestorsWithin at h
    split at h
    · rw [List.mem_singleton] at h
      exact h ▸ ⟨rfl, List.prefix_refl _⟩
    · next r hr =>
      rcases List.mem_cons.1 h with rfl | h
      · exact ⟨rfl, List.prefix_refl _⟩
      · obtain ⟨habs, hpre⟩ := ih h
        obtain ⟨habs', i, x, j, hwalked⟩ := Path.walked_of_parent? hr
        refine ⟨habs.trans habs', hpre.trans ?_⟩
        rw [hwalked, List.append_assoc]
        exact List.prefix_append _ _

/-- Only folders are made, and without links they are on the way to the path. -/
def OnTheWay (d : Disk) (p : Path) (m : Location) (e : Entry) : Prop :=
  e = .folder ∧ (d.tree.LinkFree → m <+: Step.leadAll (d.start p) p.walked)

theorem makeFolders_grows (hd : d.tree.WellFormed) (hup : .up ∉ p.walked) :
    d.Grows (OnTheWay d p) (d.makeFolders p).1 := by
  refine (makeUpwards_grows hd _).imp fun m e he => ⟨he.1, fun hlinks => ?_⟩
  obtain ⟨q, hq, rfl⟩ := he.2 hlinks
  have hmem := (List.takeWhile_prefix _).subset hq
  obtain ⟨habs, r, hr⟩ := walked_of_mem_ancestorsWithin hmem
  have hstart : d.start q = d.start p := by rw [start, start, habs]
  rw [hstart, ← hr, Step.leadAll_append]
  refine Step.prefix_leadAll (fun hmem => hup ?_) _
  rw [← hr]
  exact List.mem_append_right _ hmem

/-- The folders that are made for a path start with the one at the path itself, if any are made. -/
theorem makeFolders_eq (p : Path) :
    (∃ above, Upwards (p :: above) ∧ p.text ≠ [] ∧
      ∀ d : Disk, d.makeFolders p = d.makeUpwards (p :: above)) ∨
      (p.text = [] ∨ p.parent? = none) ∧ ∀ d : Disk, d.makeFolders p = (d, .ok ()) := by
  have hall := upwards_ancestorsWithin (p.segments.length + 1) p
  unfold Upwards at hall
  rw [← List.takeWhile_append_dropWhile (p := fun q => decide (q.text ≠ []) && q.parent?.isSome)
    (l := Path.ancestorsWithin (p.segments.length + 1) p)] at hall
  have hchain := hall.left_of_append
  have hhead : ∃ above, Path.ancestorsWithin (p.segments.length + 1) p = p :: above := by
    unfold Path.ancestorsWithin
    split
    · exact ⟨[], rfl⟩
    · exact ⟨_, rfl⟩
  obtain ⟨above, habove⟩ := hhead
  unfold makeFolders Path.ancestors
  rw [habove] at hchain ⊢
  by_cases hp : p.text ≠ [] ∧ p.parent?.isSome = true
  · have hpos : (decide (p.text ≠ []) && p.parent?.isSome) = true := by simpa using hp
    rw [List.takeWhile_cons, if_pos hpos] at hchain
    simp only [List.takeWhile_cons, if_pos hpos]
    exact .inl ⟨_, hchain, hp.1, fun _ => rfl⟩
  · have hneg : ¬ (decide (p.text ≠ []) && p.parent?.isSome) = true := by simpa using hp
    simp only [List.takeWhile_cons, if_neg hneg]
    refine .inr ⟨?_, fun _ => rfl⟩
    rw [not_and_or, not_not, Option.not_isSome_iff_eq_none] at hp
    exact hp

theorem makeFolders_of_parent (h : p.parent?.isSome = true) :
    ∃ above, Upwards (p :: above) ∧ ∀ d : Disk, d.makeFolders p = d.makeUpwards (p :: above) := by
  rcases makeFolders_eq p with ⟨above, hchain, -, heq⟩ | ⟨hnil | hnone, -⟩
  · exact ⟨above, hchain, heq⟩
  · obtain rfl : p = ⟨[]⟩ := by rw [← hnil]
    cases h
  · rw [hnone] at h
    cases h

/-- A path with a parent that leads nowhere and has no `..` leads to a new folder afterwards. -/
theorem makeFolders_fresh (hd : d.tree.WellFormed) (hparent : p.parent?.isSome = true)
    (hup : .up ∉ p.walked) (hp : d.present p = false) (h : d.makeFolders p = (d', .ok ())) :
    OpensFresh d d' p := by
  obtain ⟨above, hchain, heq⟩ := makeFolders_of_parent hparent
  rw [heq] at h
  exact makeUpwards_fresh hchain hd hup hp h

theorem opens_nil (hp : p.text = []) (hhere : d.tree.at? d.here = some .folder) :
    d.Opens p d.here := by
  obtain rfl : p = ⟨[]⟩ := by rw [← hp]
  exact ⟨.here _ _, hhere⟩

/-- Where folders are made for a path, the path leads to a folder. -/
theorem makeFolders_opens (hd : d.tree.WellFormed)
    (hhere : p.text = [] → d.tree.at? d.here = some .folder)
    (h : d.makeFolders p = (d', .ok ())) : ∃ l, d'.Opens p l := by
  rcases makeFolders_eq p with ⟨above, -, -, heq⟩ | ⟨hpath, heq⟩
  · rw [heq] at h
    obtain ⟨d₁, hmade, hmake | ⟨rfl, hfolder⟩⟩ := makeUpwards_ok h
    · have hd₁ : d₁.tree.WellFormed := by
        rcases hmade with rfl | hmade
        · exact hd
        · have hgrows := makeUpwards_grows hd above
          rw [hmade] at hgrows
          exact hgrows.wellFormed hd
      obtain ⟨l, hopens, -⟩ := makeFolder_fresh hd₁ hmake
      exact ⟨l, hopens⟩
    · exact opens_of_isFolder hfolder
  · rw [heq] at h
    cases h
    by_cases hne : p.text = []
    · exact ⟨d.here, opens_nil hne (hhere hne)⟩
    · obtain ⟨habs, j, hj⟩ := Path.walked_of_parent?_eq_none hne (hpath.resolve_left hne)
      refine ⟨[], ?_, Tree.at?_nil _⟩
      rw [start, if_pos habs, hj]
      exact Tree.Leads.replicate_stay (Tree.at?_nil _) j

theorem makeFolders_of_opens (h : d.Opens p l) : (d.makeFolders p).1 = d := by
  rcases makeFolders_eq p with ⟨above, -, hne, heq⟩ | ⟨-, heq⟩
  · rw [heq]
    exact makeUpwards_of_leads hne h.1 above
  · rw [heq]

end Disk

end Pagefold
