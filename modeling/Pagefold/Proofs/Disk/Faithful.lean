import Pagefold.Proofs.Disk.Mirror

/-!
# Faithful copies

On a disk without links a copy replaces its destination by what its source holds, and leaves all else as
it was. It is refused for a file in the way, for a destination that is written with a `.` at its end,
for paths that are not accepted, and for nothing else.

* `Disk.Prepared`: the destination is removed and made again;
* `Disk.copyInto_attempt`, `Disk.copyTree_attempt`: the two outcomes of a copy;
* `Disk.copyTree_faithful`: when a folder is copied, and what the copy is.
-/

namespace Pagefold

namespace Path

variable {p q : Path} {l m : Location}

theorem Points.parent?_isSome (h : p.Points l) (hl : l ≠ []) : p.parent?.isSome = true := by
  by_contra hnone
  rw [Option.not_isSome_iff_eq_none] at hnone
  obtain ⟨-, j, hj⟩ := walked_of_parent?_eq_none h.text_ne_nil hnone
  have hplace := h.place
  rw [hj, Step.leadAll_replicate_stay] at hplace
  exact hl hplace.symm

theorem Points.isName (h : p.Points l) : ∀ n ∈ l, IsName n := by
  rw [← h.place]
  exact Step.isName_of_mem_leadAll (by simp) fun n hn => isName_of_down_mem_walked hn

theorem points_slashes {n : Text} (hn : IsName n) (k : Nat) :
    Points ⟨List.replicate (k + 1) '/' ++ n⟩ [n] := by
  have hwalked : walked ⟨List.replicate (k + 1) '/' ++ n⟩ = [.down n] := by
    induction k with
    | zero => rw [← walked_of_isName hn, ← walked_slash]; rfl
    | succ k ih => rw [← ih, ← walked_slash]; rfl
  refine ⟨rfl, ?_, ?_⟩
  · rw [hwalked]
    simp
  · rw [hwalked]
    rfl

theorem Points.eq_of_normalize (hp : p.Points l) (hq : q.Points m) (h : p.normalize = q.normalize) :
    l = m := by
  rw [normalize_of_isAbsolute hp.absolute, normalize_of_isAbsolute hq.absolute, hp.place,
    hq.place] at h
  have hwalked := congrArg walked h
  rw [walked_pathOf hp.isName, walked_pathOf hq.isName] at hwalked
  exact List.map_injective_iff.2 (fun n n' hn => Step.down.inj hn) hwalked

end Path

namespace Disk

variable {d d₁ d₂ : Disk} {p source dest : Path} {src dst l : Location}

/-! ## Into a new folder -/

theorem makeFolders_of_opens_accepted (hd : d.tree.WellFormed) (hp : p.Points l) (ha : p.Accepted)
    (hopens : d.Opens p l) : d.makeFolders p = (d, .ok ()) := by
  rcases makeFolders_eq p with ⟨above, -, hne, heq⟩ | ⟨-, heq⟩
  · obtain ⟨r, hr, habsent⟩ := makeFolder_of_leads hne hopens.1
    have hfolder : d.isFolder p = true :=
      isFolder_iff.2 ⟨l, entry_of_folder hd hp ha hopens.2 (by simp)⟩
    rw [heq, makeUpwards_of_refused hr habsent, if_pos hfolder]
  · exact heq d

/-- What a folder holds is copied into one that is empty. -/
theorem copyInto_attempt (h : Ready d source dest src dst) (hopens : d.Opens dest dst)
    (hfolder : d.tree.at? src = some .folder)
    (hempty : ∀ m, dst <+: m → m ≠ dst → d.tree.at? m = none) :
    Attempt (AllAccepted d source dest src ∧ (dest.join ⟨[]⟩).Accepted) d src dst 0
      (d.copyInto source dest) := by
  unfold copyInto
  cases hentry : d.entry source .entry with
  | error why =>
    refine .inr ⟨⟨_, rfl⟩, fun hwell => ?_⟩
    rw [entry_of_folder h.wellFormed h.source (hwell.1.here hfolder).1 hfolder (by simp)] at hentry
    cases hentry
  | ok x =>
    obtain ⟨l, e⟩ := x
    obtain ⟨-, he⟩ := entry_points h.linkFree h.source hentry
    rw [hfolder] at he
    cases he
    refine (copies_copyEntry maxPathBytes).copyFolder h.wellFormed h.linkFree h.source h.dest h.apart
      hfolder And.left (fun _ => ?_) (fun hwell => ?_) (by omega) 0
    · rw [makeFolders_of_opens hopens.join_nil]
      exact ⟨⟨h.wellFormed, h.linkFree, fun m _ => rfl⟩, h.made, hempty⟩
    · rw [makeFolders_of_opens_accepted h.wellFormed h.dest.join_nil hwell.2 hopens.join_nil]

/-! ## The destination -/

/-- The destination is a new folder, and other folders are only new on the way to it. -/
structure Prepared (d : Disk) (dest : Path) (dst : Location) (d₂ : Disk) : Prop where
  wellFormed : d₂.tree.WellFormed
  linkFree : d₂.tree.LinkFree
  opens : d₂.Opens dest dst
  empty : ∀ m, dst <+: m → m ≠ dst → d₂.tree.at? m = none
  outside : ∀ m, ¬ dst <+: m → d₂.tree.at? m = d.tree.at? m ∨
    m <+: dst ∧ d.tree.at? m = none ∧ d₂.tree.at? m = some .folder

theorem prepared_of_made (hd : d.tree.WellFormed) (hlinks : d.tree.LinkFree) (hdest : dest.Points dst)
    (hne : dst ≠ []) (hready : Readied d dest d₁) (hgone : d₁.present dest = false)
    (hmake : d₁.makeFolders dest = (d₂, .ok ())) : Prepared d dest dst d₂ := by
  have hd₁ := hready.wellFormed hd
  have hlinks₁ := hready.linkFree hlinks
  have hgrows := makeFolders_grows hd₁ hdest.noUp
  rw [hmake] at hgrows
  obtain ⟨l, hopens, -, hempty⟩ :=
    makeFolders_fresh hd₁ (hdest.parent?_isSome hne) hdest.noUp hgone hmake
  obtain rfl := hopens.eq_of_points (hgrows.linkFree hlinks₁) hdest
  refine ⟨hgrows.wellFormed hd₁, hgrows.linkFree hlinks₁, hopens, hempty, fun m hm => ?_⟩
  have hsame : d₁.tree.at? m = d.tree.at? m := by
    refine hready.keeps fun k hk => ?_
    rw [destinationAt_iff hlinks, hdest.start_eq, hdest.place] at hk
    rwa [hk]
  rcases hgrows.at?_eq_or m with hlast | ⟨e, he, ⟨rfl, hway⟩, -, hbefore⟩
  · exact .inl (hlast.trans hsame)
  · have hmdst := hway hlinks₁
    rw [hdest.start_eq, hdest.place] at hmdst
    rcases hbefore with hnone | ⟨bytes, bytes', -, hfile⟩
    · exact .inr ⟨hmdst, hsame ▸ hnone, he⟩
    · cases hfile

/-- No file is at the destination or above it, it is not written with a `.` at its end, and the paths
that the copy forms are accepted. -/
structure Permitted (d : Disk) (source dest : Path) (src dst : Location) : Prop where
  noFile : ∀ l bytes, l <+: dst → d.tree.at? l ≠ some (.file bytes)
  last : dest.walked.getLast? ≠ some .stay
  accepted : AllAccepted d source dest src
  slash : (dest.join ⟨[]⟩).Accepted

theorem Permitted.folder_of_some (h : Permitted d source dest src dst) (hlinks : d.tree.LinkFree)
    {e : Entry} (he : d.tree.at? dst = some e) : e = .folder := by
  cases e with
  | folder => rfl
  | file bytes => exact absurd he (h.noFile dst bytes (List.prefix_refl dst))
  | link q => exact absurd he (hlinks dst q)

theorem Permitted.removed (h : Permitted d source dest src dst) (hd : d.tree.WellFormed)
    (hlinks : d.tree.LinkFree) (hdest : dest.Points dst) (ha : dest.Accepted) (hne : dst ≠ []) :
    (if d.present dest then d.removeFolder dest else (d, .ok ())).2 = .ok () := by
  by_cases hpresent : d.present dest = true
  · obtain ⟨l, e, hentry⟩ := present_iff.1 hpresent
    obtain ⟨-, he⟩ := entry_points hlinks hdest hentry
    obtain rfl := h.folder_of_some hlinks he
    rw [if_pos hpresent]
    exact removeFolder_of_accepted hd hdest ha h.last hne he
  · rw [if_neg hpresent]

theorem Permitted.made (h : Permitted d source dest src dst) (hd : d.tree.WellFormed)
    (hlinks : d.tree.LinkFree) (hdest : dest.Points dst) (ha : dest.Accepted)
    (hready : Readied d dest d₁) (hgone : d₁.present dest = false) :
    (d₁.makeFolders dest).2 = .ok () := by
  have hd₁ := hready.wellFormed hd
  refine makeFolders_of_accepted hd₁ (hready.linkFree hlinks) hdest ha h.last
    (fun m bytes hm hfile => h.noFile m bytes hm (hready.within hfile)) ?_
  refine Option.eq_none_iff_forall_ne_some.2 fun e he => ?_
  -- A folder that is still there would be told by its path.
  obtain rfl := h.folder_of_some hlinks (hready.within he)
  have hpresent := present_iff.2 ⟨dst, _, entry_of_folder hd₁ hdest ha he (by simp)⟩
  rw [hgone] at hpresent
  cases hpresent

/-! ## The whole copy -/

/-- The destination holds what the source held, `n` files are in it, and nothing else is different but
for new folders on the way to it. -/
structure Faithful (d : Disk) (src dst : Location) (d' : Disk) (n : Nat) : Prop where
  same : ∀ r, d'.tree.at? (dst ++ r) = d.tree.at? (src ++ r)
  count : d.tree.Counts (src <+: ·) n
  outside : ∀ m, ¬ dst <+: m → d'.tree.at? m = d.tree.at? m ∨
    m <+: dst ∧ d.tree.at? m = none ∧ d'.tree.at? m = some .folder

/-- Nothing at the source changes while the destination is made ready. -/
theorem Prepared.source_eq (h : Prepared d dest dst d₂) (hapart : Apart src dst) (r : Location) :
    d₂.tree.at? (src ++ r) = d.tree.at? (src ++ r) := by
  have hsrc := List.prefix_append src r
  rcases h.outside _ (hapart.not_below hsrc) with hsame | ⟨hway, -, -⟩
  · exact hsame
  · exact absurd (hsrc.trans hway) hapart.left

theorem Prepared.faithful (h : Prepared d dest dst d₂) (hapart : Apart src dst) {d' : Disk} {n : Nat}
    (hmirror : Mirrors d₂ src dst d') (hcount : d₂.tree.Counts (src <+: ·) n) :
    Faithful d src dst d' n where
  same r := (hmirror.same r).trans (h.source_eq hapart r)
  count := hcount.of_same fun m hm => by
    obtain ⟨r, rfl⟩ := hm
    exact (h.source_eq hapart r).symm
  outside m hm := by
    rw [hmirror.outside m hm]
    exact h.outside m hm

/-- A copy is faithful, or it is refused for something that is not permitted. -/
theorem copyTree_attempt (hd : d.tree.WellFormed) (hlinks : d.tree.LinkFree)
    (hsource : source.Points src) (hdest : dest.Points dst) (hfolder : d.tree.at? src = some .folder)
    (hapart : Apart src dst) :
    (∃ n, (d.copyTree source dest).2 = .ok n ∧ Faithful d src dst (d.copyTree source dest).1 n) ∨
      (∃ why, (d.copyTree source dest).2 = .error why) ∧ ¬ Permitted d source dest src dst := by
  have hne : dst ≠ [] := by
    rintro rfl
    exact hapart.right List.nil_prefix
  have hdiff : source.normalize ≠ dest.normalize := by
    intro hsame
    obtain rfl := hsource.eq_of_normalize hdest hsame
    exact hapart.left (List.prefix_refl _)
  have haccepted : Permitted d source dest src dst → dest.Accepted :=
    fun hperm => (hperm.accepted.here hfolder).2
  unfold copyTree
  rw [if_neg hdiff]
  simp only
  generalize hremoved : (if d.present dest then d.removeFolder dest else (d, .ok ())) = removed
  obtain ⟨hready, hgone⟩ := readied_removed hd dest hremoved.symm
  obtain ⟨d₁, why | _⟩ := removed
  · -- The destination could not be removed.
    refine .inr ⟨⟨_, rfl⟩, fun hperm => ?_⟩
    have hok := hperm.removed hd hlinks hdest (haccepted hperm) hne
    rw [hremoved] at hok
    cases hok
  · have hgone := hgone rfl
    simp only
    generalize hmake : d₁.makeFolders dest = outcome
    obtain ⟨d₂, why | _⟩ := outcome
    · -- The destination could not be made.
      refine .inr ⟨⟨_, rfl⟩, fun hperm => ?_⟩
      have hok := hperm.made hd hlinks hdest (haccepted hperm) hready hgone
      rw [hmake] at hok
      cases hok
    · -- An empty destination is filled, and the source still holds what it held.
      have hprepared := prepared_of_made hd hlinks hdest hne hready hgone hmake
      have hsrc := hprepared.source_eq hapart
      have hfolder₂ : d₂.tree.at? src = some .folder := by
        have := hsrc []
        rwa [List.append_nil, hfolder] at this
      have hstart : Ready d₂ source dest src dst :=
        ⟨hprepared.wellFormed, hprepared.linkFree, hsource, hdest, hapart, hprepared.opens.2⟩
      rcases copyInto_attempt hstart hprepared.opens hfolder₂ hprepared.empty with
        ⟨n, hn, hmirror, hcount⟩ | ⟨hwhy, hbad⟩
      · exact .inl ⟨n, by rw [hn, Nat.zero_add], hprepared.faithful hapart hmirror hcount⟩
      · exact .inr ⟨hwhy, fun hperm => hbad ⟨hperm.accepted.of_same hsrc, hperm.slash⟩⟩

/-- A folder is copied if no file is at the destination or above it, the destination is not written with
a `.` at its end, and the paths that are formed are accepted. Whenever it is copied, what is at the
destination and below it is what is at the source and below it, its files are counted, and all else is
as it was but for new folders above the destination. -/
theorem copyTree_faithful (hd : d.tree.WellFormed) (hlinks : d.tree.LinkFree)
    (hsource : source.Points src) (hdest : dest.Points dst) (hfolder : d.tree.at? src = some .folder)
    (hapart : Apart src dst) :
    ((∀ l bytes, l <+: dst → d.tree.at? l ≠ some (.file bytes)) →
      dest.walked.getLast? ≠ some .stay → (dest.join ⟨[]⟩).Accepted →
      AllAccepted d source dest src → ∃ n, (d.copyTree source dest).2 = .ok n) ∧
    ∀ n, (d.copyTree source dest).2 = .ok n →
      (∀ r, (d.copyTree source dest).1.tree.at? (dst ++ r) = d.tree.at? (src ++ r)) ∧
      n = {m | src <+: m ∧ ∃ bytes, d.tree.at? m = some (.file bytes)}.ncard ∧
      ∀ m, ¬ dst <+: m → (d.copyTree source dest).1.tree.at? m = d.tree.at? m ∨
        m <+: dst ∧ d.tree.at? m = none ∧ (d.copyTree source dest).1.tree.at? m = some .folder := by
  have hattempt := copyTree_attempt hd hlinks hsource hdest hfolder hapart
  constructor
  · intro hfiles hlast hslash hall
    rcases hattempt with ⟨n, hn, -⟩ | ⟨-, hbad⟩
    · exact ⟨n, hn⟩
    · exact absurd ⟨hfiles, hlast, hall, hslash⟩ hbad
  · intro n hn
    rcases hattempt with ⟨n', hn', hfaithful⟩ | ⟨⟨why, hwhy⟩, -⟩
    · obtain rfl : n = n' := Except.ok.inj (hn.symm.trans hn')
      exact ⟨hfaithful.same, hfaithful.count.ncard_eq.symm, hfaithful.outside⟩
    · rw [hn] at hwhy
      cases hwhy

def stockedSite : Disk :=
  ⟨⟨[(["a".toList], .folder), (["a".toList, "f".toList], .file "x".toUTF8),
    (["a".toList, "e".toList], .folder)]⟩, []⟩

theorem stockedSite_wellFormed : stockedSite.tree.WellFormed :=
  Tree.wellFormed_of_entries (by decide)

theorem stockedSite_linkFree : stockedSite.tree.LinkFree :=
  Tree.linkFree_of_entries (by simp [stockedSite])

theorem stockedSite_file {bytes : ByteArray} (h : stockedSite.tree.at? l = some (.file bytes)) :
    l = ["a".toList, "f".toList] := by
  have hmem := Tree.mem_entries (ne_nil_of_file h) h
  simp only [stockedSite, List.mem_cons, Prod.mk.injEq, List.not_mem_nil, or_false, reduceCtorEq,
    and_false, false_or] at hmem
  exact hmem.1

theorem stockedSite_accepted :
    AllAccepted stockedSite ⟨"/a".toList⟩ ⟨"/n/b".toList⟩ ["a".toList] := by
  intro r e he
  have hmem := Tree.mem_entries (by simp) he
  simp only [stockedSite, List.mem_cons, Prod.mk.injEq, List.not_mem_nil, or_false,
    List.singleton_append, List.cons.injEq, true_and] at hmem
  rcases hmem with ⟨rfl, -⟩ | ⟨rfl, -⟩ | ⟨rfl, -⟩ <;> decide

theorem copyTree_faithful_stockedSite :
    (∃ n, (stockedSite.copyTree ⟨"/a".toList⟩ ⟨"/n/b".toList⟩).2 = .ok n) ∧
    (stockedSite.copyTree ⟨"/a".toList⟩ ⟨"/n/b".toList⟩).2 = .ok 1 ∧
    (∀ r, (stockedSite.copyTree ⟨"/a".toList⟩ ⟨"/n/b".toList⟩).1.tree.at?
        (["n".toList, "b".toList] ++ r) = stockedSite.tree.at? (["a".toList] ++ r)) ∧
    1 = {m | ["a".toList] <+: m ∧ ∃ bytes, stockedSite.tree.at? m = some (.file bytes)}.ncard := by
  have hsource : Path.Points ⟨"/a".toList⟩ ["a".toList] := ⟨rfl, by decide, rfl⟩
  have hdest : Path.Points ⟨"/n/b".toList⟩ ["n".toList, "b".toList] := ⟨rfl, by decide, rfl⟩
  have hcopy := copyTree_faithful stockedSite_wellFormed stockedSite_linkFree hsource hdest rfl
    ⟨by decide, by decide⟩
  have hone : (stockedSite.copyTree ⟨"/a".toList⟩ ⟨"/n/b".toList⟩).2 = .ok 1 := rfl
  obtain ⟨hsame, hcount, -⟩ := hcopy.2 1 hone
  refine ⟨hcopy.1 (fun l bytes hl hfile => ?_) (by decide) (by decide) stockedSite_accepted, hone,
    hsame, hcount⟩
  rw [stockedSite_file hfile] at hl
  revert hl
  decide

/-- A copy is refused, where no file is in the way, for a `.` at the end of its destination, for a name
that is too long, and for a path that is too long. -/
theorem copyTree_refused :
    stockedSite.tree.LinkFree ∧ stockedSite.tree.at? ["a".toList] = some .folder ∧
    Path.Points ⟨"/a".toList⟩ ["a".toList] ∧
    (Path.Points ⟨"/b/.".toList⟩ ["b".toList] ∧ Apart ["a".toList] ["b".toList] ∧
      (∀ l bytes, l <+: ["b".toList] → stockedSite.tree.at? l ≠ some (.file bytes)) ∧
      (stockedSite.copyTree ⟨"/a".toList⟩ ⟨"/b/.".toList⟩).2 = .error (.refused .absent)) ∧
    (Path.Points ⟨'/' :: List.replicate 256 'b'⟩ [List.replicate 256 'b'] ∧
      Apart ["a".toList] [List.replicate 256 'b'] ∧
      (∀ l bytes, l <+: [List.replicate 256 'b'] → stockedSite.tree.at? l ≠ some (.file bytes)) ∧
      (stockedSite.copyTree ⟨"/a".toList⟩ ⟨'/' :: List.replicate 256 'b'⟩).2
        = .error (.refused .nameTooLong)) ∧
    (Path.Points ⟨List.replicate 4095 '/' ++ "b".toList⟩ ["b".toList] ∧
      (stockedSite.copyTree ⟨"/a".toList⟩ ⟨List.replicate 4095 '/' ++ "b".toList⟩).2
        = .error (.refused .nameTooLong)) := by
  have hfiles : ∀ n l bytes, l <+: [n] → stockedSite.tree.at? l ≠ some (.file bytes) := by
    intro n l bytes hl hfile
    rw [stockedSite_file hfile] at hl
    have hlength := hl.length_le
    simp at hlength
  have hname : IsName (List.replicate 256 'b') := by decide +kernel
  refine ⟨stockedSite_linkFree, rfl, ⟨rfl, by decide, rfl⟩, ?_, ?_, ?_⟩
  · exact ⟨⟨rfl, by decide, rfl⟩, ⟨by decide, by decide⟩, hfiles _, rfl⟩
  · exact ⟨Path.points_slashes hname 0, ⟨by decide, by decide⟩, hfiles _, by decide +kernel⟩
  · exact ⟨Path.points_slashes (by decide) 4094, by decide +kernel⟩

end Disk

end Pagefold
