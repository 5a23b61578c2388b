import Pagefold.Proofs.Disk.Accepted
import Pagefold.Proofs.Disk.Copy
import Pagefold.Proofs.Tree.Held

/-!
# Copies that mirror their source

On a disk without links an entry is copied with all it holds, as it is, or the copy is refused because
a path is not accepted.

* `Disk.Apart`, `Disk.Confined`: places that have nothing in common, and changes in one place only;
* `Disk.Ready`, `Disk.Attempt`: what a copy starts from, and its two outcomes;
* `Disk.copyOne_attempt`, `Disk.Copies.foldl`, `Disk.Copies.copyFolder`: the copy of a file, of entries
  one after the other, and of a folder;
* `Disk.copies_copyEntry`: the copy of an entry with all it holds.
-/

namespace Pagefold

/-- The path of what lies below a path, by the names that lead to it. -/
def Path.below (p : Path) (r : Location) : Path := r.foldl (fun p n => p.join ⟨n⟩) p

theorem Path.byteSize_lt_join (p : Path) {n : Text} (hn : IsName n) :
    p.text.byteSize < (p.join ⟨n⟩).text.byteSize := by
  have hpos : 0 < n.byteSize := by
    obtain ⟨c, n, rfl⟩ := List.exists_cons_of_ne_nil hn.1
    have := c.utf8Size_pos
    rw [Text.byteSize_cons]
    omega
  unfold join
  rw [isAbsolute_of_isName hn]
  simp only [Bool.false_eq_true, if_false]
  split
  · rw [Text.byteSize_append]
    omega
  · rw [Text.byteSize_append, Text.byteSize_cons]
    omega

namespace Disk

variable {d d' d₁ : Disk} {q p made source dest : Path} {a b l m r : Location} {n : Text} {e : Entry}
  {k size : Nat} {bytes : ByteArray} {es : List (Text × Entry)}
  {copyEntry : Copying → Path → Path → Entry → Copying}

/-! ## Two places that are apart -/

/-- Neither of two locations is the other one or lies below it. -/
structure Apart (a b : Location) : Prop where
  left : ¬ a <+: b
  right : ¬ b <+: a

theorem Apart.not_below (h : Apart a b) (hm : a <+: m) : ¬ b <+: m := fun hb =>
  (List.prefix_or_prefix_of_prefix hm hb).elim h.left h.right

theorem Apart.append (h : Apart a b) (r s : Location) : Apart (a ++ r) (b ++ s) where
  left h' := h.not_below ((List.prefix_append a r).trans h') (List.prefix_append b s)
  right h' := h.not_below (List.prefix_append a r) ((List.prefix_append b s).trans h')

theorem append_prefix_iff {n' : Text} : b ++ [n] <+: b ++ n' :: r ↔ n = n' := by
  rw [List.prefix_append_right_inj, List.cons_prefix_cons]
  simp

/-- Only what is at a location and below it may have changed. -/
structure Confined (d : Disk) (b : Location) (d' : Disk) : Prop where
  wellFormed : d'.tree.WellFormed
  linkFree : d'.tree.LinkFree
  outside : ∀ m, ¬ b <+: m → d'.tree.at? m = d.tree.at? m

theorem Confined.trans {d'' : Disk} (h : Confined d b d') (h' : Confined d' b d'') :
    Confined d b d'' where
  wellFormed := h'.wellFormed
  linkFree := h'.linkFree
  outside m hm := (h'.outside m hm).trans (h.outside m hm)

theorem Confined.source_eq (h : Confined d b d') (hapart : Apart a b) (r : Location) :
    d'.tree.at? (a ++ r) = d.tree.at? (a ++ r) :=
  h.outside _ (hapart.not_below (List.prefix_append a r))

theorem writeBytes_confined (hd : d.tree.WellFormed) (hlinks : d.tree.LinkFree) (hp : p.Points b)
    (h : d.writeBytes p bytes = .ok d') :
    Confined d b d' ∧ d'.tree.at? b = some (.file bytes) := by
  obtain ⟨hgrows, hwritten⟩ := writeBytes_points hlinks hp h
  refine ⟨⟨hgrows.wellFormed hd, hgrows.linkFree hlinks, fun m hm => ?_⟩, hwritten⟩
  refine hgrows.at?_eq fun e he => hm ?_
  rw [he.1]

/-! ## What a copy starts from, and how it ends -/

/-- A place is to be copied into a folder that is apart from it. -/
structure Ready (d : Disk) (q p : Path) (a b : Location) : Prop where
  wellFormed : d.tree.WellFormed
  linkFree : d.tree.LinkFree
  source : q.Points a
  dest : p.Points b
  apart : Apart a b
  made : d.tree.at? b = some .folder

theorem Ready.at?_eq (h : Ready d q p a b) (hc : Confined d (b ++ r) d') (s : Location) :
    d'.tree.at? (a ++ s) = d.tree.at? (a ++ s) :=
  hc.source_eq (by simpa using h.apart.append [] r) s

theorem Ready.confined (h : Ready d q p a b) (hc : Confined d (b ++ [n]) d') : Ready d' q p a b where
  wellFormed := hc.wellFormed
  linkFree := hc.linkFree
  source := h.source
  dest := h.dest
  apart := h.apart
  made := by rw [hc.outside b (Tree.child_not_above b n), h.made]

/-- All paths that are formed for what is at a location and below it are accepted. -/
def AllAccepted (d : Disk) (q p : Path) (a : Location) : Prop :=
  ∀ r e, d.tree.at? (a ++ r) = some e → (q.below r).Accepted ∧ (p.below r).Accepted

theorem AllAccepted.here (h : AllAccepted d q p a) (ha : d.tree.at? a = some e) :
    q.Accepted ∧ p.Accepted := h [] e (by rwa [List.append_nil])

theorem AllAccepted.child (h : AllAccepted d q p a) (n : Text) :
    AllAccepted d (q.join ⟨n⟩) (p.join ⟨n⟩) (a ++ [n]) :=
  fun r e he => h (n :: r) e (by simpa using he)

theorem AllAccepted.of_same (h : AllAccepted d q p a)
    (hsame : ∀ r, d'.tree.at? (a ++ r) = d.tree.at? (a ++ r)) : AllAccepted d' q p a :=
  fun r e he => h r e (by rwa [← hsame])

/-- A copy mirrors its source, and nothing else has changed. -/
structure Mirrors (d : Disk) (a b : Location) (d' : Disk) : Prop extends Confined d b d' where
  same : ∀ r, d'.tree.at? (b ++ r) = d.tree.at? (a ++ r)

/-- A copy is faithful, and its files are counted on top of `k` others, or it is refused, which is not
so where all is `well`. -/
def Attempt (well : Prop) (d : Disk) (a b : Location) (k : Nat) (out : Copying) : Prop :=
  (∃ c, out.2 = .ok (k + c) ∧ Mirrors d a b out.1 ∧ d.tree.Counts (a <+: ·) c) ∨
    (∃ e, out.2 = .error e) ∧ ¬ well

/-! ## Files -/

theorem readBytes_child (h : Ready d q p a b) (hn : IsName n) (ha : (q.join ⟨n⟩).Accepted)
    (hfile : d.tree.at? (a ++ [n]) = some (.file bytes)) : d.readBytes (q.join ⟨n⟩) = .ok bytes :=
  readBytes_ok_iff.2 ⟨_, entry_child h.wellFormed h.linkFree h.source hn ha hfile⟩

theorem copyFile_of_accepted (h : Ready d q p a b) (hn : IsName n) (hq : (q.join ⟨n⟩).Accepted)
    (hp : (p.join ⟨n⟩).Accepted) (hfile : d.tree.at? (a ++ [n]) = some (.file bytes))
    (hfree : d.tree.at? (b ++ [n]) = none) :
    ∃ d', d.copyFile (q.join ⟨n⟩) (p.join ⟨n⟩) = .ok d' := by
  obtain ⟨d₁, hempty⟩ : ∃ d₁, d.writeBytes (p.join ⟨n⟩) .empty = .ok d₁ :=
    writeBytes_child h.wellFormed h.linkFree h.dest hn hp h.made (by simp [hfree])
  obtain ⟨hc, hwritten⟩ := writeBytes_confined h.wellFormed h.linkFree (h.dest.join hn) hempty
  have h₁ := h.confined hc
  have hfile₁ : d₁.tree.at? (a ++ [n]) = some (.file bytes) := by rw [h.at?_eq hc, hfile]
  obtain ⟨d₂, hwrite⟩ : ∃ d₂, d₁.writeBytes (p.join ⟨n⟩) bytes = .ok d₂ :=
    writeBytes_child h₁.wellFormed h₁.linkFree h₁.dest hn hp h₁.made (by simp [hwritten])
  refine ⟨d₂, ?_⟩
  unfold copyFile
  simp only [readBytes_child h hn hq hfile, hempty, readBytes_child h₁ hn hq hfile₁, hwrite, bind,
    Except.bind]

theorem copyFile_mirrors (h : Ready d q p a b) (hn : IsName n)
    (hfile : d.tree.at? (a ++ [n]) = some (.file bytes))
    (hcopy : d.copyFile (q.join ⟨n⟩) (p.join ⟨n⟩) = .ok d') :
    Mirrors d (a ++ [n]) (b ++ [n]) d' := by
  obtain ⟨d₁, bytes', hempty, hread, hwrite⟩ := copyFile_ok hcopy
  obtain ⟨hc₁, -⟩ := writeBytes_confined h.wellFormed h.linkFree (h.dest.join hn) hempty
  -- The source is read again when the copy is empty, and it is still the same.
  obtain ⟨l, hentry⟩ := readBytes_ok_iff.1 hread
  obtain ⟨-, hfile'⟩ := entry_points hc₁.linkFree (h.source.join hn) hentry
  obtain rfl : bytes' = bytes := by
    rw [h.at?_eq hc₁, hfile] at hfile'
    cases hfile'
    rfl
  obtain ⟨hc₂, hwritten⟩ :=
    writeBytes_confined hc₁.wellFormed hc₁.linkFree (h.dest.join hn) hwrite
  have hc := hc₁.trans hc₂
  refine ⟨hc, fun r => ?_⟩
  by_cases hr : r = []
  · rw [hr, List.append_nil, List.append_nil, hwritten, hfile]
  · rw [hc.wellFormed.none_below_file hwritten (List.prefix_append _ r) (by simpa using hr),
      h.wellFormed.none_below_file hfile (List.prefix_append _ r) (by simpa using hr)]

theorem copyOne_attempt (h : Ready d q p a b) (hn : IsName n)
    (hfile : d.tree.at? (a ++ [n]) = some (.file bytes)) (hfree : d.tree.at? (b ++ [n]) = none)
    (k : Nat) : Attempt (AllAccepted d (q.join ⟨n⟩) (p.join ⟨n⟩) (a ++ [n])) d (a ++ [n]) (b ++ [n]) k
      (copyOne d k (q.join ⟨n⟩) (p.join ⟨n⟩)) := by
  unfold copyOne
  cases hcopy : d.copyFile (q.join ⟨n⟩) (p.join ⟨n⟩) with
  | ok d' =>
    exact .inl ⟨1, rfl, copyFile_mirrors h hn hfile hcopy, Tree.counts_file h.wellFormed hfile⟩
  | error why =>
    refine .inr ⟨⟨_, rfl⟩, fun hall => ?_⟩
    obtain ⟨hq, hp⟩ := hall.here hfile
    obtain ⟨d', hok⟩ := copyFile_of_accepted h hn hq hp hfile hfree
    rw [hcopy] at hok
    cases hok

/-! ## Folders -/

theorem present_eq_false (hlinks : d.tree.LinkFree) (hp : p.Points l) (hl : d.tree.at? l = none) :
    d.present p = false := by
  rw [← Bool.not_eq_true]
  intro hpresent
  obtain ⟨m, e, he⟩ := present_iff.1 hpresent
  rw [(entry_points hlinks hp he).2] at hl
  cases hl

/-- A folder is there and it is empty, and nothing else is new. -/
structure Made (d : Disk) (b : Location) (d' : Disk) : Prop extends Confined d b d' where
  made : d'.tree.at? b = some .folder
  empty : ∀ m, b <+: m → m ≠ b → d'.tree.at? m = none

theorem makeFolders_made (h : Ready d q p a b) (hn : IsName n) (hfree : d.tree.at? (b ++ [n]) = none)
    (hok : (d.makeFolders (p.join ⟨n⟩)).2 = .ok ()) :
    Made d (b ++ [n]) (d.makeFolders (p.join ⟨n⟩)).1 := by
  have hp := h.dest.join hn
  have hparent : (p.join ⟨n⟩).parent?.isSome = true :=
    Path.parent?_isSome_of_down_mem (n := n) (by simp [Path.walked_join_name p hn])
  obtain ⟨l, hopens, -, hempty⟩ := makeFolders_fresh h.wellFormed hparent hp.noUp
    (present_eq_false h.linkFree hp hfree) (Prod.ext rfl hok)
  have hgrows := makeFolders_grows h.wellFormed hp.noUp
  obtain rfl := hopens.eq_of_points (hgrows.linkFree h.linkFree) hp
  refine ⟨⟨hgrows.wellFormed h.wellFormed, hgrows.linkFree h.linkFree, fun m hm => ?_⟩,
    hopens.2, hempty⟩
  rcases hgrows.at?_eq_or m with hsame | ⟨e, -, ⟨-, hway⟩, -, hbefore⟩
  · exact hsame
  · -- What is on the way to the folder was there before.
    have hmb := hway h.linkFree
    rw [hp.start_eq, hp.place] at hmb
    rcases List.prefix_concat_iff.1 hmb with rfl | hmb
    · exact absurd (List.prefix_refl _) hm
    · have hfolder := h.wellFormed.folder_of_prefix h.made hmb
      rcases hbefore with hnone | ⟨bytes, bytes', hfile, -⟩
      · rw [hfolder] at hnone
        cases hnone
      · rw [hfolder] at hfile
        cases hfile

theorem makeFolders_child (h : Ready d q p a b) (hn : IsName n) (hp : (p.join ⟨n⟩).Accepted)
    (hfree : d.tree.at? (b ++ [n]) = none) : (d.makeFolders (p.join ⟨n⟩)).2 = .ok () := by
  refine makeFolders_of_accepted h.wellFormed h.linkFree (h.dest.join hn) hp ?_ ?_ hfree
  · simp [Path.walked_join_name p hn]
  · intro m bytes hm hfile
    rcases List.prefix_concat_iff.1 hm with rfl | hm
    · rw [hfree] at hfile
      cases hfile
    · rw [h.wellFormed.folder_of_prefix h.made hm] at hfile
      cases hfile

theorem list_eq_held (hlinks : d.tree.LinkFree) (hq : q.Points a) (h : d.list q = .ok es) :
    es = d.tree.held a := by
  unfold list at h
  split at h
  · cases h
  · next l hentry =>
    obtain ⟨rfl, -⟩ := entry_points hlinks hq hentry
    cases h
    rfl
  · cases h

theorem list_of_accepted (hd : d.tree.WellFormed) (hq : q.Points a) (ha : q.Accepted)
    (hfolder : d.tree.at? a = some .folder) : d.list q = .ok (d.tree.held a) := by
  unfold list
  rw [entry_of_folder hd hq ha hfolder (by simp)]
  rfl

/-! ## Entries one after the other -/

/-- Entries are copied by `copyEntry`, below paths of the source that are not too long already. -/
structure Copies (size : Nat) (copyEntry : Copying → Path → Path → Entry → Copying) : Prop where
  stops : ∀ d why q p e, copyEntry (d, .error why) q p e = (d, .error why)
  attempt : ∀ {d q p a b n e} (k : Nat), Ready d q p a b → IsName n →
    d.tree.at? (a ++ [n]) = some e → d.tree.at? (b ++ [n]) = none →
    maxPathBytes < (q.join ⟨n⟩).text.byteSize + size →
    Attempt (AllAccepted d (q.join ⟨n⟩) (p.join ⟨n⟩) (a ++ [n])) d (a ++ [n]) (b ++ [n]) k
      (copyEntry (d, .ok k) (q.join ⟨n⟩) (p.join ⟨n⟩) e)

/-- Some entries of a folder are mirrored in another one, and nothing else has changed. -/
structure Filled (d : Disk) (a b : Location) (es : List (Text × Entry)) (d' : Disk) : Prop where
  wellFormed : d'.tree.WellFormed
  linkFree : d'.tree.LinkFree
  same : ∀ x ∈ es, ∀ r, d'.tree.at? (b ++ x.1 :: r) = d.tree.at? (a ++ x.1 :: r)
  outside : ∀ m, (∀ x ∈ es, ¬ b ++ [x.1] <+: m) → d'.tree.at? m = d.tree.at? m

theorem Copies.foldl_error (hcopy : Copies size copyEntry) (why : CopyFailure)
    (es : List (Text × Entry)) :
    es.foldl (fun s (m, e) => copyEntry s (q.join ⟨m⟩) (p.join ⟨m⟩) e) (d, .error why)
      = (d, .error why) := by
  induction es with
  | nil => rfl
  | cons x es ih =>
    obtain ⟨n, e⟩ := x
    simp only [List.foldl_cons, hcopy.stops, ih]

theorem Filled.cons {x : Text × Entry} (h : Ready d q p a b)
    (hmirror : Mirrors d (a ++ [x.1]) (b ++ [x.1]) d₁) (hne : ∀ y ∈ es, x.1 ≠ y.1)
    (hfilled : Filled d₁ a b es d') : Filled d a b (x :: es) d' where
  wellFormed := hfilled.wellFormed
  linkFree := hfilled.linkFree
  same y hy r := by
    rcases List.mem_cons.1 hy with rfl | hy
    · rw [hfilled.outside _ fun z hz hb => hne z hz (append_prefix_iff.1 hb).symm]
      simpa using hmirror.same r
    · rw [hfilled.same y hy, h.at?_eq hmirror.toConfined]
  outside m hm := by
    rw [hfilled.outside m fun y hy => hm y (List.mem_cons_of_mem x hy),
      hmirror.outside m (hm x List.mem_cons_self)]

theorem counts_cons {x : Text × Entry} {i j : Nat} (h : Ready d q p a b)
    (hc : Confined d (b ++ [x.1]) d₁) (hne : ∀ y ∈ es, x.1 ≠ y.1)
    (hcount : d.tree.Counts (a ++ [x.1] <+: ·) i)
    (hcount' : d₁.tree.Counts (fun m => ∃ y ∈ es, a ++ [y.1] <+: m) j) :
    d.tree.Counts (fun m => ∃ y ∈ x :: es, a ++ [y.1] <+: m) (i + j) := by
  have hrest : d.tree.Counts (fun m => ∃ y ∈ es, a ++ [y.1] <+: m) j := by
    refine hcount'.of_same fun m hm => ?_
    obtain ⟨y, -, s, rfl⟩ := hm
    rw [List.append_assoc, h.at?_eq hc]
  refine (hcount.add hrest fun m hm hm' => ?_).congr fun m _ _ => by simp
  obtain ⟨y, hy, hay⟩ := hm'
  have hxy := List.prefix_of_prefix_length_le hm hay (by simp)
  exact hne y hy (append_prefix_iff.1 hxy)

/-- Entries are copied one after the other. Where one of them was refused, that was that. -/
theorem Copies.foldl (hcopy : Copies size copyEntry) (h : Ready d q p a b)
    (hes : ∀ x ∈ es, d.tree.at? (a ++ [x.1]) = some x.2 ∧ d.tree.at? (b ++ [x.1]) = none)
    (hpair : es.Pairwise fun x y => x.1 ≠ y.1) (hsize : maxPathBytes ≤ q.text.byteSize + size)
    (k : Nat) {out : Copying} (hout : out =
      es.foldl (fun s (m, e) => copyEntry s (q.join ⟨m⟩) (p.join ⟨m⟩) e) (d, .ok k)) :
    (∃ c, out.2 = .ok (k + c) ∧ Filled d a b es out.1 ∧
      d.tree.Counts (fun m => ∃ x ∈ es, a ++ [x.1] <+: m) c) ∨
      (∃ why, out.2 = .error why) ∧ ¬ AllAccepted d q p a := by
  subst hout
  -- What the first entries change lies neither at the source nor where later ones go.
  induction es generalizing d k with
  | nil =>
    exact .inl ⟨0, rfl, ⟨h.wellFormed, h.linkFree, by simp, fun m _ => rfl⟩,
      Tree.counts_zero (by simp)⟩
  | cons x es ih =>
    obtain ⟨n, e⟩ := x
    obtain ⟨hx, hfree⟩ := hes (n, e) List.mem_cons_self
    obtain ⟨hne, hpair⟩ := List.pairwise_cons.1 hpair
    have hn : IsName n := h.wellFormed.names _ _ hx n (by simp)
    have hlt := q.byteSize_lt_join hn
    have hfirst := hcopy.attempt k h hn hx hfree (by omega)
    simp only [List.foldl_cons]
    generalize copyEntry (d, .ok k) (q.join ⟨n⟩) (p.join ⟨n⟩) e = out at hfirst
    obtain ⟨d₁, result⟩ := out
    rcases hfirst with ⟨c, hc, hmirror, hcount⟩ | ⟨⟨why, hwhy⟩, hbad⟩
    · obtain rfl : result = .ok (k + c) := hc
      have hes₁ : ∀ y ∈ es,
          d₁.tree.at? (a ++ [y.1]) = some y.2 ∧ d₁.tree.at? (b ++ [y.1]) = none := by
        intro y hy
        obtain ⟨hy', hfree'⟩ := hes y (List.mem_cons_of_mem _ hy)
        refine ⟨by rw [h.at?_eq hmirror.toConfined, hy'], ?_⟩
        rw [hmirror.outside _ fun hb => hne y hy (append_prefix_iff.1 hb), hfree']
      rcases ih (h.confined hmirror.toConfined) hes₁ hpair (k + c) with
        ⟨c', hc', hfilled, hcount'⟩ | ⟨hwhy, hbad⟩
      · refine .inl ⟨c + c', by rw [hc', Nat.add_assoc], hfilled.cons h hmirror hne, ?_⟩
        exact counts_cons h hmirror.toConfined hne hcount hcount'
      · exact .inr ⟨hwhy, fun hall => hbad (hall.of_same (h.at?_eq hmirror.toConfined))⟩
    · obtain rfl : result = .error why := hwhy
      refine .inr ⟨⟨why, ?_⟩, fun hall => hbad (hall.child n)⟩
      rw [hcopy.foldl_error]

/-- A folder whose entries are all mirrored is mirrored. -/
theorem Filled.mirrors (hd : d.tree.WellFormed) (hapart : Apart a b) (ha : d.tree.at? a = some .folder)
    (hmade : Made d b d₁) (h : Filled d₁ a b (d.tree.held a) d') : Mirrors d a b d' where
  wellFormed := h.wellFormed
  linkFree := h.linkFree
  outside m hm := by
    rw [h.outside m fun x _ hx => hm ((List.prefix_append b [x.1]).trans hx), hmade.outside m hm]
  same r := by
    have hsource := hmade.toConfined.source_eq hapart
    cases r with
    | nil =>
      rw [List.append_nil, List.append_nil, h.outside b fun x _ => Tree.child_not_above b x.1,
        hmade.made, ha]
    | cons n r =>
      by_cases hheld : ∃ e, (n, e) ∈ d.tree.held a
      · obtain ⟨e, he⟩ := hheld
        rw [h.same _ he, hsource]
      · -- Nothing of that name is in the folder, and so it is in the copy.
        have hnone : d.tree.at? (a ++ [n]) = none :=
          Option.eq_none_iff_forall_ne_some.2 fun e he => hheld ⟨e, Tree.mem_held.2 he⟩
        have hbelow : d.tree.at? (a ++ n :: r) = none := hd.none_below hnone (by simp)
        rw [hbelow, h.outside, hmade.empty _ (List.prefix_append b _) (by simp)]
        rintro ⟨n', e⟩ hx hb
        obtain rfl : n' = n := append_prefix_iff.1 hb
        exact hheld ⟨e, hx⟩

/-- A folder is copied: `made` is made, and then its entries are copied. -/
theorem Copies.copyFolder (hcopy : Copies size copyEntry) {well : Prop} (hd : d.tree.WellFormed)
    (hlinks : d.tree.LinkFree) (hq : q.Points a) (hp : p.Points b) (hapart : Apart a b)
    (ha : d.tree.at? a = some .folder) (hall : well → AllAccepted d q p a)
    (hmade : (d.makeFolders made).2 = .ok () → Made d b (d.makeFolders made).1)
    (hwell : well → (d.makeFolders made).2 = .ok ())
    (hsize : maxPathBytes ≤ q.text.byteSize + size) (k : Nat) :
    Attempt well d a b k (copyFolder copyEntry d k q p made) := by
  unfold Disk.copyFolder
  generalize d.makeFolders made = outcome at hmade hwell
  obtain ⟨d₁, why | _⟩ := outcome
  · refine .inr ⟨⟨_, rfl⟩, fun hw => ?_⟩
    cases hwell hw
  · have hmade := hmade rfl
    have hsource := hmade.toConfined.source_eq hapart
    simp only
    cases hlist : d.list q with
    | error why =>
      refine .inr ⟨⟨_, rfl⟩, fun hw => ?_⟩
      rw [list_of_accepted hd hq ((hall hw).here ha).1 ha] at hlist
      cases hlist
    | ok es =>
      obtain rfl := list_eq_held hlinks hq hlist
      -- The entries were listed before the folder was made, and they are still there.
      have hready : Ready d₁ q p a b :=
        ⟨hmade.wellFormed, hmade.linkFree, hq, hp, hapart, hmade.made⟩
      have hes : ∀ x ∈ d.tree.held a,
          d₁.tree.at? (a ++ [x.1]) = some x.2 ∧ d₁.tree.at? (b ++ [x.1]) = none := fun x hx =>
        ⟨by rw [hsource, Tree.mem_held.1 hx], hmade.empty _ (List.prefix_append b _) (by simp)⟩
      rcases hcopy.foldl hready hes (Tree.pairwise_held _ _) hsize k rfl with
        ⟨c, hc, hfilled, hcount⟩ | ⟨hwhy, hbad⟩
      · refine .inl ⟨c, hc, hfilled.mirrors hd hapart ha hmade, ?_⟩
        refine (hcount.of_same fun m hm => ?_).of_held hd ha
        obtain ⟨x, -, s, rfl⟩ := hm
        rw [List.append_assoc, hsource]
      · exact .inr ⟨hwhy, fun hw => hbad ((hall hw).of_same hsource)⟩

theorem byteSize_le_of_accepted (h : p.Accepted) : p.text.byteSize ≤ maxPathBytes := by
  have hp := h.wellFormed
  unfold malformed? at hp
  split at hp
  · cases hp
  · split at hp
    · cases hp
    · split at hp
      · cases hp
      · omega

/-- An entry is copied with all it holds. By induction on how deep its folders may nest: a path that
nests deeper is too long to be accepted. -/
theorem copies_copyEntry (depth : Nat) : Copies depth (Disk.copyEntry depth) := by
  induction depth with
  | zero =>
    refine ⟨fun d why q p e => rfl, fun {d q p a b n e} k h hn he _ hsize => ?_⟩
    refine .inr ⟨⟨_, rfl⟩, fun hall => ?_⟩
    have := byteSize_le_of_accepted (hall.here he).1
    omega
  | succ depth ih =>
    refine ⟨fun d why q p e => rfl, fun {d q p a b n e} k h hn he hfree hsize => ?_⟩
    cases e with
    | file bytes => exact copyOne_attempt h hn he hfree k
    | link x => exact absurd he (h.linkFree _ x)
    | folder =>
      refine ih.copyFolder h.wellFormed h.linkFree (h.source.join hn) (h.dest.join hn)
        (h.apart.append [n] [n]) he id (makeFolders_made h hn hfree) (fun hall => ?_) (by omega) k
      exact makeFolders_child h hn (hall.here he).2 hfree

end Disk

end Pagefold
