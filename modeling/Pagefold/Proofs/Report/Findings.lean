import Pagefold.Proofs.Diagnostic.Marks
import Pagefold.Proofs.Report.Redirected
import Pagefold.Proofs.Report.Tags
import Pagefold.Proofs.Text.Positions

/-!
# What a check finds

A check accepts the documents that are in order and no others, and of a document that is not it tells
all there is to tell.

* `Report.Stands`, `Report.Opens`, `Report.Closes`: where the tags of a document stand;
* `Report.tags_eq`: the counts of a check are the counts of these positions;
* `Report.Sound`: documents in order;
* `Report.Problem`: what is wrong with a document;
* `Report.Told`: a list of all problems, in their order;
* `Report.missingAssets_check`: the files that a report names as missing;
* `Report.check_exact`: a check finds exactly the problems, and none in a document that is in order.
-/

namespace Pagefold.Report

open Text

variable {P : Text → Prop} {k lead name r s t tag u w y : Text} {d : Disk} {roots : AssetRoots}

/-! ## Where tags stand -/

/-- At the front of a text stand a lead, blanks and a name in any letter case, and then what `P`
tells. -/
def Stands (lead name : Text) (P : Text → Prop) (u : Text) : Prop :=
  ∃ w k r, Blanks w ∧ lowerAscii k = name ∧ P r ∧ u = lead ++ (w ++ (k ++ r))

/-- No word goes on at the front of a text. -/
def Ends (r : Text) : Prop := ∀ c ∈ r.head?, isWord c = false

/-- Blanks and a `>` stand at the front of a text. -/
def Shuts (r : Text) : Prop := ∃ w rest, Blanks w ∧ r = w ++ '>' :: rest

def Opens (tag : Text) : Text → Prop := Stands ['<'] tag Ends

def Closes (tag : Text) : Text → Prop := Stands "</".toList tag Shuts

theorem ends_iff : Ends r ↔ atWordEnd r = true := by
  cases r <;> simp [Ends, atWordEnd]

theorem shuts_iff : Shuts r ↔ ∃ rest, skipBlanks r = '>' :: rest := by
  simp only [Shuts, skipBlanks_eq_cons_iff (c := '>') (by decide)]
  exact exists_comm

instance : DecidablePred Ends := fun _ => decidable_of_iff _ ends_iff.symm

instance : DecidablePred Shuts := fun r =>
  decidable_of_iff ((skipBlanks r).head? = some '>') (by rw [shuts_iff, List.head?_eq_some_iff])

theorem stands_iff_exists_le : Stands lead name P u ↔ lead <+: u ∧
    ∃ n ≤ (u.drop lead.length).length, Blanks ((u.drop lead.length).take n) ∧
      lowerAscii (((u.drop lead.length).drop n).take name.length) = name ∧
      P (((u.drop lead.length).drop n).drop name.length) := by
  constructor
  · rintro ⟨w, k, r, hw, hk, hr, rfl⟩
    have hlength : name.length = k.length := by rw [← hk, lowerAscii, List.length_map]
    refine ⟨List.prefix_append _ _, w.length, by simp, ?_⟩
    simpa [hlength] using ⟨hw, hk, hr⟩
  · rintro ⟨⟨y, rfl⟩, n, -, hw, hk, hr⟩
    rw [List.drop_left] at hw hk hr
    exact ⟨_, _, _, hw, hk, hr, by rw [List.take_append_drop, List.take_append_drop]⟩

instance (lead name : Text) [DecidablePred P] : DecidablePred (Stands lead name P) := fun _ =>
  have (w : Text) : Decidable (Blanks w) := decidable_of_iff (w.all isBlank = true) List.all_eq_true
  decidable_of_iff _ stands_iff_exists_le.symm

instance (tag : Text) : DecidablePred (Opens tag) :=
  inferInstanceAs (DecidablePred (Stands _ tag Ends))

instance (tag : Text) : DecidablePred (Closes tag) :=
  inferInstanceAs (DecidablePred (Stands _ tag Shuts))

/-! ## What is read -/

/-- A name of letters that have their two cases only. -/
structure IsPlainName (name : Text) : Prop where
  ne_nil : name ≠ []
  letters : ∀ a ∈ name, IsPlainLetter a

theorem isPlainName_of_mem (h : tag ∈ documentTags) : IsPlainName tag := by
  have hall : ∀ tag ∈ documentTags, tag ≠ [] ∧ ∀ a ∈ tag, IsPlainLetter a := by
    simp [documentTags, IsPlainLetter]
  exact ⟨(hall tag h).1, (hall tag h).2⟩

namespace IsPlainName

theorem tagName?_eq_some_iff (htag : IsPlainName tag) :
    tagName? tag y = some r ↔ ∃ w k, Blanks w ∧ lowerAscii k = tag ∧ y = w ++ (k ++ r) := by
  rw [tagName?, dropFolded?_eq_some_iff]
  simp only [map_caseKey_eq_iff htag.letters]
  constructor
  · rintro ⟨k, hy, hk⟩
    obtain ⟨w, hw, hsplit⟩ := exists_blanks y
    exact ⟨w, k, hw, hk, by rw [← hy, ← hsplit]⟩
  · rintro ⟨w, k, hw, hk, rfl⟩
    refine ⟨k, ?_, hk⟩
    rw [skipBlanks_append hw]
    cases k with
    | nil => exact absurd hk.symm htag.ne_nil
    | cons c k =>
      -- The first letter of the name ends the blanks.
      have hletter : IsPlainLetter c.toLower := htag.letters _ (hk ▸ List.mem_cons_self)
      exact skipBlanks_of_not (hletter.isBlank_eq_false rfl)

theorem stands_iff (htag : IsPlainName tag) :
    Stands lead tag P u ↔ ∃ y r, u = lead ++ y ∧ tagName? tag y = some r ∧ P r := by
  simp only [htag.tagName?_eq_some_iff]
  constructor
  · rintro ⟨w, k, r, hw, hk, hr, rfl⟩
    exact ⟨_, r, rfl, ⟨w, k, hw, hk, rfl⟩, hr⟩
  · rintro ⟨y, r, rfl, ⟨w, k, hw, hk, rfl⟩, hr⟩
    exact ⟨w, k, r, hw, hk, hr, rfl⟩

theorem openTag?_eq_some_iff : openTag? tag u = some ((), r) ↔
    ∃ y, u = ['<'] ++ y ∧ tagName? tag y = some r ∧ Ends r := by
  simp only [openTag?, Option.bind_eq_bind, Option.bind_eq_some_iff, dropPrefix?_eq_some_iff,
    ends_iff]
  constructor
  · rintro ⟨y, hy, r', hr', h⟩
    split at h
    · next hend =>
      cases h
      exact ⟨y, hy, hr', hend⟩
    · cases h
  · rintro ⟨y, hy, hr, hend⟩
    exact ⟨y, hy, r, hr, if_pos hend⟩

theorem closeTag?_eq_some_iff : closeTag? tag u = some ((), r) ↔
    ∃ y x, u = "</".toList ++ y ∧ tagName? tag y = some x ∧ skipBlanks x = '>' :: r := by
  simp only [closeTag?, Option.bind_eq_bind, Option.bind_eq_some_iff, dropPrefix?_eq_some_iff]
  constructor
  · rintro ⟨y, hy, x, hx, h⟩
    split at h
    · next rest hrest =>
      cases h
      exact ⟨y, x, hy, hx, hrest⟩
    · cases h
  · rintro ⟨y, x, hy, hx, hr⟩
    exact ⟨y, hy, x, hx, by simp only [hr]⟩

theorem matches_openTag_iff (htag : IsPlainName tag) : (openTag tag).Matches u ↔ Opens tag u := by
  rw [Opens, htag.stands_iff, Pattern.Matches, Option.isSome_iff_exists]
  constructor
  · rintro ⟨⟨⟨⟩, r⟩, h⟩
    obtain ⟨y, hy, hr, hend⟩ := openTag?_eq_some_iff.1 h
    exact ⟨y, r, hy, hr, hend⟩
  · rintro ⟨y, r, hy, hr, hend⟩
    exact ⟨((), r), openTag?_eq_some_iff.2 ⟨y, hy, hr, hend⟩⟩

theorem matches_closeTag_iff (htag : IsPlainName tag) : (closeTag tag).Matches u ↔ Closes tag u := by
  rw [Closes, htag.stands_iff, Pattern.Matches, Option.isSome_iff_exists]
  simp only [shuts_iff]
  constructor
  · rintro ⟨⟨⟨⟩, r⟩, h⟩
    obtain ⟨y, x, hy, hx, hr⟩ := closeTag?_eq_some_iff.1 h
    exact ⟨y, x, hy, hx, r, hr⟩
  · rintro ⟨y, x, hy, hx, r, hr⟩
    exact ⟨((), r), closeTag?_eq_some_iff.2 ⟨y, x, hy, hx, hr⟩⟩

/-! ## Each tag is counted -/

theorem open_not_mem (htag : IsPlainName tag) (hw : Blanks w) (hk : lowerAscii k = tag) :
    '<' ∉ w ++ k := by
  rw [List.mem_append, not_or]
  refine ⟨hw.not_mem (by decide), fun hmem => ?_⟩
  have hletter : IsPlainLetter '<'.toLower := htag.letters _ (hk ▸ List.mem_map_of_mem hmem)
  exact absurd hletter (by decide)

theorem solitary_openTag (htag : IsPlainName tag) : (openTag tag).Solitary := by
  refine Pattern.solitary_of_start (fun _ t hc => openTag?_of_ne hc t) fun s v r h => ?_
  obtain ⟨y, hs, hr, -⟩ := openTag?_eq_some_iff.1 h
  obtain ⟨w, k, hw, hk, rfl⟩ := htag.tagName?_eq_some_iff.1 hr
  have hsource : s = '<' :: (w ++ k) := List.append_cancel_right (hs.trans (by simp))
  rw [hsource]
  exact htag.open_not_mem hw hk

theorem solitary_closeTag (htag : IsPlainName tag) : (closeTag tag).Solitary := by
  refine Pattern.solitary_of_start (fun _ t hc => closeTag?_of_ne hc t) fun s v r h => ?_
  obtain ⟨y, x, hs, hx, hr⟩ := closeTag?_eq_some_iff.1 h
  obtain ⟨w, k, hw, hk, rfl⟩ := htag.tagName?_eq_some_iff.1 hx
  obtain ⟨w', hw', rfl⟩ := (skipBlanks_eq_cons_iff (by decide)).1 hr
  have hsource : s = '<' :: '/' :: (w ++ k ++ (w' ++ ['>'])) :=
    List.append_cancel_right (hs.trans (by simp))
  have hname := htag.open_not_mem hw hk
  have hend : '<' ∉ w' ++ ['>'] := by
    rw [List.mem_append, not_or]
    exact ⟨hw'.not_mem (by decide), by decide⟩
  rw [hsource, List.tail_cons, List.mem_cons, List.mem_append]
  rintro (h | h | h)
  · cases h
  · exact hname h
  · exact hend h

theorem tags_eq (htag : IsPlainName tag) (t : Text) :
    tags tag t = (positions (Opens tag) t, positions (Closes tag) t) := by
  rw [tags, htag.solitary_openTag.length_hits, htag.solitary_closeTag.length_hits,
    positions_congr fun _ => htag.matches_openTag_iff,
    positions_congr fun _ => htag.matches_closeTag_iff]

example : positions (Opens "head".toList) "< Head><header></HEAD\n>".toList = 1 ∧
    positions (Closes "head".toList) "< Head><header></HEAD\n>".toList = 1 := by decide +kernel

end IsPlainName

/-! ## References -/

/-- A file that the text refers to, as it is looked for. -/
def IsLocal (t r : Text) : Prop :=
  ∃ v ∈ Reference.all t, Reference.classify v = .file ∧ Reference.bare v = r

/-- A file that is referred to, that is no page, and that is not there. -/
structure Missing (d : Disk) (roots : AssetRoots) (t r : Text) : Prop where
  isLocal : IsLocal t r
  not_page : ¬ ".html".toList <:+ lowerAscii r
  not_resolves : roots.resolves d r = false

/-- The references of a finding: all that lead to no file, in order. -/
def missing (d : Disk) (roots : AssetRoots) (t : Text) : List Text :=
  (Reference.locals t).filter fun r => !isPage r && !roots.resolves d r

theorem mem_missing : r ∈ missing d roots t ↔ Missing d roots t r := by
  rw [missing, List.mem_filter, Reference.mem_locals, Bool.and_eq_true, Bool.not_eq_true',
    Bool.not_eq_true', ← Bool.not_eq_true, isPage, endsWith_iff]
  constructor
  · rintro ⟨hlocal, hpage, hresolves⟩
    exact ⟨hlocal, hpage, hresolves⟩
  · rintro ⟨hlocal, hpage, hresolves⟩
    exact ⟨hlocal, hpage, hresolves⟩

theorem pairwise_missing (d : Disk) (roots : AssetRoots) (t : Text) :
    (missing d roots t).Pairwise (· < ·) :=
  (pairwise_sortedUnique _).filter _

/-! ## Documents in order -/

/-- Each tag of a document opens and closes once, no mark of a missing file is left, and every file
that is referred to and is no page is there. -/
structure Sound (d : Disk) (roots : AssetRoots) (t : Text) : Prop where
  tags : ∀ tag ∈ documentTags, positions (Opens tag) t = 1 ∧ positions (Closes tag) t = 1
  unmarked : ¬ Diagnostic.missingMark <:+: t
  resolved : ∀ r, IsLocal t r → ¬ ".html".toList <:+ lowerAscii r → roots.resolves d r = true

/-- What is wrong with a document. -/
inductive Problem (d : Disk) (roots : AssetRoots) (t : Text) : Finding → Prop where
  /-- A tag does not open and close once. -/
  | tags {tag : Text} (htag : tag ∈ documentTags)
      (h : ¬ (positions (Opens tag) t = 1 ∧ positions (Closes tag) t = 1)) :
      Problem d roots t (.tagCount tag (positions (Opens tag) t) (positions (Closes tag) t))
  /-- Marks of missing files are left. -/
  | marks (h : Diagnostic.missingMark <:+: t) :
      Problem d roots t (.unresolvedIncludes (Diagnostic.marks t))
  /-- Files are missing: all of them, in strictly ascending order. -/
  | missing {rs : List Text} (h : rs ≠ []) (hrs : ∀ r, r ∈ rs ↔ Missing d roots t r)
      (hascending : rs.Pairwise (· < ·)) : Problem d roots t (.missingAssets rs)

/-- The place of a finding: tags in the order of `documentTags`, then marks, then missing files. -/
def place : Finding → Nat
  | .tagCount tag _ _ => documentTags.idxOf tag
  | .unresolvedIncludes _ => documentTags.length
  | .missingAssets _ => documentTags.length + 1

def Before (f g : Finding) : Prop := place f < place g

/-- A list of all problems, each of them once, in their order. -/
structure Told (d : Disk) (roots : AssetRoots) (t : Text) (fs : List Finding) : Prop where
  mem_iff : ∀ f, f ∈ fs ↔ Problem d roots t f
  inOrder : fs.Pairwise Before

theorem sound_iff : Sound d roots t ↔ ∀ f, ¬ Problem d roots t f := by
  constructor
  · rintro h f (⟨htag, hcount⟩ | hmark | ⟨hne, hrs, -⟩)
    · exact hcount (h.tags _ htag)
    · exact h.unmarked hmark
    · obtain ⟨r, rs, rfl⟩ := List.exists_cons_of_ne_nil hne
      obtain ⟨hlocal, hpage, hresolves⟩ := (hrs r).1 List.mem_cons_self
      rw [h.resolved r hlocal hpage] at hresolves
      cases hresolves
  · intro h
    refine ⟨fun tag htag => ?_, fun hmark => h _ (.marks hmark), fun r hlocal hpage => ?_⟩
    · by_contra hcount
      exact h _ (.tags htag hcount)
    · by_contra hresolves
      have hmem : r ∈ missing d roots t := mem_missing.2 ⟨hlocal, hpage, by simpa using hresolves⟩
      have hne := List.ne_nil_of_mem hmem
      exact h _ (.missing hne (fun _ => mem_missing) (pairwise_missing d roots t))

/-! ## What a check tells -/

theorem mem_tagFindings_iff {f : Finding} : f ∈ documentTags.filterMap (tagFinding? t) ↔
    ∃ tag ∈ documentTags, ¬ (positions (Opens tag) t = 1 ∧ positions (Closes tag) t = 1) ∧
      f = .tagCount tag (positions (Opens tag) t) (positions (Closes tag) t) := by
  rw [List.mem_filterMap]
  refine exists_congr fun tag => and_congr_right fun htag => ?_
  rw [tagFinding?_eq, (isPlainName_of_mem htag).tags_eq]
  simp only [Prod.mk.injEq]
  split
  · next h => simp [h]
  · next h => rw [Option.some.injEq, and_iff_right h, eq_comm]

theorem includeFinding?_eq_some_iff {f : Finding} : includeFinding? t = some f ↔
    Diagnostic.missingMark <:+: t ∧ f = .unresolvedIncludes (Diagnostic.marks t) := by
  have hmarks : Diagnostic.marks t = 0 ↔ ¬ Diagnostic.missingMark <:+: t :=
    places_eq_zero_iff (by decide)
  simp only [includeFinding?, Diagnostic.length_hits_mark, hmarks]
  split
  · next h => simp [h]
  · next h => simp [not_not.1 h, eq_comm]

theorem assetFinding?_eq_some_iff {f : Finding} : assetFinding? d roots t = some f ↔
    missing d roots t ≠ [] ∧ f = .missingAssets (missing d roots t) := by
  change (if missing d roots t = [] then none else some (.missingAssets (missing d roots t)))
    = some f ↔ _
  split
  · next h => simp [h]
  · next h => simp [h, eq_comm]

/-- The missing assets of a report are those of the document that was checked, if any. -/
theorem missingAssets_check (d : Disk) (roots : AssetRoots) (t : Text) :
    (check d roots t).missingAssets = missing d roots t := by
  rw [missingAssets, findSome?_missing?_check]
  cases h : assetFinding? d roots t with
  | none =>
    by_contra hne
    rw [assetFinding?_eq_some_iff.2 ⟨Ne.symm hne, rfl⟩] at h
    cases h
  | some f =>
    obtain ⟨-, rfl⟩ := assetFinding?_eq_some_iff.1 h
    rfl

/-- A check tells the problems and nothing else. -/
theorem mem_check_iff {f : Finding} : f ∈ (check d roots t).findings ↔ Problem d roots t f := by
  simp only [check, List.mem_append, Option.mem_toList, mem_tagFindings_iff,
    includeFinding?_eq_some_iff, assetFinding?_eq_some_iff]
  constructor
  · rintro ((⟨tag, htag, hcount, rfl⟩ | ⟨hmark, rfl⟩) | ⟨hne, rfl⟩)
    · exact .tags htag hcount
    · exact .marks hmark
    · exact .missing hne (fun _ => mem_missing) (pairwise_missing d roots t)
  · rintro (⟨htag, hcount⟩ | hmark | ⟨hne, hrs, hascending⟩)
    · exact .inl (.inl ⟨_, htag, hcount, rfl⟩)
    · exact .inl (.inr ⟨hmark, rfl⟩)
    · -- Only one list has these members in ascending order.
      rename_i rs
      have hlist : rs = missing d roots t :=
        hascending.eq_of_mem_iff (pairwise_missing d roots t) fun r => (hrs r).trans mem_missing.symm
      subst hlist
      exact .inr ⟨hne, rfl⟩

theorem pairwise_tagFindings (t : Text) :
    (documentTags.filterMap (tagFinding? t)).Pairwise Before := by
  have hplace {tag : Text} {f : Finding} (h : tagFinding? t tag = some f) :
      place f = documentTags.idxOf tag := by
    rw [tagFinding?_eq] at h
    split at h
    · cases h
    · cases h
      rfl
  have horder : documentTags.Pairwise fun l k => documentTags.idxOf l < documentTags.idxOf k := by
    decide
  refine List.pairwise_filterMap.2 (horder.imp fun h f hf g hg => ?_)
  rw [Before, hplace hf, hplace hg]
  exact h

theorem pairwise_check (d : Disk) (roots : AssetRoots) (t : Text) :
    (check d roots t).findings.Pairwise Before := by
  have hone (o : Option Finding) : o.toList.Pairwise Before := by
    cases o with
    | none => exact .nil
    | some f => exact List.pairwise_singleton _ f
  refine List.pairwise_append.2 ⟨List.pairwise_append.2 ⟨pairwise_tagFindings t, hone _, ?_⟩,
    hone _, ?_⟩
  · intro f hf g hg
    obtain ⟨tag, htag, -, rfl⟩ := mem_tagFindings_iff.1 hf
    obtain ⟨-, rfl⟩ := includeFinding?_eq_some_iff.1 (Option.mem_toList.1 hg)
    exact List.idxOf_lt_length_of_mem htag
  · intro f hf g hg
    obtain ⟨-, rfl⟩ := assetFinding?_eq_some_iff.1 (Option.mem_toList.1 hg)
    rcases List.mem_append.1 hf with hf | hf
    · obtain ⟨tag, htag, -, rfl⟩ := mem_tagFindings_iff.1 hf
      exact Nat.lt_succ_of_lt (List.idxOf_lt_length_of_mem htag)
    · obtain ⟨-, rfl⟩ := includeFinding?_eq_some_iff.1 (Option.mem_toList.1 hf)
      exact Nat.lt_succ_self _

theorem told_check (d : Disk) (roots : AssetRoots) (t : Text) :
    Told d roots t (check d roots t).findings where
  mem_iff _ := mem_check_iff
  inOrder := pairwise_check d roots t

/-- All problems can be told in one way only. -/
theorem Told.unique {fs gs : List Finding} (hfs : Told d roots t fs) (hgs : Told d roots t gs) :
    fs = gs := by
  have hirrefl : Std.Irrefl Before := ⟨fun f => Nat.lt_irrefl (place f)⟩
  have hantisymm : Std.Antisymm Before := ⟨fun _ _ h h' => absurd h (Nat.lt_asymm h')⟩
  exact hfs.inOrder.eq_of_mem_iff hgs.inOrder fun f => (hfs.mem_iff f).trans (hgs.mem_iff f).symm

/-- A check accepts exactly the documents that are in order, and what it tells of any other one are
exactly its problems. -/
theorem check_exact (d : Disk) (roots : AssetRoots) (t : Text) :
    ((check d roots t).isOk = true ↔ Sound d roots t) ∧
    ∀ fs, (check d roots t).findings = fs ↔ Told d roots t fs := by
  refine ⟨?_, fun fs => ⟨?_, fun h => (told_check d roots t).unique h⟩⟩
  · rw [sound_iff, isOk, List.isEmpty_iff, List.eq_nil_iff_forall_not_mem]
    exact forall_congr' fun f => not_congr mem_check_iff
  · rintro rfl
    exact told_check d roots t

end Pagefold.Report
