import Mathlib
import Pagefold.Text.Blank
import Pagefold.Text.Letter

/-!
# What differs in letter case only

* `Text.dropFolded?_eq_some_iff`: a beginning in any letter case;
* `Text.eq_of_caseKey_eq`: a mark of ASCII below the letters differs from nothing in case only;
* `Text.IsPlainLetter`, `Text.map_caseKey_eq_iff`: words of letters that have their two cases only;
* `Text.dropFolded?_append`: a keyword without such a mark is not read past it;
* `Text.caseKey_of_isBlank`: nor does a blank.
-/

namespace Pagefold.Text

theorem dropFolded?_eq_some_iff {start t r : Text} :
    dropFolded? start t = some r ↔ ∃ k, t = k ++ r ∧ k.map caseKey = start.map caseKey := by
  induction start generalizing t with
  | nil => simp [dropFolded?, eq_comm]
  | cons a start ih =>
    constructor
    · intro h
      cases t with
      | nil => cases h
      | cons c t =>
        rw [dropFolded?] at h
        split at h
        · next hac =>
          obtain ⟨k, rfl, hk⟩ := ih.1 h
          exact ⟨c :: k, rfl, by rw [List.map_cons, List.map_cons, hac, hk]⟩
        · cases h
    · rintro ⟨k, rfl, hk⟩
      cases k with
      | nil => cases hk
      | cons c k =>
        rw [List.map_cons, List.map_cons, List.cons.injEq] at hk
        rw [List.cons_append, dropFolded?, if_pos hk.1.symm]
        exact ih.2 ⟨k, rfl, hk.2⟩

/-! ## Characters without case -/

theorem isLower_iff_toNat {c : Char} : c.isLower = true ↔ 97 ≤ c.toNat ∧ c.toNat ≤ 122 := by
  simp only [Char.isLower, Bool.and_eq_true, decide_eq_true_eq, UInt32.le_iff_toNat_le]
  exact Iff.rfl

theorem toUpper_of_toNat_lt {c : Char} (h : c.toUpper.toNat < 65) : c.toUpper = c := by
  refine Char.toUpper_eq_of_not_isLower fun hlower => ?_
  have hcode := isLower_iff_toNat.1 hlower
  have hvalid : (c.toNat - 32).isValidChar := .inl (by omega)
  rw [Char.toUpper_eq_of_isLower hlower, Char.toNat_ofNat, if_pos hvalid] at h
  omega

/-- The image of a run is no character below the letters. -/
theorem image?_foldRuns {n m : Nat} (h : CaseRun.image? foldRuns n = some m) : 65 ≤ m := by
  obtain ⟨run, hrun, rfl⟩ := Option.map_eq_some_iff.1 h
  have himage : ∀ run ∈ foldRuns, 65 ≤ run.image := by decide +kernel
  have := himage run (List.mem_of_find?_eq_some hrun)
  omega

theorem eq_of_caseKey_eq {c d : Char} (h : caseKey c = d) (hd : 0 < d.toNat ∧ d.toNat < 65) :
    c = d := by
  unfold caseKey at h
  split at h
  · subst h
    exact (toUpper_of_toNat_lt hd.2).symm
  · cases hi : CaseRun.image? foldRuns c.toNat with
    | none =>
      rw [hi] at h
      exact h
    | some m =>
      have hm := image?_foldRuns hi
      have hcode := Char.toNat_ofNat m
      rw [hi] at h
      change Char.ofNat m = d at h
      rw [h] at hcode
      split at hcode <;> omega

theorem caseKey_of_toNat_lt {c : Char} (h : c.toNat < 65) : caseKey c = c := by
  rw [caseKey, if_pos (by omega)]
  refine Char.toUpper_eq_of_not_isLower fun hlower => ?_
  have := isLower_iff_toNat.1 hlower
  omega

theorem caseKey_inj {c q : Char} (hq : 0 < q.toNat ∧ q.toNat < 65) :
    caseKey c = caseKey q ↔ c = q := by
  rw [caseKey_of_toNat_lt hq.2]
  refine ⟨fun h => eq_of_caseKey_eq h hq, ?_⟩
  rintro rfl
  exact caseKey_of_toNat_lt hq.2

/-! ## Letters -/

/-- A lower case letter of ASCII that no character beyond ASCII differs from in case only. -/
def IsPlainLetter (a : Char) : Prop := a.isLower = true ∧ a ≠ 's' ∧ a ≠ 'k'

instance (a : Char) : Decidable (IsPlainLetter a) := inferInstanceAs (Decidable (_ ∧ _ ∧ _))

/-- Beyond ASCII, only the long s and the Kelvin sign are sent to a character of ASCII. -/
theorem image?_foldRuns_beyond {n m : Nat} (h : CaseRun.image? foldRuns n = some m) :
    128 ≤ m ∨ m = 'S'.toNat ∨ m = 'K'.toNat := by
  obtain ⟨run, hrun, rfl⟩ := Option.map_eq_some_iff.1 h
  have himage : ∀ run ∈ foldRuns, 128 ≤ run.image ∨
      run.first = run.last ∧ (run.image = 'S'.toNat ∨ run.image = 'K'.toNat) := by decide +kernel
  have hin := List.find?_some hrun
  simp only [Bool.and_eq_true, decide_eq_true_eq] at hin
  rcases himage run (List.mem_of_find?_eq_some hrun) with hbeyond | ⟨hone, hletter⟩
  · exact .inl (by omega)
  · rw [show n - run.first = 0 by omega, Nat.add_zero]
    exact .inr hletter

theorem toNat_caseKey_of_beyond {c : Char} (hc : 128 ≤ c.toNat) :
    128 ≤ (caseKey c).toNat ∨ caseKey c = 'S' ∨ caseKey c = 'K' ∨ (caseKey c).toNat = 0 := by
  rw [caseKey, if_neg (by omega)]
  cases hi : CaseRun.image? foldRuns c.toNat with
  | none => exact .inl hc
  | some m =>
    rcases image?_foldRuns_beyond hi with hm | rfl | rfl
    · rw [Option.map_some, Option.getD_some, Char.toNat_ofNat]
      split
      · exact .inl hm
      · exact .inr (.inr (.inr rfl))
    · exact .inr (.inl rfl)
    · exact .inr (.inr (.inl rfl))

theorem toLower_of_beyond {c : Char} (hc : 128 ≤ c.toNat) : c.toLower = c := by
  refine Char.toLower_eq_of_not_isUpper fun hupper => ?_
  simp only [Char.isUpper, decide_eq_true_eq, UInt32.le_iff_toNat_le] at hupper
  exact absurd (Nat.le_trans hc hupper.2) (by decide)

/-- In ASCII, a key is a capital just where the lower case is a letter, and 32 apart from it. -/
theorem toNat_caseKey_of_ascii {c : Char} (hc : c.toNat < 128)
    (h : (65 ≤ (caseKey c).toNat ∧ (caseKey c).toNat ≤ 90) ∨
      (97 ≤ c.toLower.toNat ∧ c.toLower.toNat ≤ 122)) :
    (caseKey c).toNat + 32 = c.toLower.toNat := by
  have hall : ∀ n < 128,
      ((65 ≤ (caseKey (Char.ofNat n)).toNat ∧ (caseKey (Char.ofNat n)).toNat ≤ 90) ∨
        (97 ≤ (Char.ofNat n).toLower.toNat ∧ (Char.ofNat n).toLower.toNat ≤ 122)) →
      (caseKey (Char.ofNat n)).toNat + 32 = (Char.ofNat n).toLower.toNat := by decide +kernel
  have := hall c.toNat hc
  rw [Char.ofNat_toNat] at this
  exact this h

theorem IsPlainLetter.toNat_caseKey {a : Char} (ha : IsPlainLetter a) :
    (caseKey a).toNat + 32 = a.toNat := by
  have hcode := isLower_iff_toNat.1 ha.1
  have hlower : a.toLower = a :=
    Char.toLower_eq_of_not_isUpper (Char.not_isUpper_of_isLower ha.1)
  have hkey := toNat_caseKey_of_ascii (c := a) (by omega) (.inr (by rwa [hlower]))
  rwa [hlower] at hkey

/-- No character beyond ASCII has the key of such a letter. -/
theorem IsPlainLetter.caseKey_ne {a c : Char} (ha : IsPlainLetter a) (hc : 128 ≤ c.toNat) :
    caseKey c ≠ caseKey a := by
  have hcode := isLower_iff_toNat.1 ha.1
  have hkey := ha.toNat_caseKey
  have hcapitals : 'S'.toNat + 32 = 's'.toNat ∧ 'K'.toNat + 32 = 'k'.toNat := by decide
  intro hsame
  rw [← hsame] at hkey
  rcases toNat_caseKey_of_beyond hc with h | h | h | h
  · omega
  · rw [h] at hkey
    exact ha.2.1 (Char.toNat_inj.1 (by omega))
  · rw [h] at hkey
    exact ha.2.2 (Char.toNat_inj.1 (by omega))
  · omega

/-- What differs from such a letter in case only is the letter itself or its capital. -/
theorem IsPlainLetter.caseKey_eq_iff {a c : Char} (ha : IsPlainLetter a) :
    caseKey c = caseKey a ↔ c.toLower = a := by
  have hcode := isLower_iff_toNat.1 ha.1
  have hkey := ha.toNat_caseKey
  rw [← Char.toNat_inj, ← Char.toNat_inj (c := c.toLower)]
  by_cases hc : c.toNat < 128
  · constructor
    · intro heq
      have := toNat_caseKey_of_ascii hc (.inl (by omega))
      omega
    · intro heq
      have := toNat_caseKey_of_ascii hc (.inr (by omega))
      omega
  · have hbeyond := Nat.not_lt.1 hc
    rw [toLower_of_beyond hbeyond]
    refine iff_of_false (fun heq => ha.caseKey_ne hbeyond (Char.toNat_inj.1 heq)) ?_
    omega

theorem map_caseKey_eq_iff {k n : Text} (hn : ∀ a ∈ n, IsPlainLetter a) :
    k.map caseKey = n.map caseKey ↔ lowerAscii k = n := by
  induction n generalizing k with
  | nil => simp [lowerAscii]
  | cons a n ih =>
    obtain ⟨ha, hn⟩ := List.forall_mem_cons.1 hn
    cases k with
    | nil => simp [lowerAscii]
    | cons c k =>
      rw [List.map_cons, List.map_cons, List.cons.injEq, ha.caseKey_eq_iff, ih hn, lowerAscii,
        lowerAscii, List.map_cons, List.cons.injEq]

/-! ## Keywords without a mark -/

/-- A keyword is not read past a mark that it does not have. -/
theorem dropFolded?_append {start y u : Text} {q : Char} (hcode : 0 < q.toNat ∧ q.toNat < 65)
    (hq : q ∉ start) (h : q ∈ y ∨ u.head? = some q) :
    dropFolded? start (y ++ u) = (dropFolded? start y).map (· ++ u) := by
  induction start generalizing y with
  | nil => rfl
  | cons a start ih =>
    rw [List.mem_cons, not_or] at hq
    have ha : caseKey a ≠ caseKey q := fun heq => hq.1 ((caseKey_inj hcode).1 heq).symm
    cases y with
    | nil =>
      obtain ⟨v, rfl⟩ := List.head?_eq_some_iff.1 (h.resolve_left List.not_mem_nil)
      rw [List.nil_append, dropFolded?, dropFolded?, if_neg ha, Option.map_none]
    | cons c y =>
      rw [List.cons_append, dropFolded?, dropFolded?]
      split
      · next hac =>
        apply ih hq.2
        rw [List.mem_cons] at h
        rcases h with (rfl | hy) | hu
        · exact absurd hac ha
        · exact .inl hy
        · exact .inr hu
      · rfl

theorem mem_of_dropFolded? {start t r : Text} {q : Char} (hcode : 0 < q.toNat ∧ q.toNat < 65)
    (hq : q ∉ start) (h : dropFolded? start t = some r) (hmem : q ∈ t) : q ∈ r := by
  obtain ⟨k, rfl, hk⟩ := dropFolded?_eq_some_iff.1 h
  refine (List.mem_append.1 hmem).resolve_left fun hmem => ?_
  have hkey : caseKey q ∈ start.map caseKey := hk ▸ List.mem_map_of_mem hmem
  obtain ⟨c, hc, heq⟩ := List.mem_map.1 hkey
  exact hq ((caseKey_inj hcode).1 heq ▸ hc)

/-! ## Blanks -/

/-- The code points of the blanks beyond ASCII. -/
def wideBlanks : List Nat :=
  [0x85, 0xA0, 0x1680, 0x2000, 0x2001, 0x2002, 0x2003, 0x2004, 0x2005, 0x2006, 0x2007, 0x2008,
    0x2009, 0x200A, 0x2028, 0x2029, 0x202F, 0x205F, 0x3000]

theorem code_of_isBlank {c : Char} (h : isBlank c = true) :
    c.toNat ≤ 32 ∨ c.toNat ∈ wideBlanks := by
  simp only [isBlank, Bool.or_eq_true, Bool.and_eq_true, decide_eq_true_eq, beq_iff_eq,
    UInt32.le_iff_toNat_le, ← UInt32.toNat_inj, UInt32.reduceToNat, Char.toNat_val] at h
  simp only [wideBlanks, List.mem_cons, List.not_mem_nil, or_false]
  omega

theorem caseKey_of_isBlank {c : Char} (h : isBlank c = true) : caseKey c = c := by
  have hwide : ∀ n ∈ wideBlanks, 128 ≤ n ∧ CaseRun.image? foldRuns n = none := by decide +kernel
  rcases code_of_isBlank h with hlow | hmem
  · exact caseKey_of_toNat_lt (by omega)
  · obtain ⟨hle, hnone⟩ := hwide _ hmem
    rw [caseKey, if_neg (by omega), hnone]
    rfl

theorem IsPlainLetter.isBlank_eq_false {a c : Char} (ha : IsPlainLetter a) (h : c.toLower = a) :
    isBlank c = false := by
  rw [← Bool.not_eq_true]
  intro hc
  have hkey : caseKey a = c := (ha.caseKey_eq_iff.2 h).symm.trans (caseKey_of_isBlank hc)
  have hcode := ha.toNat_caseKey
  have hletter := isLower_iff_toNat.1 ha.1
  have hwide : ∀ n ∈ wideBlanks, 128 ≤ n := by decide
  rw [hkey] at hcode
  rcases code_of_isBlank hc with hlow | hmem
  · omega
  · have := hwide _ hmem
    omega

end Pagefold.Text
