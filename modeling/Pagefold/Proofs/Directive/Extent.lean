import Pagefold.Proofs.Directive.Inline

/-!
# Where a directive ends

A directive ends with a closing parenthesis. A text that starts with it starts with a directive,
whatever follows.

* `Directive.quoted?_eq_some_iff`: quoted paths;
* `Directive.argument?_isSome_iff`: there is an argument wherever there is a closing parenthesis;
* `Directive.read?_extend`: what follows a directive can be exchanged;
* `Directive.occursIn_of_infix`: so a text has the directives of its parts.
-/

namespace Pagefold.Directive

open Text

variable {t r arg path seen : Text} {context : Option Text} {x : Directive}

theorem quoted?_eq_some_iff : quoted? t = some (path, r) ↔
    ∃ q, (q = '\'' ∨ q = '"') ∧ path ≠ [] ∧ q ∉ path ∧ t = q :: (path ++ q :: r) := by
  constructor
  · intro h
    cases t with
    | nil => cases h
    | cons q t =>
      rw [quoted?] at h
      split at h
      · next hq =>
        split at h
        · next c p d rest htake hdrop =>
          cases h
          obtain ⟨rfl, a, ha, rfl⟩ := dropWhile_bne_eq_cons_iff.1 hdrop
          rw [takeWhile_bne ha] at htake
          subst htake
          exact ⟨d, hq, List.cons_ne_nil c p, ha, rfl⟩
        · cases h
      · cases h
  · rintro ⟨q, hq, hne, hpath, rfl⟩
    exact quoted?_eq hq hne hpath

/-! ## Arguments -/

theorem plain?_rest (h : plain? t = some (arg, r)) : ∃ a, t = a ++ ')' :: r := by
  unfold plain? at h
  split at h
  · next c rest hdrop =>
    cases h
    obtain ⟨-, a, -, ht⟩ := dropWhile_bne_eq_cons_iff.1 hdrop
    exact ⟨a, ht⟩
  · cases h

theorem braced?_rest (h : braced? seen t = some (arg, r)) : ∃ a, t = a ++ ')' :: r := by
  induction t generalizing seen with
  | nil => cases h
  | cons c t ih =>
    have hnext (h : braced? (c :: seen) t = some (arg, r)) : ∃ a, c :: t = a ++ ')' :: r := by
      obtain ⟨a, rfl⟩ := ih h
      exact ⟨c :: a, rfl⟩
    rw [braced?] at h
    split at h
    · split at h
      · next rest hs =>
        cases h
        obtain ⟨w, -, hw⟩ := exists_blanks t
        exact ⟨c :: w, by rw [hs] at hw; rw [hw]; rfl⟩
      · exact hnext h
    · exact hnext h

theorem argument?_rest (h : argument? t = some (arg, r)) : ∃ a, t = a ++ ')' :: r := by
  unfold argument? at h
  split at h
  · rw [Option.orElse_eq_orElse, Option.orElse_eq_or, Option.or_eq_some_iff] at h
    rcases h with h | ⟨-, h⟩
    · exact braced?_rest h
    · exact plain?_rest h
  · exact plain?_rest h

theorem argument?_isSome_iff : (argument? t).isSome = true ↔ ')' ∈ t := by
  constructor
  · intro h
    obtain ⟨⟨arg, r⟩, h⟩ := Option.isSome_iff_exists.1 h
    obtain ⟨a, rfl⟩ := argument?_rest h
    simp
  · intro h
    have hplain : (plain? t).isSome = true := by
      unfold plain?
      cases hdrop : t.dropWhile (· != ')') with
      | nil =>
        have hall : t.takeWhile (· != ')') = t := by
          simpa [hdrop] using List.takeWhile_append_dropWhile (p := (· != ')')) (l := t)
        rw [← hall] at h
        exact absurd h (not_mem_takeWhile_bne ')' t)
      | cons c rest => rfl
    unfold argument?
    split
    · rw [Option.orElse_eq_orElse, Option.orElse_eq_or, Option.isSome_or, hplain, Bool.or_true]
    · exact hplain

/-! ## Whole directives -/

theorem read?_of_ne {c : Char} (h : c ≠ '@') : read? (c :: t) = none := by
  have hopen : dropPrefix? opening (c :: t) = none :=
    dropPrefix?_eq_none_iff.2 fun hpre => h (List.cons_prefix_cons.1 hpre).1.symm
  simp [read?, hopen]

theorem read?_of_not_mem (h : '@' ∉ t) : ∀ u, u <:+ t → read? u = none := by
  intro u hu
  cases u with
  | nil => exact pattern.read?_nil
  | cons c u =>
    refine read?_of_ne ?_
    rintro rfl
    exact h (hu.subset List.mem_cons_self)

theorem barren_of_isBlank {w : Text} (h : ∀ c ∈ w, isBlank c = true) (t : Text) :
    pattern.Barren w t :=
  Pattern.barren_of_start (fun _ _ hc => read?_of_ne hc)
    (fun hmem => absurd (h '@' hmem) (by decide)) t

theorem close?_extend (h : close? t = some (context, r)) :
    ∃ a, t = a ++ ')' :: r ∧ ∀ r', (close? (a ++ ')' :: r')).isSome = true := by
  obtain ⟨w, hw, ht⟩ := exists_blanks t
  unfold close? at h
  split at h
  · next rest hs =>
    obtain ⟨⟨arg, r⟩, harg, h⟩ := Option.map_eq_some_iff.1 h
    cases h
    obtain ⟨w', -, hrest⟩ := exists_blanks rest
    obtain ⟨a, ha⟩ := argument?_rest harg
    refine ⟨w ++ ',' :: (w' ++ a), by rw [ht, hs, hrest, ha]; simp, fun r' => ?_⟩
    have hsome : (argument? (skipBlanks (w' ++ a ++ ')' :: r'))).isSome = true :=
      argument?_isSome_iff.2 (mem_skipBlanks (by decide) (by simp))
    rw [close?, List.append_assoc, skipBlanks_append hw, List.cons_append,
      skipBlanks_of_not (by decide)]
    simpa using hsome
  · next rest hs =>
    cases h
    refine ⟨w, by rw [ht, hs], fun r' => ?_⟩
    rw [close?, skipBlanks_append hw, skipBlanks_of_not (by decide)]
    rfl
  · cases h

/-- What follows a directive can be exchanged, and a directive is still read there. -/
theorem read?_extend (h : read? t = some (x, r)) :
    ∃ m, t = m ++ r ∧ ∀ r', (read? (m ++ r')).isSome = true := by
  simp only [read?, Option.bind_eq_bind, Option.bind_eq_some_iff, Prod.exists] at h
  obtain ⟨t₁, h₁, path, t₂, h₂, context, t₃, h₃, h⟩ := h
  cases h
  rw [dropPrefix?_eq_some_iff] at h₁
  obtain ⟨w, hw, ht₁⟩ := exists_blanks t₁
  obtain ⟨q, hq, hne, hpath, hs⟩ := quoted?_eq_some_iff.1 h₂
  obtain ⟨a, rfl, hclose⟩ := close?_extend h₃
  refine ⟨opening ++ w ++ q :: (path ++ q :: (a ++ [')'])), by rw [h₁, ht₁, hs]; simp, fun r' => ?_⟩
  have hopen : dropPrefix? opening (opening ++ w ++ q :: (path ++ q :: (a ++ [')'])) ++ r')
      = some (w ++ q :: (path ++ q :: (a ++ ')' :: r'))) := by
    rw [dropPrefix?_eq_some_iff]
    simp
  have hquote : isBlank q = false := by
    rcases hq with rfl | rfl <;> decide
  obtain ⟨⟨context', rest⟩, hrest⟩ := Option.isSome_iff_exists.1 (hclose r')
  simp only [read?, Option.bind_eq_bind, hopen, Option.bind_some, skipBlanks_append hw,
    skipBlanks_of_not hquote, quoted?_eq hq hne hpath, hrest]
  rfl

theorem occursIn_iff_exists : occursIn t = true ↔ ∃ u, u <:+ t ∧ (read? u).isSome = true := by
  rw [← Bool.not_eq_false, occursIn, pattern.occursIn_eq_false_iff]
  simp [pattern, Option.isSome_iff_ne_none]

theorem occursIn_of_infix {s : Text} (hs : s <:+: t) (h : occursIn s = true) :
    occursIn t = true := by
  obtain ⟨a, b, rfl⟩ := hs
  obtain ⟨u, ⟨w, rfl⟩, hread⟩ := occursIn_iff_exists.1 h
  obtain ⟨⟨x, r⟩, hread⟩ := Option.isSome_iff_exists.1 hread
  obtain ⟨m, rfl, hextend⟩ := read?_extend hread
  exact occursIn_iff_exists.2 ⟨m ++ (r ++ b), ⟨a ++ w, by simp⟩, hextend (r ++ b)⟩

end Pagefold.Directive
