import Pagefold.Proofs.Directive.Extent
import Pagefold.Proofs.Text.Leftmost

/-!
# The grammar of directives

How a directive is written, without a reader: its keyword, blanks, a path in quotes, and an end. An
argument that opens a brace runs through the first `}` that blanks and a `)` follow, if there is
one, and any other argument runs to the first `)`.

* `Directive.Ending`, `Directive.Written`: the rules for the end of a directive, and for directives;
* `Directive.braced?_eq_some_iff`, `Directive.plain?_eq_some_iff`, `Directive.close?_eq_some_iff`,
  `Directive.read?_eq_some_iff`: what is read is what is written;
* `Directive.scan_grammar`: a scan finds the leftmost directives, and all of them.
-/

namespace Pagefold

namespace Directive

open Text

variable {t r a b u seen arg path : Text} {c : Char} {context : Option Text} {x : Directive}

/-! ## The rules -/

/-- Blanks and a `)` stand at the front of a text. -/
def Closes (t : Text) : Prop := ∃ w r, Blanks w ∧ t = w ++ ')' :: r

/-- Blanks and a `{` stand at the front of a text, and behind it some `}` that blanks and a `)`
follow. -/
def HoldsObject (t : Text) : Prop :=
  ∃ w a b, Blanks w ∧ t = w ++ '{' :: (a ++ '}' :: b) ∧ Closes b

/-- The end of a directive, from the closing quote of its path on: the text, the context, and what
follows the `)`. -/
inductive Ending : Text → Option Text → Text → Prop where
  /-- A comma and an object, through the first `}` that blanks and a `)` follow. -/
  | object {w v a u r : Text} (hw : Blanks w) (hv : Blanks v) (hu : Blanks u)
      (first : ∀ x y, a = x ++ '}' :: y → ¬ Closes (y ++ '}' :: (u ++ ')' :: r))) :
      Ending (w ++ ',' :: (v ++ '{' :: (a ++ '}' :: (u ++ ')' :: r)))) (some ('{' :: a ++ ['}'])) r
  /-- A comma and anything else, up to the first `)`. What is blank is no context. -/
  | other {w a r : Text} (hw : Blanks w) (ha : ')' ∉ a) (hother : ¬ HoldsObject (a ++ ')' :: r)) :
      Ending (w ++ ',' :: (a ++ ')' :: r)) (if trim a = [] then none else some (trim a)) r
  /-- No argument. -/
  | bare {w r : Text} (hw : Blanks w) : Ending (w ++ ')' :: r) none r

/-- A directive at the front of a text, and what follows it. -/
inductive Written : Text → Directive → Text → Prop where
  | mk {w path t r : Text} {q : Char} {context : Option Text} (hw : Blanks w)
      (hq : q = '\'' ∨ q = '"') (hne : path ≠ []) (hpath : q ∉ path) (h : Ending t context r) :
      Written (opening ++ (w ++ q :: (path ++ q :: t))) ⟨path, context⟩ r

/-! ## Arguments in braces -/

theorem skipBlanks_of_closes (hu : Blanks u) : skipBlanks (u ++ ')' :: r) = ')' :: r :=
  (skipBlanks_eq_cons_iff (by decide)).2 ⟨u, hu, rfl⟩

theorem braced?_of_closes (seen : Text) (hu : Blanks u) :
    braced? seen ('}' :: (u ++ ')' :: r)) = some (seen.reverse ++ ['}'], r) := by
  rw [braced?, if_pos rfl, skipBlanks_of_closes hu]
  simp

theorem braced?_of_not_closes (seen : Text) (h : ¬ (c = '}' ∧ Closes t)) :
    braced? seen (c :: t) = braced? (c :: seen) t := by
  rw [braced?]
  split
  · next hc =>
    split
    · next rest hs =>
      rw [skipBlanks_eq_cons_iff (by decide)] at hs
      obtain ⟨w, hw, ht⟩ := hs
      exact absurd ⟨hc, w, rest, hw, ht⟩ h
    · rfl
  · rfl

/-- What is read in braces runs through the first `}` that closes. -/
theorem braced?_eq_some_iff : braced? seen t = some (arg, r) ↔
    ∃ a u, Blanks u ∧ t = a ++ '}' :: (u ++ ')' :: r) ∧ arg = seen.reverse ++ a ++ ['}'] ∧
      ∀ x y, a = x ++ '}' :: y → ¬ Closes (y ++ '}' :: (u ++ ')' :: r)) := by
  induction t generalizing seen with
  | nil => simp [braced?]
  | cons c t ih =>
    by_cases hcloses : c = '}' ∧ Closes t
    · obtain ⟨rfl, v, r', hv, rfl⟩ := hcloses
      rw [braced?_of_closes seen hv]
      constructor
      · intro h
        cases h
        refine ⟨[], v, hv, rfl, by simp, ?_⟩
        intro x y hxy
        simp at hxy
      · rintro ⟨a, u, hu, ht, rfl, hfirst⟩
        cases a with
        | nil =>
          -- Behind the blanks, both texts go on with the same parenthesis.
          have hrest := congrArg skipBlanks (List.cons.inj ht).2
          rw [skipBlanks_of_closes hv, skipBlanks_of_closes hu] at hrest
          rw [(List.cons.inj hrest).2, List.append_nil]
        | cons d a =>
          obtain ⟨rfl, ht'⟩ := List.cons.inj ht
          exact absurd ⟨v, r', hv, ht'.symm⟩ (hfirst [] a rfl)
    · rw [braced?_of_not_closes seen hcloses, ih]
      constructor
      · rintro ⟨a, u, hu, rfl, rfl, hfirst⟩
        refine ⟨c :: a, u, hu, rfl, by simp, ?_⟩
        intro x y hxy
        cases x with
        | nil =>
          obtain ⟨rfl, rfl⟩ := List.cons.inj hxy
          exact fun h => hcloses ⟨rfl, h⟩
        | cons d x => exact hfirst x y (List.cons.inj hxy).2
      · rintro ⟨a, u, hu, ht, rfl, hfirst⟩
        cases a with
        | nil =>
          obtain ⟨rfl, rfl⟩ := List.cons.inj ht
          exact absurd ⟨rfl, u, r, hu, rfl⟩ hcloses
        | cons d a =>
          obtain ⟨rfl, rfl⟩ := List.cons.inj ht
          refine ⟨a, u, hu, rfl, by simp, ?_⟩
          rintro x y rfl
          exact hfirst (c :: x) y rfl

theorem braced?_isSome_iff :
    (braced? seen t).isSome = true ↔ ∃ a b, t = a ++ '}' :: b ∧ Closes b := by
  induction t generalizing seen with
  | nil => simp [braced?]
  | cons c t ih =>
    by_cases hcloses : c = '}' ∧ Closes t
    · obtain ⟨rfl, ht⟩ := hcloses
      obtain ⟨v, r, hv, rfl⟩ := ht
      rw [braced?_of_closes seen hv]
      exact ⟨fun _ => ⟨[], _, rfl, v, r, hv, rfl⟩, fun _ => rfl⟩
    · rw [braced?_of_not_closes seen hcloses, ih]
      constructor
      · rintro ⟨a, b, rfl, hb⟩
        exact ⟨c :: a, b, rfl, hb⟩
      · rintro ⟨a, b, ht, hb⟩
        cases a with
        | nil =>
          obtain ⟨rfl, rfl⟩ := List.cons.inj ht
          exact absurd ⟨rfl, hb⟩ hcloses
        | cons d a => exact ⟨a, b, (List.cons.inj ht).2, hb⟩

/-! ## Arguments -/

theorem plain?_eq_some_iff :
    plain? t = some (arg, r) ↔ ∃ a, ')' ∉ a ∧ t = a ++ ')' :: r ∧ arg = trim a := by
  constructor
  · intro h
    unfold plain? at h
    split at h
    · next c rest hdrop =>
      cases h
      obtain ⟨rfl, a, ha, rfl⟩ := dropWhile_bne_eq_cons_iff.1 hdrop
      exact ⟨a, ha, rfl, by rw [takeWhile_bne ha]⟩
    · cases h
  · rintro ⟨a, ha, rfl, rfl⟩
    simp only [plain?, dropWhile_bne ha, takeWhile_bne ha]

theorem plain?_skipBlanks (t : Text) : plain? (skipBlanks t) = plain? t := by
  obtain ⟨w, hw, ht⟩ := exists_blanks t
  have hall := bne_of_not_mem (hw.not_mem (c := ')') (by decide))
  have hplain : plain? (w ++ skipBlanks t) = plain? (skipBlanks t) := by
    simp only [plain?, List.dropWhile_append_of_pos hall, List.takeWhile_append_of_pos hall,
      trim_blanks_append hw]
  rw [← hplain, ← ht]

theorem holdsObject_iff :
    HoldsObject t ↔ ∃ u, skipBlanks t = '{' :: u ∧ (braced? [] ('{' :: u)).isSome = true := by
  constructor
  · rintro ⟨w, a, b, hw, rfl, hb⟩
    exact ⟨a ++ '}' :: b, (skipBlanks_eq_cons_iff (by decide)).2 ⟨w, hw, rfl⟩,
      braced?_isSome_iff.2 ⟨'{' :: a, b, rfl, hb⟩⟩
  · rintro ⟨u, hs, hsome⟩
    obtain ⟨w, hw, rfl⟩ := (skipBlanks_eq_cons_iff (by decide)).1 hs
    obtain ⟨a, b, hab, hb⟩ := braced?_isSome_iff.1 hsome
    cases a with
    | nil => exact absurd (List.cons.inj hab).1 (by decide)
    | cons c a =>
      obtain ⟨rfl, rfl⟩ := List.cons.inj hab
      exact ⟨w, a, b, hw, rfl, hb⟩

theorem argument?_of_not_holdsObject (h : ¬ HoldsObject t) :
    argument? (skipBlanks t) = plain? t := by
  rw [← plain?_skipBlanks t]
  unfold argument?
  split
  · next u hs =>
    have hnone : braced? [] ('{' :: u) = none := by
      rw [← Option.not_isSome_iff_eq_none]
      exact fun hsome => h (holdsObject_iff.2 ⟨u, hs, hsome⟩)
    rw [hs, hnone]
    rfl
  · rfl

theorem argument?_of_object {v : Text} (hv : Blanks v) (hu : Blanks u)
    (hfirst : ∀ x y, a = x ++ '}' :: y → ¬ Closes (y ++ '}' :: (u ++ ')' :: r))) :
    argument? (skipBlanks (v ++ '{' :: (a ++ '}' :: (u ++ ')' :: r))))
      = some ('{' :: a ++ ['}'], r) := by
  have hbraced : braced? [] ('{' :: (a ++ '}' :: (u ++ ')' :: r)))
      = some ('{' :: a ++ ['}'], r) := by
    refine braced?_eq_some_iff.2 ⟨'{' :: a, u, hu, rfl, rfl, ?_⟩
    intro x y hxy
    cases x with
    | nil => exact absurd (List.cons.inj hxy).1 (by decide)
    | cons c x => exact hfirst x y (List.cons.inj hxy).2
  rw [(skipBlanks_eq_cons_iff (by decide)).2 ⟨v, hv, rfl⟩, argument?, hbraced]
  rfl

/-- Where there is an object, it is the argument. -/
theorem exists_object (h : HoldsObject t) : ∃ v a u r, Blanks v ∧ Blanks u ∧
    t = v ++ '{' :: (a ++ '}' :: (u ++ ')' :: r)) ∧
    ∀ x y, a = x ++ '}' :: y → ¬ Closes (y ++ '}' :: (u ++ ')' :: r)) := by
  obtain ⟨rest, hs, hsome⟩ := holdsObject_iff.1 h
  obtain ⟨v, hv, rfl⟩ := (skipBlanks_eq_cons_iff (by decide)).1 hs
  obtain ⟨⟨arg, r⟩, hread⟩ := Option.isSome_iff_exists.1 hsome
  obtain ⟨a, u, hu, ht, -, hfirst⟩ := braced?_eq_some_iff.1 hread
  cases a with
  | nil => exact absurd (List.cons.inj ht).1 (by decide)
  | cons c a =>
    obtain ⟨rfl, rfl⟩ := List.cons.inj ht
    refine ⟨v, a, u, r, hv, hu, rfl, ?_⟩
    rintro x y rfl
    exact hfirst ('{' :: x) y rfl

/-! ## Whole directives -/

theorem close?_of_comma {w : Text} (hw : Blanks w) (t : Text) :
    close? (w ++ ',' :: t)
      = (argument? (skipBlanks t)).map fun (arg, rest) => (present arg, rest) := by
  rw [close?, (skipBlanks_eq_cons_iff (by decide)).2 ⟨w, hw, rfl⟩]
  rfl

/-- What is read behind the path of a directive is its end. -/
theorem close?_eq_some_iff : close? t = some (context, r) ↔ Ending t context r := by
  constructor
  · intro h
    unfold close? at h
    split at h
    · next rest hs =>
      obtain ⟨w, hw, rfl⟩ := (skipBlanks_eq_cons_iff (by decide)).1 hs
      obtain ⟨⟨arg, r'⟩, harg, heq⟩ := Option.map_eq_some_iff.1 h
      cases heq
      -- An object goes first; only without one the argument ends at the first parenthesis.
      by_cases hobject : HoldsObject rest
      · obtain ⟨v, a, u, r', hv, hu, rfl, hfirst⟩ := exists_object hobject
        rw [argument?_of_object hv hu hfirst] at harg
        cases harg
        exact .object hw hv hu hfirst
      · rw [argument?_of_not_holdsObject hobject, plain?_eq_some_iff] at harg
        obtain ⟨a, ha, rfl, rfl⟩ := harg
        exact .other hw ha hobject
    · next rest hs =>
      obtain ⟨w, hw, rfl⟩ := (skipBlanks_eq_cons_iff (by decide)).1 hs
      cases h
      exact .bare hw
    · cases h
  · intro h
    cases h with
    | object hw hv hu first =>
      rw [close?_of_comma hw, argument?_of_object hv hu first]
      rfl
    | @other w a _ hw ha hother =>
      have hplain : plain? (a ++ ')' :: r) = some (trim a, r) :=
        plain?_eq_some_iff.2 ⟨a, ha, rfl, rfl⟩
      rw [close?_of_comma hw, argument?_of_not_holdsObject hother, hplain]
      rfl
    | bare hw =>
      rw [close?, skipBlanks_of_closes hw]
      rfl

/-- What is read at the front of a text is a directive as it is written. -/
theorem read?_eq_some_iff : read? t = some (x, r) ↔ Written t x r := by
  constructor
  · intro h
    simp only [read?, Option.bind_eq_bind, Option.bind_eq_some_iff, Prod.exists] at h
    obtain ⟨t₁, h₁, path, t₂, h₂, context, t₃, h₃, h⟩ := h
    cases h
    rw [dropPrefix?_eq_some_iff] at h₁
    obtain ⟨w, hw, ht₁⟩ := exists_blanks t₁
    obtain ⟨q, hq, hne, hpath, hs⟩ := quoted?_eq_some_iff.1 h₂
    rw [h₁, ht₁, hs]
    exact .mk hw hq hne hpath (close?_eq_some_iff.1 h₃)
  · intro h
    cases h with
    | @mk w path t r q context hw hq hne hpath h =>
      have hopen : dropPrefix? opening (opening ++ (w ++ q :: (path ++ q :: t)))
          = some (w ++ q :: (path ++ q :: t)) := dropPrefix?_eq_some_iff.2 rfl
      have hquote : isBlank q = false := by
        rcases hq with rfl | rfl <;> decide
      have hskip : skipBlanks (w ++ q :: (path ++ q :: t)) = q :: (path ++ q :: t) :=
        (skipBlanks_eq_cons_iff hquote).2 ⟨w, hw, rfl⟩
      simp only [read?, Option.bind_eq_bind, hopen, Option.bind_some, hskip,
        quoted?_eq hq hne hpath, close?_eq_some_iff.2 h]
      rfl

/-- A scan finds the leftmost directives of a text: they are written where it says, one behind the
other, and no directive starts outside of them. A text has a directive exactly when a scan finds
one. -/
theorem scan_grammar (t : Text) :
    (∀ found, scan t = found ↔ Leftmost Written t 0 found) ∧
    (occursIn t = true ↔ scan t ≠ []) :=
  ⟨pattern.located_eq_iff (fun _ _ _ => read?_eq_some_iff) t, pattern.occursIn_iff t⟩

/-- An object without a close of its own runs on through the close of another directive. -/
example : scan "@@include('a', \x7b@@include('b', \x7b\x7d ).".toList
    = [(0, 35, ⟨"a".toList, some "\x7b@@include('b', \x7b\x7d".toList⟩)] := rfl

end Directive

end Pagefold
