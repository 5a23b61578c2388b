import Pagefold.Context
import Pagefold.Proofs.Json.Strings
import Pagefold.Proofs.Text.Matches

/-!
# Objects written in a directive

The argument of `@@include('path', {...})` is delimited by its text alone: it runs through the first
`}` that blanks and a `)` follow. So an object is read whole exactly when no such `}` stands before
its last one. In a JSON text it can stand in a string only.

* `Directive.ClosesEarly`: a `}` with blanks and a `)` behind it, within a text;
* `Directive.braced?_through`, `Directive.braced?_early`: what is read when there is none, and when
  there is one;
* `Directive.scan_inline_of_text`: when a directive is read as it was written, for any text in
  braces;
* `Directive.scan_inline`: the same for a JSON object, by what its strings contain, with the context
  it gives.
-/

namespace Pagefold.Directive

open Text

/-- A `}` of a text is followed by blanks and a `)`. -/
def ClosesEarly (c : Text) : Prop :=
  ∃ a b rest, c = a ++ '}' :: b ∧ skipBlanks b = ')' :: rest

theorem closesEarly_cons {c : Char} {t : Text} :
    ClosesEarly (c :: t) ↔ (c = '}' ∧ (skipBlanks t).head? = some ')') ∨ ClosesEarly t := by
  constructor
  · rintro ⟨a, b, rest, hab, hb⟩
    cases a with
    | nil =>
      rw [List.nil_append, List.cons.injEq] at hab
      exact .inl ⟨hab.1, by rw [hab.2, hb]; rfl⟩
    | cons d a => exact .inr ⟨a, b, rest, (List.cons.inj hab).2, hb⟩
  · rintro (⟨rfl, ht⟩ | ⟨a, b, rest, rfl, hb⟩)
    · obtain ⟨rest, ht⟩ := List.head?_eq_some_iff.1 ht
      exact ⟨[], t, rest, rfl, ht⟩
    · exact ⟨c :: a, b, rest, rfl, hb⟩

instance ClosesEarly.decidable : (c : Text) → Decidable (ClosesEarly c)
  | [] => isFalse fun ⟨_, _, _, h, _⟩ => by simp at h
  | _ :: t =>
    have := ClosesEarly.decidable t
    decidable_of_iff _ closesEarly_cons.symm

def inline (path arg : Text) : Text := opening ++ '\'' :: path ++ "', ".toList ++ arg ++ [')']

/-! ## Paths -/

theorem quoted?_eq {q : Char} {path rest : Text} (hq : q = '\'' ∨ q = '"') (hne : path ≠ [])
    (hpath : q ∉ path) : quoted? (q :: (path ++ q :: rest)) = some (path, rest) := by
  rw [quoted?, if_pos hq, takeWhile_bne hpath, dropWhile_bne hpath]
  cases path with
  | nil => exact absurd rfl hne
  | cons c path => rfl

/-! ## Arguments in braces -/

theorem skipBlanks_append_brace (a r : Text) : ∃ c u,
    skipBlanks (a ++ ['}']) = c :: u ∧ skipBlanks (a ++ '}' :: r) = c :: (u ++ r) := by
  have hne : skipBlanks (a ++ ['}']) ≠ [] := by
    intro hb
    obtain ⟨w, hw, ha⟩ := exists_blanks (a ++ ['}'])
    rw [hb, List.append_nil] at ha
    have := hw '}' (ha ▸ by simp)
    revert this
    decide
  obtain ⟨c, u, hu⟩ := List.exists_cons_of_ne_nil hne
  refine ⟨c, u, hu, ?_⟩
  have happend := skipBlanks_append_of_ne_nil (t := r) hne
  rw [List.append_assoc, List.singleton_append] at happend
  rw [happend, hu, List.cons_append]

/-- Behind a text that ends with a `}` and closes nowhere before, everything is left. -/
theorem braced?_through (seen : Text) {a r : Text} (h : ¬ ClosesEarly (a ++ ['}'])) :
    braced? seen (a ++ '}' :: ')' :: r) = some (seen.reverse ++ a ++ ['}'], r) := by
  induction a generalizing seen with
  | nil => simp [braced?, skipBlanks_of_not (show isBlank ')' = false by decide)]
  | cons c a ih =>
    rw [List.cons_append, closesEarly_cons, not_or] at h
    obtain ⟨hclose, hrest⟩ := h
    have hnext : braced? (c :: seen) (a ++ '}' :: ')' :: r)
        = some (seen.reverse ++ c :: a ++ ['}'], r) := by
      rw [ih (c :: seen) hrest]
      simp
    rw [List.cons_append, braced?]
    split
    · next hc =>
      -- The blanks behind this brace end before the last brace does, and not at a parenthesis.
      obtain ⟨d, u, hd, hskip⟩ := skipBlanks_append_brace a (')' :: r)
      have hne : d ≠ ')' := by
        rintro rfl
        exact hclose ⟨hc, by rw [hd]; rfl⟩
      rw [hskip]
      split
      · next heq => exact absurd (List.cons.inj heq).1 hne
      · exact hnext
    · exact hnext

theorem braced?_early (seen a : Text) {b rest : Text} (h : skipBlanks b = ')' :: rest) :
    ∃ arg left, braced? seen (a ++ '}' :: b) = some (arg, left) ∧
      arg.length ≤ seen.length + a.length + 1 := by
  induction a generalizing seen with
  | nil =>
    refine ⟨(('}' : Char) :: seen).reverse, rest, ?_, by simp⟩
    simp [braced?, h]
  | cons c a ih =>
    have hnext : ∃ arg left, braced? (c :: seen) (a ++ '}' :: b) = some (arg, left) ∧
        arg.length ≤ seen.length + (c :: a).length + 1 := by
      obtain ⟨arg, left, hr, hlen⟩ := ih (c :: seen)
      refine ⟨arg, left, hr, ?_⟩
      simp only [List.length_cons] at hlen ⊢
      omega
    rw [List.cons_append, braced?]
    split
    · split
      · refine ⟨_, _, rfl, ?_⟩
        simp only [List.length_reverse, List.length_cons]
        omega
      · exact hnext
    · exact hnext

/-! ## Whole directives -/

variable {path m r : Text}

theorem read?_inline (hne : path ≠ []) (hpath : '\'' ∉ path) :
    read? (inline path ('{' :: m ++ ['}']) ++ r)
      = (argument? ('{' :: (m ++ '}' :: ')' :: r))).map
          fun (arg, rest) => (⟨path, present arg⟩, rest) := by
  have hopen : dropPrefix? opening (inline path ('{' :: m ++ ['}']) ++ r)
      = some ('\'' :: (path ++ '\'' :: (", ".toList ++ '{' :: (m ++ '}' :: ')' :: r)))) := by
    rw [dropPrefix?_eq_some_iff]
    simp [inline]
  have hquote : isBlank '\'' = false := by decide
  have hcomma : isBlank ',' = false := by decide
  have hspace : ∀ t : Text, skipBlanks (' ' :: '{' :: t) = '{' :: t := by
    intro t
    rw [← skipBlanks_of_not (t := t) (show isBlank '{' = false by decide)]
    exact skipBlanks_append (w := [' ']) (by simp [Blanks, isBlank])
  have hclose : close? (", ".toList ++ '{' :: (m ++ '}' :: ')' :: r))
      = (argument? ('{' :: (m ++ '}' :: ')' :: r))).map
          fun (arg, rest) => (present arg, rest) := by
    show close? (',' :: ' ' :: '{' :: (m ++ '}' :: ')' :: r)) = _
    unfold close?
    rw [skipBlanks_of_not hcomma]
    simp only [hspace]
  simp only [read?, Option.bind_eq_bind, hopen, Option.bind_some, skipBlanks_of_not hquote,
    quoted?_eq (.inl rfl) hne hpath, hclose]
  cases argument? ('{' :: (m ++ '}' :: ')' :: r)) <;> rfl

theorem argument?_of_not_closesEarly (h : ¬ ClosesEarly ('{' :: m ++ ['}'])) :
    argument? ('{' :: (m ++ '}' :: ')' :: r)) = some ('{' :: m ++ ['}'], r) := by
  have hbraced : braced? [] ('{' :: m ++ '}' :: ')' :: r) = some ('{' :: m ++ ['}'], r) :=
    braced?_through [] h
  simpa [argument?] using Or.inl hbraced

theorem exists_argument_of_closesEarly (h : ClosesEarly ('{' :: m ++ ['}'])) (r : Text) :
    ∃ arg left, argument? ('{' :: (m ++ '}' :: ')' :: r)) = some (arg, left) ∧
      arg.length < ('{' :: m ++ ['}']).length := by
  obtain ⟨a, b, rest, hab, hb⟩ := h
  have hblank : skipBlanks b ≠ [] := by simp [hb]
  have hb' : skipBlanks (b ++ ')' :: r) = ')' :: (rest ++ ')' :: r) := by
    rw [skipBlanks_append_of_ne_nil hblank, hb]
    rfl
  have htext : ('{' : Char) :: (m ++ '}' :: ')' :: r) = a ++ '}' :: (b ++ ')' :: r) := by
    have := congrArg (· ++ ')' :: r) hab
    simpa using this
  obtain ⟨arg, left, harg, hlen⟩ := braced?_early [] a hb'
  refine ⟨arg, left, ?_, ?_⟩
  · rw [← htext] at harg
    simp [argument?, harg]
  · have hpos : 0 < b.length := List.length_pos_iff.2 fun hb0 => hblank (by rw [hb0]; rfl)
    rw [hab]
    simp only [List.length_append, List.length_cons, List.length_nil] at hlen ⊢
    omega

/-- The first directive that is found is the one at the front. -/
theorem eq_of_scan_eq {t rest : Text} {d : Directive} {place : Nat × Nat × Directive}
    {found : List (Nat × Nat × Directive)} (hread : read? t = some (d, rest))
    (hscan : scan t = place :: found) : place.2.2 = d := by
  obtain ⟨s, -, hs⟩ := pattern.exists_source hread
  rw [scan, pattern.located_of_some hread hs, List.cons.injEq] at hscan
  rw [← hscan.1]

/-- A text in braces is read whole, and what follows the directive is left to be read by itself,
exactly when it does not close early. -/
theorem scan_inline_of_text (hne : path ≠ []) (hpath : '\'' ∉ path) {c : Text}
    (hc : c = '{' :: m ++ ['}']) (r : Text) :
    scan (inline path c ++ r)
        = (0, (inline path c).byteSize, ⟨path, some c⟩)
          :: (scan r).map (Pattern.shift (inline path c).byteSize) ↔ ¬ ClosesEarly c := by
  subst hc
  have hread := read?_inline (m := m) (r := r) hne hpath
  constructor
  · intro hscan hearly
    -- What is read up to the early close is shorter than the object.
    obtain ⟨arg, left, hargument, hlt⟩ := exists_argument_of_closesEarly hearly r
    rw [hargument] at hread
    have hfirst := eq_of_scan_eq hread hscan
    have hsame : some ('{' :: m ++ ['}']) = present arg := congrArg Directive.context hfirst
    unfold present at hsame
    split at hsame
    · cases hsame
    · rw [Option.some.inj hsame] at hlt
      exact Nat.lt_irrefl _ hlt
  · intro hearly
    rw [argument?_of_not_closesEarly hearly] at hread
    exact pattern.located_of_some hread rfl

/-- A string of a JSON text has a `}` in it that blanks and a `)` follow. -/
def ClosesInString (c : Text) : Prop :=
  ∃ a b rest, c = a ++ '}' :: b ∧ skipBlanks b = ')' :: rest ∧ Json.Place.outside.after a ≠ .outside

theorem closesInString_iff {v : Json} {c : Text} (h : Json.parse c = .ok v) :
    ClosesInString c ↔ ClosesEarly c := by
  constructor
  · rintro ⟨a, b, rest, hc, hb, -⟩
    exact ⟨a, b, rest, hc, hb⟩
  · rintro ⟨a, b, rest, hc, hb⟩
    refine ⟨a, b, rest, hc, hb, ?_⟩
    -- The parenthesis lies in a string, and from outside no blank leads into one.
    intro hout
    obtain ⟨w, hw, hbw⟩ := exists_blanks b
    rw [hb] at hbw
    have hquote : '"' ∉ '}' :: w := by
      intro hmem
      rcases List.mem_cons.1 hmem with hbrace | hmem
      · exact absurd hbrace (by decide)
      · exact absurd (hw '"' hmem) (by decide)
    have hin := Json.not_outside_of_parse h (x := a ++ '}' :: w) (y := rest) (by simp [hc, hbw])
    rw [Json.Place.after_append, hout, Json.Place.after_outside hquote] at hin
    exact hin rfl

/-- A JSON object in a directive is read whole, and what follows the directive is left to be read by
itself, exactly when no string in the object has a `}` that blanks and a `)` follow. The context is
the object. -/
theorem scan_inline {members : List (Text × Json)} (hne : path ≠ []) (hpath : '\'' ∉ path)
    {c : Text} (hc : c = '{' :: m ++ ['}']) (hparse : Json.parse c = .ok (.object members))
    (r : Text) :
    (scan (inline path c ++ r)
        = (0, (inline path c).byteSize, ⟨path, some c⟩)
          :: (scan r).map (Pattern.shift (inline path c).byteSize) ↔ ¬ ClosesInString c) ∧
    Context.read (some c) = .parsed members := by
  rw [closesInString_iff hparse]
  refine ⟨scan_inline_of_text hne hpath hc r, ?_⟩
  simp only [Context.read, hparse]

/-- An object with an object in it, and with braces and parentheses in its strings. -/
theorem scan_inline_of_nested :
    let c := "\x7b\"a\": \x7b\"b\": \"\x7d (\x7b\"\x7d\x7d".toList
    scan (inline "p.html".toList c ++ ")@@include('q')".toList)
        = (0, (inline "p.html".toList c).byteSize, ⟨"p.html".toList, some c⟩)
          :: (scan ")@@include('q')".toList).map
            (Pattern.shift (inline "p.html".toList c).byteSize) ∧
    Context.read (some c)
      = .parsed [("a".toList, .object [("b".toList, .string "\x7d (\x7b".toList)])] := by
  intro c
  have hparse : Json.parse c
      = .ok (.object [("a".toList, .object [("b".toList, .string "\x7d (\x7b".toList)])]) := rfl
  have hopen : ¬ ClosesInString c := by
    rw [closesInString_iff hparse]
    decide
  have hpath : '\'' ∉ "p.html".toList := by decide
  have hbraces : c = '{' :: "\"a\": \x7b\"b\": \"\x7d (\x7b\"\x7d".toList ++ ['}'] := rfl
  obtain ⟨hscan, hread⟩ :=
    scan_inline (by decide) hpath hbraces hparse ")@@include('q')".toList
  exact ⟨hscan.2 hopen, hread⟩

/-- The text of a directive alone decides where its argument ends: a string with `})` in it cuts the
object short, although the object can be read. -/
theorem scan_inline_cut :
    Json.parse "\x7b\"k\":\"\x7d)\"\x7d".toList
      = .ok (.object [("k".toList, .string "\x7d)".toList)]) ∧
    ¬ ∃ found, scan (inline "a.html".toList "\x7b\"k\":\"\x7d)\"\x7d".toList)
      = (0, (inline "a.html".toList "\x7b\"k\":\"\x7d)\"\x7d".toList).byteSize,
          ⟨"a.html".toList, some "\x7b\"k\":\"\x7d)\"\x7d".toList⟩) :: found := by
  refine ⟨rfl, ?_⟩
  rintro ⟨found, h⟩
  have hread : read? (inline "a.html".toList "\x7b\"k\":\"\x7d)\"\x7d".toList)
      = some (⟨"a.html".toList, some "\x7b\"k\":\"\x7d".toList⟩, "\"\x7d)".toList) := rfl
  have hcontext := congrArg Directive.context (eq_of_scan_eq hread h)
  exact absurd (Option.some.inj hcontext) (by decide)

end Pagefold.Directive
