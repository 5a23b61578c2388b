import Pagefold.Json.Parser

/-!
# Strings in JSON texts

Quotes and backslashes alone tell where the strings of a JSON text are. Between its strings a text
that can be read has no parenthesis.

* `Json.Place`, `Json.Place.after`: where the end of a text lies;
* `Json.Passed`: what a reader takes off the front starts and ends between strings, and has no `)`
  between strings;
* `Json.passed_readValue`: every reader takes such a text;
* `Json.not_outside_of_parse`: in a text that can be read, every `)` lies in a string.
-/

namespace Pagefold.Json

/-- Where a place of a text lies. -/
inductive Place where
  | outside
  | inside
  /-- In a string, behind a backslash that takes the next character with it. -/
  | escaped
deriving Repr, DecidableEq

namespace Place

def next : Place → Char → Place
  | outside, c => if c = '"' then inside else outside
  | inside, c => if c = '"' then outside else if c = '\\' then escaped else inside
  | escaped, _ => inside

def after (p : Place) (t : Text) : Place := t.foldl next p

@[simp] theorem after_nil (p : Place) : p.after [] = p := rfl

@[simp] theorem after_cons (p : Place) (c : Char) (t : Text) :
    p.after (c :: t) = (p.next c).after t := rfl

@[simp] theorem after_append (p : Place) (s t : Text) :
    p.after (s ++ t) = (p.after s).after t := List.foldl_append

theorem next_outside {c : Char} (h : c ≠ '"') : outside.next c = outside := by simp [next, h]

theorem after_outside {t : Text} (h : '"' ∉ t) : outside.after t = outside := by
  induction t with
  | nil => rfl
  | cons c t ih =>
    simp only [List.mem_cons, not_or] at h
    rw [after_cons, next_outside (Ne.symm h.1), ih h.2]

end Place

/-! ## What readers take -/

/-- A text that starts between strings ends there, and every `)` in it lies in a string. -/
def Quiet (a : Text) : Prop :=
  Place.outside.after a = .outside ∧ ∀ x y, a = x ++ ')' :: y → Place.outside.after x ≠ .outside

theorem quiet_nil : Quiet [] := ⟨rfl, by simp⟩

theorem Quiet.append {a b : Text} (ha : Quiet a) (hb : Quiet b) : Quiet (a ++ b) := by
  refine ⟨by rw [Place.after_append, ha.1, hb.1], ?_⟩
  intro x y hxy
  rcases List.append_eq_append_iff.1 hxy with ⟨z, rfl, hz⟩ | ⟨z, rfl, hz⟩
  · rw [Place.after_append, ha.1]
    exact hb.2 z y hz
  · cases z with
    | nil =>
      rw [List.append_nil] at ha
      rw [ha.1]
      exact hb.2 [] y hz.symm
    | cons c z =>
      obtain ⟨rfl, -⟩ := List.cons.inj hz
      exact ha.2 x z rfl

/-- A character that is neither a quote nor a `)`. -/
def IsQuiet (c : Char) : Prop := c ≠ '"' ∧ c ≠ ')'

instance (c : Char) : Decidable (IsQuiet c) := inferInstanceAs (Decidable (_ ∧ _))

theorem quiet_singleton {c : Char} (h : IsQuiet c) : Quiet [c] := by
  refine ⟨Place.next_outside h.1, ?_⟩
  intro x y hxy
  cases x with
  | nil => exact absurd (List.cons.inj hxy).1 h.2
  | cons d x => simp at hxy

/-- A reader took a quiet text off the front. -/
def Passed (t rest : Text) : Prop := ∃ a, t = a ++ rest ∧ Quiet a

variable {t u rest : Text}

theorem Passed.refl (t : Text) : Passed t t := ⟨[], rfl, quiet_nil⟩

theorem Passed.trans (h : Passed t u) (h' : Passed u rest) : Passed t rest := by
  obtain ⟨a, rfl, ha⟩ := h
  obtain ⟨b, rfl, hb⟩ := h'
  exact ⟨a ++ b, by rw [List.append_assoc], ha.append hb⟩

theorem Passed.cons {c : Char} (hc : IsQuiet c) (h : Passed t rest) : Passed (c :: t) rest := by
  obtain ⟨a, rfl, ha⟩ := h
  exact ⟨c :: a, rfl, (quiet_singleton hc).append ha⟩

theorem passed_dropWhile {p : Char → Bool} (hp : ∀ c, p c = true → IsQuiet c) (t : Text) :
    Passed t (t.dropWhile p) := by
  induction t with
  | nil => exact .refl _
  | cons c t ih =>
    rw [List.dropWhile_cons]
    split
    · next hc => exact ih.cons (hp c hc)
    · exact .refl _

theorem passed_skipSpace (t : Text) : Passed t (skipSpace t) := by
  refine passed_dropWhile (fun c hc => ?_) t
  constructor <;> rintro rfl <;> revert hc <;> decide

theorem passed_of_skipSpace {c : Char} (hc : IsQuiet c) (h : skipSpace t = c :: rest) :
    Passed t rest := by
  have hs := passed_skipSpace t
  rw [h] at hs
  exact hs.trans ((Passed.refl rest).cons hc)

/-- Readers in turn: the first one has answered, and the next one behind it. -/
theorem ok_of_bind {α β : Type} {x : Except Fault α} {f : α → Except Fault β} {b : β}
    (h : x >>= f = .ok b) : ∃ a, x = .ok a ∧ f a = .ok b := by
  cases x with
  | error e => cases h
  | ok a => exact ⟨a, rfl, h⟩

/-! ## Numbers and names -/

theorem isQuiet_of_isDigit {c : Char} (h : c.isDigit = true) : IsQuiet c := by
  constructor <;> rintro rfl <;> revert h <;> decide

theorem isQuiet_of_digit? {c : Char} {n : Nat} (h : digit? c = some n) : IsQuiet c := by
  unfold digit? at h
  split at h
  · next hc => exact isQuiet_of_isDigit hc
  · cases h

theorem passed_skipDigits (t : Text) : Passed t (skipDigits t) :=
  passed_dropWhile (fun _ => isQuiet_of_isDigit) t

theorem passed_digitsWithin (limit n count : Nat) (t : Text) :
    Passed t (digitsWithin limit n count t).2.2 := by
  induction t generalizing n count with
  | nil => exact .refl _
  | cons c t ih =>
    unfold digitsWithin
    split
    · next d hd =>
      split
      · exact (ih _ _).cons (isQuiet_of_digit? hd)
      · exact .refl _
    · exact .refl _

theorem finish_rest {negative : Bool} {digits : Nat} {exponent : Int} {n : Number}
    (h : finish negative digits exponent t = .ok (n, rest)) : rest = t := by
  unfold finish at h
  split at h <;> cases h
  rfl

theorem passed_readExponent {negative : Bool} {digits : Nat} {exponent : Int} {n : Number}
    (h : readExponent negative digits exponent t = .ok (n, rest)) : Passed t rest := by
  unfold readExponent at h
  split at h
  next up u hu =>
    have hsign : Passed t u := by
      split at hu <;> cases hu
      · exact (Passed.refl u).cons (by decide)
      · exact (Passed.refl u).cons (by decide)
      · exact .refl _
    refine hsign.trans ?_
    split at h
    · cases h
    · next c u =>
      split at h
      · cases h
      · next e hd =>
        have hpass := passed_digitsWithin maxExponent e 0 u
        refine Passed.cons (isQuiet_of_digit? hd) (hpass.trans ?_)
        simp only at h
        split at h
        · split at h
          · cases h
          · rw [finish_rest h]
            exact passed_skipDigits _
        · rw [finish_rest h]
          exact .refl _

theorem passed_readTail {negative : Bool} {digits : Nat} {exponent : Int} {n : Number}
    (h : readTail negative digits exponent t = .ok (n, rest)) : Passed t rest := by
  unfold readTail at h
  split at h
  · exact (passed_readExponent h).cons (by decide)
  · exact (passed_readExponent h).cons (by decide)
  · rw [finish_rest h]
    exact .refl _

theorem passed_readFraction {negative : Bool} {digits : Nat} {exponent : Int} {n : Number}
    (h : readFraction negative digits exponent t = .ok (n, rest)) : Passed t rest := by
  unfold readFraction at h
  have hpass := passed_digitsWithin maxDigits digits 0 t
  simp only at h
  split at h
  · cases h
  · exact hpass.trans ((passed_skipDigits _).trans (passed_readTail h))

theorem passed_readInteger {negative : Bool} {digits : Nat} {n : Number}
    (h : readInteger negative digits t = .ok (n, rest)) : Passed t rest := by
  unfold readInteger at h
  have hpass := (passed_digitsWithin maxDigits digits 0 t).trans (passed_skipDigits _)
  refine hpass.trans ?_
  simp only at h
  split at h
  · next heq =>
    rw [heq]
    exact (passed_readFraction h).cons (by decide)
  · next heq =>
    rw [heq]
    exact (passed_readExponent h).cons (by decide)
  · next heq =>
    rw [heq]
    exact (passed_readExponent h).cons (by decide)
  · split at h
    · cases h
      exact .refl _
    · rw [finish_rest h]
      exact .refl _

theorem passed_readNumber {negative : Bool} {n : Number}
    (h : readNumber negative t = .ok (n, rest)) : Passed t rest := by
  unfold readNumber at h
  split at h
  · cases h
  · split at h
    · cases h
    · next hd =>
      split at h
      · cases h
      · exact (passed_readInteger h).cons (isQuiet_of_digit? hd)
    · next hd => exact (passed_readInteger h).cons (isQuiet_of_digit? hd)

theorem passed_readName {value v : Json} {name : Text} (hname : ∀ c ∈ name, IsQuiet c)
    (h : readName value name t = .ok (v, rest)) : Passed t rest := by
  induction name generalizing t with
  | nil =>
    cases h
    exact .refl _
  | cons a name ih =>
    cases t with
    | nil => cases h
    | cons c t =>
      rw [readName] at h
      split at h
      · next hac =>
        exact (ih (fun x hx => hname x (List.mem_cons_of_mem _ hx)) h).cons
          (hac ▸ hname a List.mem_cons_self)
      · cases h

/-! ## Strings -/

/-- A text that starts in a string ends in it, and does not leave it before. -/
def Within (a : Text) : Prop :=
  Place.inside.after a = .inside ∧ ∀ x y, a = x ++ y → Place.inside.after x ≠ .outside

theorem within_nil : Within [] := by
  refine ⟨rfl, ?_⟩
  intro x y hxy
  obtain ⟨rfl, -⟩ := List.append_eq_nil_iff.1 hxy.symm
  decide

theorem Within.cons {c : Char} {a : Text} (hquote : c ≠ '"') (hslash : c ≠ '\\')
    (h : Within a) : Within (c :: a) := by
  have hc : Place.inside.next c = .inside := by simp [Place.next, hquote, hslash]
  refine ⟨by rw [Place.after_cons, hc, h.1], ?_⟩
  intro x y hxy
  cases x with
  | nil => decide
  | cons d x =>
    simp only [List.cons_append, List.cons.injEq] at hxy
    obtain ⟨rfl, hxy⟩ := hxy
    rw [Place.after_cons, hc]
    exact h.2 x y hxy

/-- A backslash takes the next character with it. -/
theorem Within.escape {c : Char} {a : Text} (h : Within a) : Within ('\\' :: c :: a) := by
  refine ⟨h.1, ?_⟩
  intro x y hxy
  match x with
  | [] => decide
  | [d] =>
    simp only [List.cons_append, List.cons.injEq] at hxy
    rw [← hxy.1]
    decide
  | d :: e :: x =>
    simp only [List.cons_append, List.cons.injEq] at hxy
    rw [← hxy.1]
    exact h.2 x y hxy.2.2

theorem Within.append {a b : Text} (ha : Within a) (hb : Within b) : Within (a ++ b) := by
  refine ⟨by rw [Place.after_append, ha.1, hb.1], ?_⟩
  intro x y hxy
  rcases List.append_eq_append_iff.1 hxy with ⟨z, rfl, hz⟩ | ⟨z, hz, -⟩
  · rw [Place.after_append, ha.1]
    exact hb.2 z y hz
  · exact ha.2 x z hz

theorem Within.quiet {a : Text} (h : Within a) : Quiet ('"' :: (a ++ ['"'])) := by
  have hstart : Place.outside.next '"' = .inside := rfl
  constructor
  · rw [Place.after_cons, hstart, Place.after_append, h.1]
    rfl
  · intro x y hxy
    cases x with
    | nil =>
      rw [List.nil_append, List.cons.injEq] at hxy
      exact absurd hxy.1 (by decide)
    | cons d x =>
      simp only [List.cons_append, List.cons.injEq] at hxy
      rw [← hxy.1, Place.after_cons, hstart]
      rcases List.append_eq_append_iff.1 hxy.2 with ⟨z, rfl, hz⟩ | ⟨z, hz, -⟩
      · -- Only the closing quote follows the string, and it is no parenthesis.
        cases z with
        | nil => simp at hz
        | cons e z => simp at hz
      · exact h.2 x z hz

theorem within_of_hexValue? {c : Char} {n : Nat} {a : Text} (hc : hexValue? c = some n)
    (h : Within a) : Within (c :: a) := by
  refine h.cons ?_ ?_ <;> rintro rfl <;> simp [hexValue?] at hc

theorem within_of_hexFour {n : Nat} (h : hexFour t = .ok n) : Within (t.take 4) := by
  unfold hexFour at h
  split at h
  · cases h
  · split at h
    · split at h
      · next ha hb hc hd =>
        exact within_of_hexValue? ha <| within_of_hexValue? hb <| within_of_hexValue? hc <|
          within_of_hexValue? hd within_nil
      · cases h
    · cases h

theorem within_of_unicodeEscape {c : Char} {n : Nat} (h : unicodeEscape t = .ok (c, n)) :
    Within (t.take n) := by
  obtain ⟨m, hm, h⟩ := ok_of_bind h
  have hfour := within_of_hexFour hm
  split at h
  · cases h
  · split at h
    · cases h
      exact hfour
    · split at h
      · cases h
      · next r hr =>
        split at h
        · cases h
        · next r =>
          obtain ⟨k, hk, h⟩ := ok_of_bind h
          split at h
          · cases h
          · have hn : n = 10 := (Prod.mk.inj (Except.ok.inj h)).2.symm
            -- Two escapes: four digits, a backslash with its `u`, and four more digits.
            have htake : t.take (4 + 6) = t.take 4 ++ '\\' :: 'u' :: r.take 4 := by
              rw [List.take_add, hr]
              rfl
            rw [hn, htake]
            exact hfour.append (within_of_hexFour hk).escape
        · cases h
      · cases h

theorem within_of_escape {c : Char} {n : Nat} (h : escape t = .ok (c, n)) :
    Within ('\\' :: t.take n) := by
  unfold escape at h
  split at h
  case h_10 t =>
    cases hu : unicodeEscape t with
    | error e =>
      rw [hu] at h
      cases h
    | ok m =>
      rw [hu] at h
      cases h
      exact (within_of_unicodeEscape hu).escape
  all_goals
    cases h
    try exact within_nil.escape

theorem within_of_readString {skip : Nat} {done s : Text}
    (h : readString skip done t = .ok (s, rest)) :
    ∃ a, t.drop skip = a ++ '"' :: rest ∧ Within a := by
  -- By induction on the text; the first `skip` characters belong to the last escape.
  induction t generalizing skip done with
  | nil => cases h
  | cons c t ih =>
    cases skip with
    | succ k => exact ih h
    | zero =>
      simp only [readString] at h
      split at h
      · next hc =>
        cases h
        exact ⟨[], by rw [hc]; rfl, within_nil⟩
      · next hquote =>
        split at h
        · next hc =>
          split at h
          · next d n hn =>
            obtain ⟨a, ha, hwithin⟩ := ih h
            refine ⟨'\\' :: t.take n ++ a, ?_, (within_of_escape hn).append hwithin⟩
            rw [List.append_assoc, ← ha, List.cons_append, List.take_append_drop, hc]
            rfl
          · cases h
        · next hslash =>
          split at h
          · cases h
          · obtain ⟨a, ha, hwithin⟩ := ih h
            exact ⟨c :: a, congrArg (c :: ·) ha, hwithin.cons hquote hslash⟩

theorem passed_readString {s : Text} (h : readString 0 [] t = .ok (s, rest)) :
    Passed ('"' :: t) rest := by
  obtain ⟨a, ha, hwithin⟩ := within_of_readString h
  refine ⟨'"' :: (a ++ ['"']), ?_, hwithin.quiet⟩
  rw [List.drop_zero] at ha
  simp [ha]

/-! ## Values -/

/-- What a reader of values takes is quiet. -/
def Passing (value : Text → Except Fault (Json × Text)) : Prop :=
  ∀ t v rest, value t = .ok (v, rest) → Passed t rest

variable {value : Text → Except Fault (Json × Text)} {v : Json}

theorem passed_readItems (hvalue : Passing value) {budget : Nat} {done : List Json}
    (h : readItems value budget done t = .ok (v, rest)) : Passed t rest := by
  induction budget generalizing done t with
  | zero => cases h
  | succ budget ih =>
    rw [readItems] at h
    obtain ⟨m, hv, h⟩ := ok_of_bind h
    refine (hvalue t m.1 m.2 hv).trans ?_
    simp only at h
    split at h
    · cases h
    · next hs =>
      cases h
      exact passed_of_skipSpace (by decide) hs
    · next u hs =>
      refine (passed_of_skipSpace (by decide) hs).trans ?_
      split at h
      · cases h
      · cases h
      · exact (passed_skipSpace u).trans (ih h)
    · cases h

theorem passed_readArray (hvalue : Passing value) (h : readArray value t = .ok (v, rest)) :
    Passed t rest := by
  unfold readArray at h
  split at h
  · cases h
  · next hs =>
    cases h
    exact passed_of_skipSpace (by decide) hs
  · exact (passed_skipSpace t).trans (passed_readItems hvalue h)

theorem passed_readColon (h : readColon t = .ok rest) : Passed t rest := by
  unfold readColon at h
  split at h
  · cases h
  · next hs =>
    cases h
    exact passed_of_skipSpace (by decide) hs
  · cases h

theorem passed_readMembers (hvalue : Passing value) {budget : Nat} {done : List (Text × Json)}
    (h : readMembers value budget done ('"' :: t) = .ok (v, rest)) : Passed ('"' :: t) rest := by
  induction budget generalizing done t with
  | zero => cases h
  | succ budget ih =>
    rw [readMembers, List.drop_one, List.tail_cons] at h
    obtain ⟨n, hn, h⟩ := ok_of_bind h
    obtain ⟨u, hc, h⟩ := ok_of_bind h
    obtain ⟨m, hv, h⟩ := ok_of_bind h
    have hmember := (passed_readString hn).trans ((passed_readColon hc).trans (hvalue u m.1 m.2 hv))
    refine hmember.trans ?_
    simp only at h
    split at h
    · cases h
    · next hs =>
      cases h
      exact passed_of_skipSpace (by decide) hs
    · next w hs =>
      refine (passed_of_skipSpace (by decide) hs).trans ?_
      split at h
      · cases h
      · next hw =>
        have hpass := passed_skipSpace w
        rw [hw] at hpass
        exact hpass.trans (ih h)
      · cases h
      · cases h
    · cases h

theorem passed_readObject (hvalue : Passing value) (h : readObject value t = .ok (v, rest)) :
    Passed t rest := by
  have hpass := passed_skipSpace t
  unfold readObject at h
  split at h
  · cases h
  · next hs =>
    cases h
    exact passed_of_skipSpace (by decide) hs
  · next hs =>
    rw [hs] at hpass
    exact hpass.trans (passed_readMembers hvalue h)
  · cases h

theorem passed_map {α : Type} {f : α → Json} {read : Except Fault (α × Text)}
    (hread : ∀ a, read = .ok (a, rest) → Passed t rest)
    (h : read.map (fun (a, rest) => (f a, rest)) = .ok (v, rest)) : Passed t rest := by
  cases read with
  | error e => cases h
  | ok m =>
    cases h
    exact hread m.1 rfl

theorem isQuiet_of_mem {c : Char} {t : Text} (ht : t.all fun c => c != '"' && c != ')')
    (h : c ∈ t) : IsQuiet c := by
  have := List.all_eq_true.1 ht c h
  simpa [IsQuiet] using this

theorem passed_readValue (depth : Nat) : Passing (readValue depth) := by
  intro t v rest h
  refine (passed_skipSpace t).trans ?_
  unfold readValue at h
  split at h
  · cases h
  · next u hs =>
    rw [hs]
    exact (passed_readName (fun c => isQuiet_of_mem (by decide)) h).cons (by decide)
  · next u hs =>
    rw [hs]
    exact (passed_readName (fun c => isQuiet_of_mem (by decide)) h).cons (by decide)
  · next u hs =>
    rw [hs]
    exact (passed_readName (fun c => isQuiet_of_mem (by decide)) h).cons (by decide)
  · next u hs =>
    rw [hs]
    exact (passed_map (fun _ => passed_readNumber) h).cons (by decide)
  · next u hs =>
    rw [hs]
    exact passed_map (fun _ => passed_readString) h
  · next u hs =>
    rw [hs]
    cases depth with
    | zero => cases h
    | succ d => exact (passed_readArray (passed_readValue d) h).cons (by decide)
  · next u hs =>
    rw [hs]
    cases depth with
    | zero => cases h
    | succ d => exact (passed_readObject (passed_readValue d) h).cons (by decide)
  · next c u hs =>
    rw [hs]
    split at h
    · exact passed_map (fun _ => passed_readNumber) h
    · cases h

/-- In a text that can be read, every `)` lies in a string. -/
theorem not_outside_of_parse (h : parse t = .ok v) {x y : Text} (hxy : t = x ++ ')' :: y) :
    Place.outside.after x ≠ .outside := by
  obtain ⟨m, hv, h⟩ := ok_of_bind h
  simp only at h
  split at h
  · next hs =>
    have hend := passed_skipSpace m.2
    rw [hs] at hend
    obtain ⟨a, ha, hquiet⟩ := (passed_readValue maxDepth t m.1 m.2 hv).trans hend
    rw [List.append_nil] at ha
    exact hquiet.2 x y (ha ▸ hxy)
  · cases h

end Pagefold.Json
