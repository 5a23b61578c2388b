import Pagefold.Directive
import Pagefold.Text.Letter

/-!
# References

A page refers to files in `href` and `src` attributes and in `url(...)` values. The markup is
never parsed: a reference is found by the text around it alone.

* `Reference.attributeValue`, `Reference.urlValue`: the patterns of the two forms;
* `Reference.all`: the references of a text, attributes first;
* `Reference.Kind`, `Reference.classify`, `Reference.bare`: what a reference points at, and the
  reference without query and fragment;
* `Reference.locals`: the local references of a text, in strictly ascending order.
-/

namespace Pagefold.Reference

open Text

def isQuote (c : Char) : Bool := c == '\'' || c == '"'

/-! ## Attributes -/

/-- What follows an equals sign with blanks around it and then a quote. -/
def assigned? (t : Text) : Option Text :=
  match skipBlanks t with
  | '=' :: t =>
    match skipBlanks t with
    | q :: t => if isQuote q then some t else none
    | [] => none
  | _ => none

/-- The value at the front of a text, which a quote ends, and what follows the quote. -/
def quotedValue? (t : Text) : Option (Text × Text) :=
  match t.takeWhile (!isQuote ·), t.dropWhile (!isQuote ·) with
  | c :: value, _ :: rest => some (c :: value, rest)
  | _, _ => none

/-- An attribute `href` or `src` in any letter case: its value, and what follows. -/
def attribute? (t : Text) : Option (Text × Text) := do
  let t ← dropFolded? "href".toList t <|> dropFolded? "src".toList t
  quotedValue? (← assigned? t)

/-! ## Values of `url(...)` -/

def isUrlChar (c : Char) : Bool := c != ')' && !isQuote c

/-- A text without one quote at its front. -/
def skipQuote : Text → Text
  | [] => []
  | c :: t => if isQuote c then t else c :: t

/-- The value at the front of a text, up to the closing parenthesis, and what follows that. -/
def urlValue? (t : Text) : Option (Text × Text) :=
  match t.takeWhile isUrlChar, skipBlanks (skipQuote (t.dropWhile isUrlChar)) with
  | c :: value, ')' :: rest => some (c :: value, rest)
  | _, _ => none

/-- A `url(...)` in any letter case: its value, and what follows. Leading blanks are skipped; where
nothing after them can be the value, the last of them starts it. -/
def url? (t : Text) : Option (Text × Text) := do
  let t ← dropFolded? "url(".toList t
  let r := skipBlanks t
  urlValue? (skipQuote r) <|> (do urlValue? ((← (t.takeWhile isBlank).getLast?) :: r))

/-! ## The patterns -/

theorem dropFolded?_suffix {start t rest : Text} (h : dropFolded? start t = some rest) :
    rest <:+ t ∧ rest.length + start.length = t.length := by
  induction start generalizing t with
  | nil => simp_all [dropFolded?]
  | cons a start ih =>
    cases t with
    | nil => simp [dropFolded?] at h
    | cons c t =>
      simp only [dropFolded?] at h
      split at h
      · obtain ⟨h₁, h₂⟩ := ih h
        refine ⟨h₁.trans (List.suffix_cons _ _), ?_⟩
        simp only [List.length_cons]
        omega
      · simp at h

theorem assigned?_suffix {t rest : Text} (h : assigned? t = some rest) : rest <:+ t := by
  have hb := skipBlanks_suffix t
  unfold assigned? at h
  split at h
  · next t₁ hs =>
    have hc := skipBlanks_suffix t₁
    rw [hs] at hb
    split at h
    · next hq =>
      rw [hq] at hc
      split at h
      · cases h
        exact (Directive.suffix_of_cons_suffix hc).trans (Directive.suffix_of_cons_suffix hb)
      · simp at h
    · simp at h
  · simp at h

theorem quotedValue?_suffix {t value rest : Text} (h : quotedValue? t = some (value, rest)) :
    rest <:+ t := by
  unfold quotedValue? at h
  split at h
  · next hs =>
    cases h
    have := List.dropWhile_suffix (l := t) (!isQuote ·)
    rw [hs] at this
    exact Directive.suffix_of_cons_suffix this
  · simp at h

theorem attribute?_proper {t value rest : Text} (h : attribute? t = some (value, rest)) :
    rest <:+ t ∧ rest.length < t.length := by
  simp only [attribute?, Option.bind_eq_bind, Option.bind_eq_some_iff] at h
  obtain ⟨t₁, h₁, t₂, h₂, h₃⟩ := h
  have hs := (quotedValue?_suffix h₃).trans (assigned?_suffix h₂)
  have hl := hs.length_le
  simp only [Option.orElse_eq_orElse, Option.orElse_eq_or, Option.or_eq_some_iff] at h₁
  rcases h₁ with h₁ | ⟨-, h₁⟩ <;> obtain ⟨h₁, h₄⟩ := dropFolded?_suffix h₁ <;>
    refine ⟨hs.trans h₁, ?_⟩ <;> simp at h₄ <;> omega

theorem skipQuote_suffix (t : Text) : skipQuote t <:+ t := by
  cases t with
  | nil => exact List.suffix_refl _
  | cons c t =>
    simp only [skipQuote]
    split
    · exact List.suffix_cons _ _
    · exact List.suffix_refl _

theorem urlValue?_suffix {t value rest : Text} (h : urlValue? t = some (value, rest)) :
    rest <:+ t ∧ rest.length < t.length := by
  unfold urlValue? at h
  split at h
  · next v hv hs =>
    cases h
    have hr := (skipBlanks_suffix _).trans
      ((skipQuote_suffix _).trans (List.dropWhile_suffix (l := t) isUrlChar))
    rw [hs] at hr
    have hl := hr.length_le
    simp only [List.length_cons] at hl
    exact ⟨Directive.suffix_of_cons_suffix hr, by omega⟩
  · simp at h

theorem url?_proper {t value rest : Text} (h : url? t = some (value, rest)) :
    rest <:+ t ∧ rest.length < t.length := by
  simp only [url?, Option.bind_eq_bind, Option.bind_eq_some_iff] at h
  obtain ⟨t₁, h₁, h₂⟩ := h
  obtain ⟨h₁, h₃⟩ := dropFolded?_suffix h₁
  simp only [Option.orElse_eq_orElse, Option.orElse_eq_or, Option.or_eq_some_iff,
    Option.bind_eq_some_iff] at h₂
  have hs : rest <:+ t₁ := by
    rcases h₂ with h₂ | ⟨-, b, hb, h₂⟩
    · exact (urlValue?_suffix h₂).1.trans ((skipQuote_suffix _).trans (skipBlanks_suffix _))
    · obtain ⟨h₄, h₅⟩ := urlValue?_suffix h₂
      rcases List.suffix_cons_iff.1 h₄ with h₆ | h₆
      · simp [h₆] at h₅
      · exact h₆.trans (skipBlanks_suffix _)
  have hl := hs.length_le
  refine ⟨hs.trans h₁, ?_⟩
  simp at h₃
  omega

def attributeValue : Pattern Text where
  read? := attribute?
  proper := attribute?_proper

def urlValue : Pattern Text where
  read? := url?
  proper := url?_proper

/-- The references of a text: attribute values, then `url(...)` values. -/
def all (t : Text) : List Text := attributeValue.hits t ++ urlValue.hits t

/-! ## Kinds -/

inductive Kind where
  /-- Another site, or data in the reference itself. -/
  | external
  /-- A place in the page, or nothing. -/
  | fragment
  /-- A file that should be on the disk. -/
  | file
deriving Repr, DecidableEq

def externalStarts : List Text :=
  ["http://".toList, "https://".toList, "//".toList, "data:".toList, "mailto:".toList,
    "tel:".toList, "javascript:".toList]

/-- A reference up to its query or fragment. -/
def bare (r : Text) : Text := r.takeWhile fun c => c != '?' && c != '#'

/-- The kind of a reference; blanks around it and the case of ASCII letters do not count. -/
def classify (r : Text) : Kind :=
  let lower := lowerAscii (trim r)
  if externalStarts.any (beginsWith · lower) then .external
  else if bare lower = [] then .fragment
  else .file

/-- The local references of a text without query and fragment, strictly ascending. -/
def locals (t : Text) : List Text :=
  sortedUnique (((all t).filter (classify · = .file)).map bare)

end Pagefold.Reference
