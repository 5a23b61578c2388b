import Pagefold.Reference

/-!
# Pointing references elsewhere

References that start with a folder name are made to start with a prefix instead. Here the case of
letters counts.

* `Reference.attributeStart`, `Reference.urlStart`: the patterns of a reference up to the folder
  name and the slash behind it;
* `Reference.redirect`: the text with all such references changed.
-/

namespace Pagefold.Reference

open Text

def under? (folder t : Text) : Option Text := dropPrefix? (folder ++ ['/']) t

/-- An attribute up to and with its opening quote, when the folder follows; and what follows the
folder. -/
def attributeStart? (folder t : Text) : Option (Text × Text) := do
  let r ← dropPrefix? "href".toList t <|> dropPrefix? "src".toList t
  let value ← assigned? r
  return (t.take (t.length - value.length), ← under? folder value)

/-- The opening quote of a `url(...)`, if there is one, when the folder follows; and what follows
the folder. As many leading blanks as can be are skipped. -/
def urlStartAt? (folder : Text) : Text → Option (Text × Text)
  | [] => (under? folder []).map ([], ·)
  | c :: t =>
    let here :=
      (if isQuote c then (under? folder t).map ([c], ·) else none)
        <|> (under? folder (c :: t)).map ([], ·)
    if isBlank c then urlStartAt? folder t <|> here else here

/-- The opening quote of a `url(...)` whose value starts with the folder; and what follows the
folder. -/
def urlStart? (folder t : Text) : Option (Text × Text) := do
  urlStartAt? folder (← dropPrefix? "url(".toList t)

/-! ## The patterns -/

theorem under?_suffix {folder t rest : Text} (h : under? folder t = some rest) :
    rest <:+ t := by
  rw [under?, dropPrefix?_eq_some_iff] at h
  exact h ▸ List.suffix_append _ _

theorem attributeStart?_proper {folder t v rest : Text}
    (h : attributeStart? folder t = some (v, rest)) : rest <:+ t ∧ rest.length < t.length := by
  simp only [attributeStart?, Option.bind_eq_bind, Option.bind_eq_some_iff] at h
  obtain ⟨t₁, h₁, t₂, h₂, t₃, h₃, h⟩ := h
  cases h
  have hs := (under?_suffix h₃).trans (assigned?_suffix h₂)
  have hl := hs.length_le
  simp only [Option.orElse_eq_orElse, Option.orElse_eq_or, Option.or_eq_some_iff,
    dropPrefix?_eq_some_iff] at h₁
  rcases h₁ with h₁ | ⟨-, h₁⟩ <;> rw [h₁] <;>
    refine ⟨hs.trans (List.suffix_append _ _), ?_⟩ <;> simp <;> omega

theorem urlStartAt?_suffix {folder t v rest : Text}
    (h : urlStartAt? folder t = some (v, rest)) : rest <:+ t := by
  induction t with
  | nil =>
    obtain ⟨r, h₁, h₂⟩ := Option.map_eq_some_iff.1 h
    cases h₂
    exact under?_suffix h₁
  | cons c t ih =>
    have here {v rest : Text} (h : ((if isQuote c then (under? folder t).map ([c], ·) else none)
        <|> (under? folder (c :: t)).map ([], ·)) = some (v, rest)) : rest <:+ c :: t := by
      simp only [Option.orElse_eq_orElse, Option.orElse_eq_or, Option.or_eq_some_iff] at h
      rcases h with h | ⟨-, h⟩
      · split at h
        · obtain ⟨r, h₁, h₂⟩ := Option.map_eq_some_iff.1 h
          cases h₂
          exact (under?_suffix h₁).trans (List.suffix_cons _ _)
        · simp at h
      · obtain ⟨r, h₁, h₂⟩ := Option.map_eq_some_iff.1 h
        cases h₂
        exact under?_suffix h₁
    simp only [urlStartAt?] at h
    split at h
    · rw [Option.orElse_eq_orElse, Option.orElse_eq_or, Option.or_eq_some_iff] at h
      rcases h with h | ⟨-, h⟩
      · exact (ih h).trans (List.suffix_cons _ _)
      · exact here h
    · exact here h

theorem urlStart?_proper {folder t v rest : Text}
    (h : urlStart? folder t = some (v, rest)) : rest <:+ t ∧ rest.length < t.length := by
  simp only [urlStart?, Option.bind_eq_bind, Option.bind_eq_some_iff,
    dropPrefix?_eq_some_iff] at h
  obtain ⟨t₁, h₁, h₂⟩ := h
  have hs := urlStartAt?_suffix h₂
  have hl := hs.length_le
  rw [h₁]
  refine ⟨hs.trans (List.suffix_append _ _), ?_⟩
  simp
  omega

def attributeStart (folder : Text) : Pattern Text where
  read? := attributeStart? folder
  proper := attributeStart?_proper

/-- `url(...)` values that start with the folder: the opening quote. -/
def urlStart (folder : Text) : Pattern Text where
  read? := urlStart? folder
  proper := urlStart?_proper

/-! ## Changing a text -/

def folderName (dirName : Text) : Text := (dirName.reverse.dropWhile (· == '/')).reverse

/-- The text with every reference under a folder starting with the prefix instead: attributes
first, and then `url(...)` values in the outcome. -/
def redirect (dirName start t : Text) : Text :=
  let folder := folderName dirName
  (urlStart folder).replace (fun quote => "url(".toList ++ quote ++ start)
    ((attributeStart folder).replace (· ++ start) t)

end Pagefold.Reference
