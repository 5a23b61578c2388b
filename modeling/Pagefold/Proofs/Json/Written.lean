import Mathlib.Data.List.Infix
import Pagefold.Json.Value

/-!
# What is written for a value

* `Json.Number.at_not_mem_text`: no number is written with an `@`;
* `Json.Holds`: the strings that stand somewhere in a value, names of members among them;
* `Json.Holds.quoted_infix`: each of them is written, in quotes;
* `Json.flatMap_escaped`: most characters stand for themselves there.
-/

namespace Pagefold

/-! ## Numbers -/

theorem Text.at_not_mem_ofNat (n : Nat) : '@' ∉ Text.ofNat n := by
  intro h
  have := Nat.isDigit_of_mem_toDigits (by decide) (by decide) h
  revert this
  decide

namespace Json

theorem Number.at_not_mem_decimalText (d : Decimal) : '@' ∉ decimalText d := by
  have hdigits := Text.at_not_mem_ofNat
  have htake (n k : Nat) : '@' ∉ (Text.ofNat n).take k :=
    fun h => hdigits n (List.mem_of_mem_take h)
  have hdrop (n k : Nat) : '@' ∉ (Text.ofNat n).drop k :=
    fun h => hdigits n (List.mem_of_mem_drop h)
  unfold decimalText
  simp only
  split
  · split
    · simp [hdigits]
    · split
      · simp [hdigits]
      · simp [htake, hdrop]
  · -- A mantissa and an exponent.
    simp only [List.mem_append, htake, List.mem_cons, false_or]
    rintro (h | h | h)
    · split at h
      · cases h
      · rcases List.mem_cons.1 h with h | h
        · revert h
          decide
        · exact hdrop _ _ h
    · cases h
    · split at h <;> simp [hdigits] at h

theorem Number.at_not_mem_text (n : Number) : '@' ∉ n.text := by
  have hdigits := Text.at_not_mem_ofNat
  cases n with
  | whole n => exact hdigits n
  | negative n => simp [Number.text, hdigits]
  | double bits =>
    have hsize : '@' ∉ (if (Binary.ofBits bits).mantissa = 0 then "0.0".toList
        else decimalText (Binary.ofBits bits).shortest) := by
      split
      · decide
      · exact at_not_mem_decimalText _
    show '@' ∉ doubleText bits
    unfold doubleText
    simp only
    split
    · intro h
      exact (List.mem_cons.1 h).elim (by decide) hsize
    · exact hsize

/-! ## Strings -/

variable {s n : Text} {v : Json} {items : List Json} {members : List (Text × Json)}

/-- A text is a string in the value, or a name of a member in it. -/
inductive Holds : Json → Text → Prop where
  | string (s : Text) : Holds (.string s) s
  | array {items : List Json} {v : Json} {s : Text} (hv : v ∈ items) (h : Holds v s) :
      Holds (.array items) s
  | name {members : List (Text × Json)} {n : Text} {v : Json} (hv : (n, v) ∈ members) :
      Holds (.object members) n
  | object {members : List (Text × Json)} {n s : Text} {v : Json} (hv : (n, v) ∈ members)
      (h : Holds v s) : Holds (.object members) s

theorem infix_itemsText (h : v ∈ items) : v.text <:+: itemsText items := by
  induction items with
  | nil => cases h
  | cons w items ih =>
    cases items with
    | nil =>
      obtain rfl := List.mem_singleton.1 h
      exact List.infix_refl _
    | cons x items =>
      rw [itemsText]
      rcases List.mem_cons.1 h with rfl | h
      · exact (List.prefix_append _ _).isInfix
      · have htail : itemsText (x :: items) <:+ w.text ++ ',' :: itemsText (x :: items) :=
          ⟨w.text ++ [','], by simp⟩
        exact (ih h).trans htail.isInfix

theorem infix_membersText (h : (n, v) ∈ members) :
    quoted n ++ ':' :: v.text <:+: membersText members := by
  induction members with
  | nil => cases h
  | cons m members ih =>
    obtain ⟨k, w⟩ := m
    cases members with
    | nil =>
      cases List.mem_singleton.1 h
      exact List.infix_refl _
    | cons l members =>
      rw [membersText]
      rcases List.mem_cons.1 h with heq | h
      · cases heq
        exact (List.prefix_append _ _).isInfix
      · have htail : membersText (l :: members) <:+
            quoted k ++ ':' :: w.text ++ ',' :: membersText (l :: members) :=
          ⟨quoted k ++ ':' :: w.text ++ [','], by simp⟩
        exact (ih h).trans htail.isInfix

/-- Every string in a value is written, in quotes. -/
theorem Holds.quoted_infix (h : Holds v s) : quoted s <:+: v.text := by
  induction h with
  | string s => exact List.infix_refl _
  | @array items v s hv _ ih =>
    have hbody : itemsText items <:+: (Json.array items).text := ⟨['['], [']'], by simp [text]⟩
    exact ih.trans ((infix_itemsText hv).trans hbody)
  | @name members n v hv =>
    have hbody : membersText members <:+: (Json.object members).text :=
      ⟨['\x7b'], ['\x7d'], by simp [text]⟩
    have hname : quoted n <:+: quoted n ++ ':' :: v.text := (List.prefix_append _ _).isInfix
    exact hname.trans ((infix_membersText hv).trans hbody)
  | @object members n s v hv _ ih =>
    have hbody : membersText members <:+: (Json.object members).text :=
      ⟨['\x7b'], ['\x7d'], by simp [text]⟩
    have hvalue : v.text <:+: quoted n ++ ':' :: v.text := ⟨quoted n ++ [':'], [], by simp⟩
    exact ih.trans (hvalue.trans ((infix_membersText hv).trans hbody))

/-- A character that stands for itself between quotes. -/
def IsVerbatim (c : Char) : Prop := c ≠ '"' ∧ c ≠ '\\' ∧ 32 ≤ c.toNat

instance (c : Char) : Decidable (IsVerbatim c) := inferInstanceAs (Decidable (_ ∧ _ ∧ _))

theorem escaped_of_isVerbatim {c : Char} (h : IsVerbatim c) : escaped c = [c] := by
  obtain ⟨hquote, hslash, hcode⟩ := h
  unfold escaped
  split
  · exact absurd rfl hquote
  · exact absurd rfl hslash
  all_goals first
    | exact absurd hcode (by decide)
    | exact if_neg (Nat.not_lt.2 hcode)

theorem flatMap_escaped (h : ∀ c ∈ s, IsVerbatim c) : s.flatMap escaped = s := by
  induction s with
  | nil => rfl
  | cons c s ih =>
    obtain ⟨hc, hs⟩ := List.forall_mem_cons.1 h
    rw [List.flatMap_cons, escaped_of_isVerbatim hc, ih hs, List.singleton_append]

theorem Holds.written (h : Holds v s) (hs : ∀ c ∈ s, IsVerbatim c) : s <:+: v.text := by
  have hquoted : s <:+: quoted s := ⟨['"'], ['"'], by simp [quoted, flatMap_escaped hs]⟩
  exact hquoted.trans h.quoted_infix

end Json

end Pagefold
