import Pagefold.Text

/-!
# Blanks

The blank characters are those with the property `White_Space`. Trimming and skipping go by them.
-/

namespace Pagefold.Text

/-- Whether a character has the property `White_Space`. -/
def isBlank (c : Char) : Bool :=
  (9 ≤ c.val && c.val ≤ 13) || c.val == 0x20 || c.val == 0x85 || c.val == 0xA0 || c.val == 0x1680
    || (0x2000 ≤ c.val && c.val ≤ 0x200A) || c.val == 0x2028 || c.val == 0x2029
    || c.val == 0x202F || c.val == 0x205F || c.val == 0x3000

def Blanks (w : Text) : Prop := ∀ c ∈ w, isBlank c = true

theorem Blanks.not_mem {w : Text} {c : Char} (h : Blanks w) (hc : isBlank c = false) : c ∉ w := by
  intro hmem
  rw [h c hmem] at hc
  cases hc

/-- A text after its leading blanks. -/
def skipBlanks (t : Text) : Text := t.dropWhile isBlank

def trim (t : Text) : Text := (skipBlanks (skipBlanks t).reverse).reverse

theorem skipBlanks_suffix (t : Text) : skipBlanks t <:+ t := List.dropWhile_suffix _

theorem head_skipBlanks {t r : Text} {c : Char} (h : skipBlanks t = c :: r) :
    isBlank c = false := by
  have := List.head?_dropWhile_not isBlank t
  rw [show t.dropWhile isBlank = c :: r from h] at this
  simpa using this

theorem exists_blanks (t : Text) : ∃ w, Blanks w ∧ t = w ++ skipBlanks t :=
  ⟨t.takeWhile isBlank, fun _ hc => List.all_eq_true.1 List.all_takeWhile _ hc,
    List.takeWhile_append_dropWhile.symm⟩

theorem skipBlanks_append {w t : Text} (h : Blanks w) : skipBlanks (w ++ t) = skipBlanks t :=
  List.dropWhile_append_of_pos h

theorem skipBlanks_of_not {c : Char} {t : Text} (h : isBlank c = false) :
    skipBlanks (c :: t) = c :: t := by
  simp [skipBlanks, h]

theorem mem_skipBlanks {c : Char} {t : Text} (hc : isBlank c = false) (h : c ∈ t) :
    c ∈ skipBlanks t := by
  obtain ⟨w, hw, ht⟩ := exists_blanks t
  rw [ht, List.mem_append] at h
  exact h.resolve_left (hw.not_mem hc)

theorem skipBlanks_eq_cons_iff {c : Char} {t r : Text} (hc : isBlank c = false) :
    skipBlanks t = c :: r ↔ ∃ w, Blanks w ∧ t = w ++ c :: r := by
  constructor
  · intro h
    obtain ⟨w, hw, ht⟩ := exists_blanks t
    exact ⟨w, hw, by rw [← h, ← ht]⟩
  · rintro ⟨w, hw, rfl⟩
    rw [skipBlanks_append hw, skipBlanks_of_not hc]

theorem trim_blanks_append {w : Text} (h : Blanks w) (t : Text) : trim (w ++ t) = trim t := by
  rw [trim, trim, skipBlanks_append h]

/-- Blanks end within a text that does not consist of blanks only. -/
theorem skipBlanks_append_of_ne_nil {s t : Text} (h : skipBlanks s ≠ []) :
    skipBlanks (s ++ t) = skipBlanks s ++ t := by
  obtain ⟨w, hw, hs⟩ := exists_blanks s
  cases hb : skipBlanks s with
  | nil => exact absurd hb h
  | cons c r =>
    rw [hs, hb, List.append_assoc, skipBlanks_append hw, List.cons_append,
      skipBlanks_of_not (head_skipBlanks hb)]

end Pagefold.Text
