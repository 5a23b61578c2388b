import Pagefold.Proofs.Text.Places

/-!
# Texts with a text exchanged in some places

A search for a text exchanges it wherever it is found. Whether that comes to the same as an exchange
in some chosen places is a matter of counting: it does if the text stands in no other place.

* `Text.Exchanged`: a text with another one exchanged in some places of it;
* `Text.Exchanged.replace_eq`: when a search does the same.
-/

namespace Pagefold.Text

/-- The second text is the first one with `new` for `old` in some places, one behind the other, and
so many of them. -/
inductive Exchanged (old new : Text) : Text → Text → Nat → Prop where
  | nil : Exchanged old new [] [] 0
  | keep {a b : Text} {n : Nat} (x : Text) (h : Exchanged old new a b n) :
    Exchanged old new (x ++ a) (x ++ b) n
  | swap {a b : Text} {n : Nat} (h : Exchanged old new a b n) :
    Exchanged old new (old ++ a) (new ++ b) (n + 1)

namespace Exchanged

variable {old new a b : Text} {n : Nat}

theorem le_places (h : Exchanged old new a b n) (hne : old ≠ []) : n ≤ places old a := by
  induction h with
  | nil => exact Nat.zero_le _
  | keep x _ ih => exact Nat.le_trans ih (places_le_append old x _)
  | swap _ ih => exact Nat.succ_le_of_lt (Nat.lt_of_le_of_lt ih (places_lt hne _))

/-- If the old text stands in no other place, a search exchanges it in the same ones. -/
theorem replace_eq (h : Exchanged old new a b n) (hne : old ≠ []) (hall : places old a ≤ n) :
    (Pattern.literal old).replace (fun _ => new) a = b := by
  induction h with
  | nil => rfl
  | @keep a b n x h ih =>
    have hplaces := h.le_places hne
    have hmore := places_le_append old x a
    rw [← ih (by omega)]
    exact (barren_of_places_le (by omega)).replace
  | @swap a b n h ih =>
    have hmore := places_lt hne a
    rw [← ih (by omega)]
    exact Pattern.replace_of_some _ (literal_read?_append hne a)

end Exchanged

end Pagefold.Text
