/-!
# Texts

A text is the list of its characters. This module holds what every other one needs from texts:

* `Text.byteSize`: the length in UTF-8;
* `Text.dropPrefix?`: a text after a given beginning;
* `Text.cut?`: a text around the first place of another one;
* `Text.splitAtChar`, `Text.joined`: splitting at a character and joining with a separator;
* `Text.insertUnique`, `Text.sortedUnique`: strictly ascending lists of texts.
-/

namespace Pagefold

/-- A text, character by character. -/
abbrev Text := List Char

namespace Text

/-! ## Lengths -/

/-- The number of bytes of a text in UTF-8. -/
def byteSize (t : Text) : Nat := t.foldr (fun c n => c.utf8Size + n) 0

@[simp] theorem byteSize_nil : byteSize [] = 0 := rfl

@[simp] theorem byteSize_cons (c : Char) (t : Text) :
    byteSize (c :: t) = c.utf8Size + byteSize t := rfl

@[simp] theorem byteSize_append (s t : Text) : byteSize (s ++ t) = byteSize s + byteSize t := by
  induction s with
  | nil => simp
  | cons c s ih =>
    rw [List.cons_append, byteSize_cons, byteSize_cons, ih]
    omega

theorem eq_nil_of_byteSize_eq_zero {t : Text} (h : t.byteSize = 0) : t = [] := by
  cases t with
  | nil => rfl
  | cons c t =>
    have := c.utf8Size_pos
    rw [byteSize_cons] at h
    omega

theorem byteSize_pos {t : Text} (h : t ≠ []) : 0 < t.byteSize :=
  Nat.pos_of_ne_zero fun hzero => h (eq_nil_of_byteSize_eq_zero hzero)

/-- Of two beginnings of a text, the one with no more bytes is a beginning of the other one. -/
theorem prefix_of_byteSize_le {s u t : Text} (hs : s <+: t) (hu : u <+: t)
    (h : s.byteSize ≤ u.byteSize) : s <+: u := by
  rcases List.prefix_or_prefix_of_prefix hs hu with hsu | ⟨x, rfl⟩
  · exact hsu
  · rw [byteSize_append] at h
    have hx : x = [] := eq_nil_of_byteSize_eq_zero (by omega)
    exact ⟨[], by simp [hx]⟩

theorem eq_of_prefix_of_byteSize_le {s t : Text} (h : s <+: t) (hle : t.byteSize ≤ s.byteSize) :
    s = t := by
  obtain ⟨x, rfl⟩ := h
  rw [byteSize_append] at hle
  have hx : x = [] := eq_nil_of_byteSize_eq_zero (by omega)
  rw [hx, List.append_nil]

theorem append_inj_byteSize {s s' u u' : Text} (h : s ++ u = s' ++ u')
    (hs : s.byteSize = s'.byteSize) : s = s' ∧ u = u' := by
  have hpre : s <+: s' :=
    prefix_of_byteSize_le (List.prefix_append s u) ⟨u', h.symm⟩ (Nat.le_of_eq hs)
  obtain rfl := eq_of_prefix_of_byteSize_le hpre (Nat.le_of_eq hs.symm)
  exact ⟨rfl, List.append_cancel_left h⟩

/-! ## Beginnings -/

/-- What follows `start` in a text that begins with it. -/
def dropPrefix? : Text → Text → Option Text
  | [], t => some t
  | _ :: _, [] => none
  | a :: start, c :: t => if a = c then dropPrefix? start t else none

theorem dropPrefix?_eq_some_iff {start t rest : Text} :
    dropPrefix? start t = some rest ↔ t = start ++ rest := by
  induction start generalizing t with
  | nil => simp [dropPrefix?, eq_comm]
  | cons a start ih =>
    cases t with
    | nil => simp [dropPrefix?]
    | cons c t => by_cases h : a = c <;> simp [dropPrefix?, h, ih, eq_comm]

theorem dropPrefix?_eq_none_iff {start t : Text} : dropPrefix? start t = none ↔ ¬ start <+: t := by
  rw [Option.eq_none_iff_forall_ne_some]
  constructor
  · rintro h ⟨r, hr⟩
    exact h r (dropPrefix?_eq_some_iff.2 hr.symm)
  · intro h r hr
    exact h ⟨r, (dropPrefix?_eq_some_iff.1 hr).symm⟩

theorem dropPrefix?_self_append (start t : Text) : dropPrefix? start (start ++ t) = some t :=
  dropPrefix?_eq_some_iff.2 rfl

def beginsWith (start t : Text) : Bool := (dropPrefix? start t).isSome

def endsWith (finish t : Text) : Bool := beginsWith finish.reverse t.reverse

/-! ## Searching -/

/-- The search behind `cut?`: `seen` is what was passed, last character first. -/
def cutFrom (needle seen : Text) : Text → Option (Text × Text)
  | [] => if needle = [] then some (seen.reverse, []) else none
  | c :: t =>
    match dropPrefix? needle (c :: t) with
    | some rest => some (seen.reverse, rest)
    | none => cutFrom needle (c :: seen) t

/-- The texts before and after the first place where `needle` stands. -/
def cut? (needle t : Text) : Option (Text × Text) := cutFrom needle [] t

def contains (needle t : Text) : Bool := (cut? needle t).isSome

theorem cutFrom_append {needle seen t before after : Text}
    (h : cutFrom needle seen t = some (before, after)) :
    seen.reverse ++ t = before ++ needle ++ after := by
  induction t generalizing seen with
  | nil =>
    by_cases hn : needle = []
    · simp [cutFrom, hn] at h
      simp [hn, ← h.1, h.2]
    · simp [cutFrom, hn] at h
  | cons c t ih =>
    rw [cutFrom] at h
    split at h
    · next rest hr =>
      rw [dropPrefix?_eq_some_iff] at hr
      simp only [Option.some.injEq, Prod.mk.injEq] at h
      simp [hr, ← h.1, ← h.2]
    · simpa using ih h

theorem cut?_append {needle t before after : Text} (h : cut? needle t = some (before, after)) :
    t = before ++ needle ++ after := by
  simpa using cutFrom_append h

/-! ## Up to a character -/

theorem bne_of_not_mem {a : Text} {q : Char} (h : q ∉ a) : ∀ c ∈ a, (c != q) = true :=
  fun _ hc => bne_iff_ne.2 fun heq => h (heq ▸ hc)

theorem not_mem_takeWhile_bne (q : Char) (t : Text) : q ∉ t.takeWhile (· != q) := by
  intro h
  have := List.all_eq_true.1 List.all_takeWhile q h
  simp at this

theorem takeWhile_bne {a r : Text} {q : Char} (h : q ∉ a) :
    (a ++ q :: r).takeWhile (· != q) = a := by
  rw [List.takeWhile_append_of_pos (bne_of_not_mem h)]
  simp

theorem dropWhile_bne {a r : Text} {q : Char} (h : q ∉ a) :
    (a ++ q :: r).dropWhile (· != q) = q :: r := by
  rw [List.dropWhile_append_of_pos (bne_of_not_mem h)]
  simp

/-- What stands behind a text up to a character starts with it. -/
theorem dropWhile_bne_eq_cons_iff {t r : Text} {c q : Char} :
    t.dropWhile (· != q) = c :: r ↔ c = q ∧ ∃ a, q ∉ a ∧ t = a ++ q :: r := by
  constructor
  · intro h
    have hc : c = q := by
      have := List.head?_dropWhile_not (· != q) t
      rw [h] at this
      simpa using this
    subst hc
    exact ⟨rfl, t.takeWhile (· != c), not_mem_takeWhile_bne c t,
      by rw [← h, List.takeWhile_append_dropWhile]⟩
  · rintro ⟨rfl, a, ha, rfl⟩
    exact dropWhile_bne ha

/-! ## Splitting and joining -/

/-- The parts of a text between the places of a character; there is always one. -/
def splitAtChar (sep : Char) (t : Text) : List Text := t.splitOn sep

def joined (sep : Text) (ts : List Text) : Text := List.intercalate sep ts

/-! ## Order

Texts are ordered by their characters' code points, which is the order of their bytes. -/

/-- A strictly ascending list with one more text in its place. -/
def insertUnique (t : Text) : List Text → List Text
  | [] => [t]
  | u :: us => if t < u then t :: u :: us else if t = u then u :: us else u :: insertUnique t us

/-- The texts of a list in strictly ascending order. -/
def sortedUnique (ts : List Text) : List Text := ts.foldl (fun acc t => insertUnique t acc) []

end Text

end Pagefold
