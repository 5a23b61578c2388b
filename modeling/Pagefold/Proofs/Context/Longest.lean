import Pagefold.Proofs.Context.Placeholder
import Pagefold.Proofs.Text.Matches

/-!
# What substitution puts in place

Substitution goes through a text from left to right. Where a marker with a key behind it starts, the
longest such key gives way to its value, and any other character stays. Values are not looked at
again, and neither is what was passed.

* `Context.IsKey`: the keys that can stand behind a marker;
* `Context.Filled`: a text, and what these rules make of it;
* `Context.placeholder_read?_eq_some_iff`: the longest key is read, whichever characters keys have;
* `Context.atOnce_eq_iff`, `Context.substitute_filled`: substitution keeps to the rules.
-/

namespace Pagefold.Context

open Text

variable {context : Context} {ks : List Text} {k l t u r : Text} {c : Char}

/-! ## The rules -/

/-- A key that can stand behind a marker: any key but the empty one. -/
def IsKey (context : Context) (k : Text) : Prop := k ≠ [] ∧ k ∈ context.map Prod.fst

/-- What becomes of a text when the values of a context are put in place. -/
inductive Filled (context : Context) : Text → Text → Prop where
  | nil : Filled context [] []
  /-- The longest key behind a marker gives way to its value. -/
  | key {k rest out : Text} {v : Json} (hk : context.IsKey k) (hv : context.lookup k = some v)
      (longest : ∀ l, context.IsKey l → l <+: k ++ rest → l.length ≤ k.length)
      (h : Filled context rest out) : Filled context (marker ++ (k ++ rest)) (valueText v ++ out)
  /-- A character at which no marker with a key starts stays. -/
  | char {c : Char} {rest out : Text} (none : ∀ k, context.IsKey k → ¬ marker ++ k <+: c :: rest)
      (h : Filled context rest out) : Filled context (c :: rest) (c :: out)

/-! ## Keys behind markers -/

theorem mem_keys_iff_isKey : k ∈ context.keys ↔ context.IsKey k := by
  rw [mem_keys, IsKey, List.mem_map]
  refine and_congr_right fun _ => ⟨?_, ?_⟩
  · rintro ⟨v, hv⟩
    exact ⟨(k, v), hv, rfl⟩
  · rintro ⟨m, hm, rfl⟩
    exact ⟨m.2, hm⟩

theorem IsKey.exists_value (h : context.IsKey k) :
    ∃ v, context.lookup k = some v ∧ context.insertion k = valueText v := by
  cases hv : context.lookup k with
  | none =>
    obtain ⟨m, hm, rfl⟩ := List.mem_map.1 h.2
    have := List.lookup_eq_none_iff.1 hv m hm
    simp at this
  | some v => exact ⟨v, rfl, by rw [insertion, hv]; rfl⟩

/-- Of the keys at the front of a text, no longer one is there than the one that is found. -/
theorem of_firstKey?_eq_some (hks : ks.Pairwise fun k l => l.byteSize ≤ k.byteSize)
    (h : firstKey? ks t = some (k, r)) :
    k ∈ ks ∧ t = k ++ r ∧ ∀ l ∈ ks, l <+: t → l.length ≤ k.length := by
  induction ks with
  | nil => cases h
  | cons x ks ih =>
    obtain ⟨hx, hks⟩ := List.pairwise_cons.1 hks
    rw [firstKey?_cons, Option.or_eq_some_iff] at h
    rcases h with h | ⟨hnone, h⟩
    · obtain ⟨r', hr', heq⟩ := Option.map_eq_some_iff.1 h
      cases heq
      rw [dropPrefix?_eq_some_iff] at hr'
      refine ⟨List.mem_cons_self, hr', fun l hl hpre => ?_⟩
      rcases List.mem_cons.1 hl with rfl | hl
      · exact Nat.le_refl _
      · have hkt : k <+: t := ⟨r, hr'.symm⟩
        exact (prefix_of_byteSize_le hpre hkt (hx l hl)).length_le
    · obtain ⟨hk, ht, hlongest⟩ := ih hks h
      refine ⟨List.mem_cons_of_mem x hk, ht, fun l hl hpre => ?_⟩
      rcases List.mem_cons.1 hl with rfl | hl
      · rw [Option.map_eq_none_iff, dropPrefix?_eq_none_iff] at hnone
        exact absurd hpre hnone
      · exact hlongest l hl hpre

theorem placeholder_read?_eq_some_iff :
    (placeholder context.keys).read? t = some (k, r) ↔
      context.IsKey k ∧ t = marker ++ (k ++ r) ∧
        ∀ l, context.IsKey l → l <+: k ++ r → l.length ≤ k.length := by
  simp only [placeholder_read?_eq, Option.bind_eq_some_iff, dropPrefix?_eq_some_iff,
    ← mem_keys_iff_isKey]
  constructor
  · rintro ⟨u, rfl, h⟩
    obtain ⟨hk, rfl, hlongest⟩ := of_firstKey?_eq_some pairwise_keys h
    exact ⟨hk, rfl, hlongest⟩
  · rintro ⟨hk, rfl, hlongest⟩
    exact ⟨k ++ r, rfl, firstKey?_longest pairwise_keys hk hlongest⟩

theorem placeholder_read?_eq_none_iff :
    (placeholder context.keys).read? t = none ↔ ∀ k, context.IsKey k → ¬ marker ++ k <+: t := by
  constructor
  · intro h k hk hpre
    rw [placeholder_read?_eq] at h
    obtain ⟨r, rfl⟩ := hpre
    have hdrop : dropPrefix? marker (marker ++ k ++ r) = some (k ++ r) := by
      rw [List.append_assoc, dropPrefix?_self_append]
    rw [hdrop, Option.bind_some, firstKey?, List.findSome?_eq_none_iff] at h
    have := h k (mem_keys_iff_isKey.2 hk)
    rw [dropPrefix?_self_append] at this
    cases this
  · intro h
    cases hr : (placeholder context.keys).read? t with
    | none => rfl
    | some m =>
      obtain ⟨hk, rfl, -⟩ := placeholder_read?_eq_some_iff.1 hr
      exact absurd ⟨m.2, by rw [List.append_assoc]⟩ (h m.1 hk)

/-! ## The pass over a text -/

theorem filled_atOnce (context : Context) (t : Text) : context.Filled t (context.atOnce t) := by
  unfold atOnce
  induction t using (placeholder context.keys).read_induction with
  | nil => exact .nil
  | plain c t hr ih =>
    rw [Pattern.replace_of_none _ hr]
    exact .char (placeholder_read?_eq_none_iff.1 hr) ih
  | hit t k r hr ih =>
    rw [Pattern.replace_of_some _ hr]
    obtain ⟨hk, rfl, hlongest⟩ := placeholder_read?_eq_some_iff.1 hr
    obtain ⟨v, hv, hinsertion⟩ := hk.exists_value
    rw [hinsertion]
    exact .key hk hv hlongest ih

/-- The rules leave no choice. -/
theorem Filled.atOnce_eq (h : context.Filled t u) : context.atOnce t = u := by
  induction h with
  | nil => rfl
  | key hk hv hlongest _ ih =>
    obtain ⟨w, hw, hinsertion⟩ := hk.exists_value
    obtain rfl := Option.some.inj (hw.symm.trans hv)
    have hread := placeholder_read?_eq_some_iff.2 ⟨hk, rfl, hlongest⟩
    rw [atOnce, Pattern.replace_of_some _ hread, hinsertion, ← ih]
    rfl
  | char hnone _ ih =>
    have hread := placeholder_read?_eq_none_iff.2 hnone
    rw [atOnce, Pattern.replace_of_none _ hread, ← ih]
    rfl

theorem atOnce_eq_iff : context.atOnce t = u ↔ context.Filled t u := by
  constructor
  · rintro rfl
    exact filled_atOnce context t
  · exact Filled.atOnce_eq

/-- Unless the matcher refuses the keys, substitution makes of a text what the rules make of it, and
nothing else: from left to right the longest key behind a marker gives way to its value, which is not
looked at again, and any other character stays. -/
theorem substitute_filled [Matcher] (context : Context)
    (h : Matcher.refusesKeys context.keys = false) (t u : Text) :
    context.substitute t = u ↔ context.Filled t u := by
  rw [substitute_eq_atOnce h]
  exact atOnce_eq_iff

/-- A context with the empty key, keys that start like others, a key with markers in it, and a value
that looks like a placeholder. -/
def overlapping : Context :=
  [([], .string "e".toList), ("@".toList, .string "A".toList), ("a".toList, .string "@@b".toList),
    ("a@@b".toList, .null), ("b".toList, .bool true)]

section

attribute [local instance] Matcher.unlimited

theorem substitute_filled_overlapping :
    Matcher.refusesKeys overlapping.keys = false ∧
    overlapping.Filled "@@a @@a@@b @@@@b @@c".toList "@@b null A@b @@c".toList := by
  have h : Matcher.refusesKeys overlapping.keys = false := rfl
  exact ⟨h, (substitute_filled overlapping h _ _).1 rfl⟩

end

end Pagefold.Context
