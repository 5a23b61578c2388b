import Mathlib.Data.List.Chain
import Pagefold.Proofs.Context.Longest
import Pagefold.Proofs.Context.Unknown
import Pagefold.Proofs.Json.Members

/-!
# Contexts inside contexts

A part that a page includes can include further parts. What stands in those is then filled by two
contexts in turn, first by the nearest one and then by the one around it. That comes to the same as
filling it once, with the members of both, where the nearest context has the say about a key that
both have.

* `Context.atop`: the members of two contexts together;
* `Context.Spaced`: texts in which markers stand apart from each other and from names;
* `Context.read?_atOnce_eq_none`: in such a text, substitution puts no new token together;
* `Context.substitute_nested`: two contexts in turn are one.
-/

namespace Pagefold.Context

open Text
open Token (IsRun isNameChar isRun_iff)

variable {context inner outer : Context} {k n r t u : Text} {c : Char}

/-! ## The members of two contexts -/

/-- The members of the context around, with those of the inner one atop. -/
def atop (inner outer : Context) : Context :=
  inner.foldr (fun m context => Json.setMember m.1 m.2 context) outer

/-- A key has the value of the inner context, and that of the other one if the inner has none. -/
theorem lookup_atop (inner outer : Context) (k : Text) :
    (inner.atop outer).lookup k = (inner.lookup k).or (outer.lookup k) := by
  induction inner with
  | nil => rfl
  | cons m inner ih =>
    obtain ⟨n, v⟩ := m
    rw [atop, List.foldr_cons, Json.lookup_setMember, Json.lookup_member]
    split
    · rfl
    · exact ih

theorem of_mem_atop {m : Text × Json} (h : m ∈ inner.atop outer) : m ∈ inner ∨ m ∈ outer := by
  induction inner with
  | nil => exact .inr h
  | cons l inner ih =>
    rcases Json.of_mem_setMember h with rfl | h
    · exact .inl List.mem_cons_self
    · exact (ih h).imp_left (List.mem_cons_of_mem l)

theorem Plain.atop (hinner : inner.Plain) (houter : outer.Plain) : (inner.atop outer).Plain := by
  intro m hm
  rcases of_mem_atop hm with hm | hm
  · exact hinner m hm
  · exact houter m hm

theorem isKey_iff_lookup : context.IsKey k ↔ k ≠ [] ∧ context.lookup k ≠ none := by
  refine and_congr_right fun _ => ⟨fun h hnone => ?_, fun h => ?_⟩
  · obtain ⟨m, hm, rfl⟩ := List.mem_map.1 h
    have := List.lookup_eq_none_iff.1 hnone m hm
    simp at this
  · obtain ⟨v, hv⟩ := Option.ne_none_iff_exists'.1 h
    obtain ⟨before, after, rfl, -⟩ := List.lookup_eq_some_iff.1 hv
    simp

theorem isKey_atop : (inner.atop outer).IsKey k ↔ inner.IsKey k ∨ outer.IsKey k := by
  rw [isKey_iff_lookup, isKey_iff_lookup, isKey_iff_lookup, lookup_atop, ne_eq, ne_eq,
    Option.or_eq_none_iff]
  tauto

theorem insertion_atop_of_inner (h : inner.IsKey k) :
    (inner.atop outer).insertion k = inner.insertion k := by
  obtain ⟨v, hv, -⟩ := h.exists_value
  rw [insertion, insertion, lookup_atop, hv, Option.some_or]

theorem insertion_atop_of_outer (hk : k ≠ []) (h : ¬ inner.IsKey k) :
    (inner.atop outer).insertion k = outer.insertion k := by
  have hnone : inner.lookup k = none := by
    by_contra hsome
    exact h (isKey_iff_lookup.2 ⟨hk, hsome⟩)
  rw [insertion, insertion, lookup_atop, hnone, Option.none_or]

/-! ## Texts with markers apart -/

/-- No more than two `@` stand together, and no character of a name stands right in front of one. -/
structure Spaced (t : Text) : Prop where
  short : ¬ "@@@".toList <:+: t
  apart : t.IsChain fun c d => d = '@' → isNameChar c = false

instance Spaced.decidable (t : Text) : Decidable (Spaced t) :=
  decidable_of_iff (Text.contains "@@@".toList t = false ∧
      t.IsChain fun c d => d = '@' → isNameChar c = false)
    ⟨fun ⟨h, h'⟩ => ⟨by rw [← contains_iff, h]; exact Bool.false_ne_true, h'⟩,
      fun ⟨h, h'⟩ => ⟨by rwa [← Bool.not_eq_true, contains_iff], h'⟩⟩

theorem Spaced.of_suffix (h : Spaced t) (hu : u <:+ t) : Spaced u where
  short hin := h.short (hin.trans hu.isInfix)
  apart := h.apart.suffix hu

theorem Spaced.head_ne (h : Spaced (n ++ r)) (hn : IsRun n) (hne : n ≠ []) :
    r.head? ≠ some '@' := by
  intro hr
  obtain ⟨r, rfl⟩ := List.head?_eq_some_iff.1 hr
  obtain ⟨n, c, rfl⟩ := (List.eq_nil_or_concat n).resolve_left hne
  have hlast : [c, '@'] <:+: n.concat c ++ '@' :: r := ⟨n, r, by simp⟩
  have hpair := List.IsChain.infix h.apart hlast
  rw [List.isChain_pair] at hpair
  have hname := isRun_iff.1 hn c (by simp)
  rw [hpair rfl] at hname
  cases hname

/-- Where no token stands, none stands after substitution in what follows. -/
theorem read?_atOnce_eq_none (ht : Spaced (c :: t)) (h : Token.pattern.read? (c :: t) = none) :
    Token.pattern.read? (c :: context.atOnce t) = none := by
  have hplaceholder := placeholder_read?_eq context.keys
  by_cases hhead : t.head? = some '@'
  · obtain ⟨r, rfl⟩ := List.head?_eq_some_iff.1 hhead
    by_cases hc : c = '@'
    · -- The marker is whole: no third `@` follows, and no name.
      subst hc
      have hthird : r.head? ≠ some '@' := by
        intro hr
        obtain ⟨r, rfl⟩ := List.head?_eq_some_iff.1 hr
        exact ht.short (List.prefix_append "@@@".toList r).isInfix
      have hlone := Pattern.read?_of_head_ne hplaceholder hthird '@'
      have hkept : context.atOnce ('@' :: r) = '@' :: context.atOnce r :=
        Pattern.replace_of_none _ hlone
      have hsame : (context.atOnce r).head? = r.head? := Pattern.head?_replace hplaceholder hthird
      rw [Pattern.read?_marked Token.read?_eq, Token.named_eq_none_iff] at h
      rw [hkept, Pattern.read?_marked Token.read?_eq, Token.named_eq_none_iff, hsame]
      exact h
    · exact Pattern.read?_of_ne Token.read?_eq hc _
  · have hsame : (context.atOnce t).head? = t.head? := Pattern.head?_replace hplaceholder hhead
    exact Pattern.read?_of_head_ne Token.read?_eq (hsame ▸ hhead) c

/-! ## Tokens -/

theorem Plain.read?_eq_none (h : context.Plain) (ht : Token.pattern.read? t = none) :
    (placeholder context.keys).read? t = none := by
  refine placeholder_read?_eq_none_iff.2 fun k hk hpre => ?_
  obtain ⟨r, rfl⟩ := hpre
  rw [Token.read?_run (h.isRun (mem_keys_iff_isKey.2 hk)) hk.1] at ht
  cases ht

theorem Plain.atOnce_of_read? (h : context.Plain) (ht : Token.pattern.read? (c :: t) = none) :
    context.atOnce (c :: t) = c :: context.atOnce t :=
  Pattern.replace_of_none _ (h.read?_eq_none ht)

/-- Of the keys at the front of a name one is the longest, if there are any. -/
theorem exists_longest (context : Context) (n : Text) :
    (∀ k ∈ context.keys, ¬ k <+: n) ∨
      ∃ k ∈ context.keys, k <+: n ∧ ∀ l ∈ context.keys, l <+: n → l.length ≤ k.length := by
  cases h : firstKey? context.keys n with
  | none =>
    refine .inl fun k hk => ?_
    rw [firstKey?, List.findSome?_eq_none_iff] at h
    have hnone := h k hk
    rwa [Option.map_eq_none_iff, dropPrefix?_eq_none_iff] at hnone
  | some m =>
    obtain ⟨hk, hn, hlongest⟩ := of_firstKey?_eq_some pairwise_keys h
    exact .inr ⟨m.1, hk, ⟨m.2, hn.symm⟩, hlongest⟩

/-! ## One token in two contexts -/

section Token

variable (hn : IsRun n) (hne : n ≠ []) (hr : ∀ c ∈ r.head?, isNameChar c = false)
include hn hr

include hne in
theorem Plain.atOnce_unkeyed (h : context.Plain) (hnone : ∀ k ∈ context.keys, ¬ k <+: n) :
    context.atOnce (marker ++ n ++ r) = marker ++ n ++ context.atOnce r :=
  atOnce_unknown (a := []) h hnone hn hne hr

theorem Plain.atOnce_keyed (h : context.Plain) (hk : k ∈ context.keys) (hkn : k <+: n)
    (hlongest : ∀ l ∈ context.keys, l <+: n → l.length ≤ k.length) :
    context.atOnce (marker ++ n ++ r)
      = context.insertion k ++ n.drop k.length ++ context.atOnce r :=
  atOnce_known (a := []) h hk hkn hlongest hn hr

variable (hinner : inner.Plain) (houter : outer.Plain)
  (hkeys : ∀ k, inner.IsKey k → ∀ l, outer.IsKey l → k <+: l → k = l)
  (ih : outer.atOnce (inner.atOnce r) = (inner.atop outer).atOnce r)
include hinner houter ih

include hkeys in
/-- What the inner context fills is filled by it alone: the outer one finds nothing in its value, and
has no longer key for the name. -/
theorem nested_of_inner (hvalue : '@' ∉ inner.insertion k) (hk : k ∈ inner.keys) (hkn : k <+: n)
    (hlongest : ∀ l ∈ inner.keys, l <+: n → l.length ≤ k.length) :
    outer.atOnce (inner.atOnce (marker ++ n ++ r))
      = (inner.atop outer).atOnce (marker ++ n ++ r) := by
  have hkey := mem_keys_iff_isKey.1 hk
  have hatop : k ∈ (inner.atop outer).keys := mem_keys_iff_isKey.2 (isKey_atop.2 (.inl hkey))
  have hlongestAtop : ∀ l ∈ (inner.atop outer).keys, l <+: n → l.length ≤ k.length := by
    intro l hl hln
    rcases isKey_atop.1 (mem_keys_iff_isKey.1 hl) with hl | hl
    · exact hlongest l (mem_keys_iff_isKey.2 hl) hln
    · rcases List.prefix_or_prefix_of_prefix hln hkn with hle | hle
      · exact hle.length_le
      · rw [hkeys k hkey l hl hle]
  -- What stands for the placeholder has no `@`, so the outer context reads nothing in it.
  have hrest : IsRun (n.drop k.length) :=
    isRun_iff.2 fun c hc => isRun_iff.1 hn c (List.mem_of_mem_drop hc)
  have hquiet : '@' ∉ inner.insertion k ++ n.drop k.length := by
    rw [List.mem_append, not_or]
    exact ⟨hvalue, hrest.at_not_mem⟩
  have hpassed := Pattern.barren_of_not_mem (placeholder_read?_eq outer.keys) hquiet
    (inner.atOnce r)
  calc outer.atOnce (inner.atOnce (marker ++ n ++ r))
      = outer.atOnce (inner.insertion k ++ n.drop k.length ++ inner.atOnce r) := by
        rw [hinner.atOnce_keyed hn hr hk hkn hlongest]
    _ = inner.insertion k ++ n.drop k.length ++ outer.atOnce (inner.atOnce r) := hpassed.replace
    _ = (inner.atop outer).insertion k ++ n.drop k.length ++ (inner.atop outer).atOnce r := by
        rw [ih, insertion_atop_of_inner hkey]
    _ = (inner.atop outer).atOnce (marker ++ n ++ r) :=
        ((hinner.atop houter).atOnce_keyed hn hr hatop hkn hlongestAtop).symm

include hne in
/-- What the inner context does not fill is left for the outer one. -/
theorem nested_of_outer (hnone : ∀ k ∈ inner.keys, ¬ k <+: n) (hat : r.head? ≠ some '@') :
    outer.atOnce (inner.atOnce (marker ++ n ++ r))
      = (inner.atop outer).atOnce (marker ++ n ++ r) := by
  have hkept := hinner.atOnce_unkeyed hn hne hr hnone
  have hsame : (inner.atOnce r).head? = r.head? :=
    Pattern.head?_replace (placeholder_read?_eq inner.keys) hat
  have hhead : ∀ c ∈ (inner.atOnce r).head?, isNameChar c = false := hsame ▸ hr
  have hatops : ∀ k ∈ (inner.atop outer).keys, k <+: n → k ∈ outer.keys := by
    intro k hk hkn
    rcases isKey_atop.1 (mem_keys_iff_isKey.1 hk) with hkey | hkey
    · exact absurd hkn (hnone k (mem_keys_iff_isKey.2 hkey))
    · exact mem_keys_iff_isKey.2 hkey
  rw [hkept]
  rcases exists_longest outer n with houternone | ⟨l, hl, hln, hlongest⟩
  · have hatopnone : ∀ k ∈ (inner.atop outer).keys, ¬ k <+: n :=
      fun k hk hkn => houternone k (hatops k hk hkn) hkn
    rw [houter.atOnce_unkeyed hn hne hhead houternone, ih,
      (hinner.atop houter).atOnce_unkeyed hn hne hr hatopnone]
  · have hkey := mem_keys_iff_isKey.1 hl
    have hatop : l ∈ (inner.atop outer).keys := mem_keys_iff_isKey.2 (isKey_atop.2 (.inr hkey))
    have hnotinner : ¬ inner.IsKey l := fun h => hnone l (mem_keys_iff_isKey.2 h) hln
    have hlongestAtop : ∀ k ∈ (inner.atop outer).keys, k <+: n → k.length ≤ l.length :=
      fun k hk hkn => hlongest k (hatops k hk hkn) hkn
    rw [houter.atOnce_keyed hn hhead hl hln hlongest, ih,
      (hinner.atop houter).atOnce_keyed hn hr hatop hln hlongestAtop,
      insertion_atop_of_outer hkey.1 hnotinner]

end Token

/-! ## Texts in two contexts -/

theorem insertion_at_not_mem (hvalues : ∀ m ∈ context, '@' ∉ valueText m.2) (hk : context.IsKey k) :
    '@' ∉ context.insertion k := by
  obtain ⟨v, hv, hinsertion⟩ := hk.exists_value
  obtain ⟨before, after, heq, -⟩ := List.lookup_eq_some_iff.1 hv
  have hmem : (k, v) ∈ context := by simp [heq]
  rw [hinsertion]
  exact hvalues (k, v) hmem

/-- One pass for each of two contexts is one pass for both together. -/
theorem atOnce_nested (hinner : inner.Plain) (houter : outer.Plain)
    (hkeys : ∀ k, inner.IsKey k → ∀ l, outer.IsKey l → k <+: l → k = l)
    (hvalues : ∀ m ∈ inner, '@' ∉ valueText m.2) (ht : Spaced t) :
    outer.atOnce (inner.atOnce t) = (inner.atop outer).atOnce t := by
  induction t using Token.pattern.read_induction with
  | nil => rfl
  | plain c t hr ih =>
    have hnone : Token.pattern.read? (c :: inner.atOnce t) = none := read?_atOnce_eq_none ht hr
    rw [hinner.atOnce_of_read? hr, houter.atOnce_of_read? hnone,
      (hinner.atop houter).atOnce_of_read? hr, ih (ht.of_suffix (List.suffix_cons c t))]
  | hit t v r hr ih =>
    obtain ⟨n, hne, hn, -, rfl, hhead⟩ := Token.exists_name_of_read? hr
    have hrest : n ++ r <:+ marker ++ n ++ r := ⟨marker, by simp⟩
    have ih := ih (ht.of_suffix (List.suffix_append _ r))
    rcases exists_longest inner n with hnone | ⟨k, hk, hkn, hlongest⟩
    · have hat := (ht.of_suffix hrest).head_ne hn hne
      exact nested_of_outer hn hne hhead hinner houter ih hnone hat
    · have hvalue := insertion_at_not_mem hvalues (mem_keys_iff_isKey.1 hk)
      exact nested_of_inner hn hhead hinner houter hkeys ih hvalue hk hkn hlongest

/-- Two contexts in turn, the nearest one first, fill a text like both of them together, in which the
nearest one has the say. No key of the nearest one may be the beginning of a longer key of the other
one, its values bring no `@`, and in the text the markers are apart from each other and from names.
As ever, the matcher must not refuse the keys. -/
theorem substitute_nested [Matcher] (hinner : inner.Plain) (houter : outer.Plain)
    (hkeys : ∀ k, inner.IsKey k → ∀ l, outer.IsKey l → k <+: l → k = l)
    (hvalues : ∀ m ∈ inner, '@' ∉ valueText m.2) (ht : Spaced t)
    (hfitInner : Matcher.refusesKeys inner.keys = false)
    (hfitOuter : Matcher.refusesKeys outer.keys = false)
    (hfitAtop : Matcher.refusesKeys (inner.atop outer).keys = false) :
    outer.substitute (inner.substitute t) = (inner.atop outer).substitute t := by
  rw [substitute_eq_atOnce hfitInner, substitute_eq_atOnce hfitOuter,
    substitute_eq_atOnce hfitAtop]
  exact atOnce_nested hinner houter hkeys hvalues ht

/-- A context around the one with a title: it has a title of its own, and a key that is the beginning
of that. -/
def around : Context :=
  [("lang".toList, .string "en".toList), ("tit".toList, .bool true),
    ("title".toList, .string "@@lang".toList)]

theorem plain_around : around.Plain := by
  have hall : ∀ k ∈ around.map Prod.fst, IsRun k := by decide
  exact fun m hm => hall m.1 (List.mem_map_of_mem hm)

section

attribute [local instance] Matcher.unlimited

theorem substitute_nested_titled :
    Spaced "@@title, @@titles: @@lang @@titl @@".toList ∧
    around.substitute (titled.substitute "@@title, @@titles: @@lang @@titl @@".toList)
      = (titled.atop around).substitute "@@title, @@titles: @@lang @@titl @@".toList ∧
    (titled.atop around).substitute "@@title, @@titles: @@lang @@titl @@".toList
      = "Home, Homes: en truel @@".toList := by
  have hspaced : Spaced "@@title, @@titles: @@lang @@titl @@".toList := by decide
  have hkeys : ∀ k ∈ titled.keys, ∀ l ∈ around.keys, k <+: l → k = l := by decide
  have hvalues : ∀ m ∈ titled, '@' ∉ valueText m.2 := by
    intro m hm
    obtain rfl := List.mem_singleton.1 hm
    decide
  refine ⟨hspaced, substitute_nested plain_titled plain_around ?_ hvalues hspaced rfl rfl rfl, rfl⟩
  intro k hk l hl
  exact hkeys k (mem_keys_iff_isKey.2 hk) l (mem_keys_iff_isKey.2 hl)

end

end Pagefold.Context
