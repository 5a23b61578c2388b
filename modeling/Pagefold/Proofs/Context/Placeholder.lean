import Pagefold.Context
import Pagefold.Proofs.Text.First
import Pagefold.Proofs.Token.Leftover

/-!
# Placeholders

A placeholder is a marker with a key behind it. Which key that is depends on the order of the keys
alone, and no key reaches over an `@`.

* `Context.mem_keys`, `Context.pairwise_keys`: the keys that are looked for, and in which order;
* `Context.firstKey?_longest`: the longest key is found;
* `Context.substitute_eq`: what substitution does, whatever the text and the keys are;
* `Context.cutBefore_placeholder`, `Context.cutBefore_literal`: a marker is not read together with
  what stands in front of it.
-/

namespace Pagefold

namespace Text

variable {k u : Text}

theorem dropPrefix?_append_left (k n t : Text) :
    dropPrefix? (k ++ n) t = (dropPrefix? k t).bind (dropPrefix? n) := by
  induction k generalizing t with
  | nil => rfl
  | cons c k ih =>
    cases t with
    | nil => rfl
    | cons d t =>
      by_cases hc : c = d
      · simp [dropPrefix?, hc, ih]
      · simp [dropPrefix?, hc]

/-- A beginning ends before a character that it does not have. -/
theorem dropPrefix?_append_of_head {c : Char} (hk : c ∉ k) (hu : u.head? = some c) (t : Text) :
    dropPrefix? k (t ++ u) = (dropPrefix? k t).map (· ++ u) := by
  induction k generalizing t with
  | nil => rfl
  | cons d k ih =>
    rw [List.mem_cons, not_or] at hk
    cases t with
    | nil =>
      cases u with
      | nil => cases hu
      | cons e u =>
        obtain rfl : e = c := Option.some.inj hu
        simp [dropPrefix?, Ne.symm hk.1]
    | cons e t =>
      by_cases hd : d = e
      · simp [dropPrefix?, hd, ih hk.2]
      · simp [dropPrefix?, hd]

end Text

namespace Context

open Text
open Token (IsRun isNameChar isRun_iff)

variable {context : Context} {ks : List Text} {a b k l n t u : Text} {f : Text → Text}

/-! ## The keys in their order -/

def Plain (context : Context) : Prop := ∀ m ∈ context, IsRun m.1

theorem mem_insertKey : l ∈ insertKey k ks ↔ l = k ∨ l ∈ ks := by
  induction ks with
  | nil => simp [insertKey]
  | cons x ks ih =>
    rw [insertKey]
    split
    · rw [List.mem_cons]
    · rw [List.mem_cons, ih, List.mem_cons]
      tauto

theorem mem_foldr_insertKey : l ∈ ks.foldr insertKey [] ↔ l ∈ ks := by
  induction ks with
  | nil => rfl
  | cons k ks ih => rw [List.foldr_cons, mem_insertKey, ih, List.mem_cons]

theorem mem_keys : k ∈ context.keys ↔ k ≠ [] ∧ ∃ v, (k, v) ∈ context := by
  rw [keys, mem_foldr_insertKey, List.mem_filter, List.mem_map, decide_eq_true_eq, and_comm]
  refine and_congr_right fun _ => ⟨?_, ?_⟩
  · rintro ⟨m, hm, rfl⟩
    exact ⟨m.2, hm⟩
  · rintro ⟨v, hv⟩
    exact ⟨(k, v), hv, rfl⟩

theorem Plain.isRun (h : context.Plain) (hk : k ∈ context.keys) : IsRun k := by
  obtain ⟨-, v, hv⟩ := mem_keys.1 hk
  exact h _ hv

theorem Plain.at_not_mem (h : context.Plain) : ∀ k ∈ context.keys, '@' ∉ k :=
  fun _ hk => (h.isRun hk).at_not_mem

theorem nil_not_mem_keys : [] ∉ context.keys := fun h => (mem_keys.1 h).1 rfl

theorem pairwise_insertKey (k : Text) (h : ks.Pairwise fun k l => l.byteSize ≤ k.byteSize) :
    (insertKey k ks).Pairwise fun k l => l.byteSize ≤ k.byteSize := by
  induction ks with
  | nil => simp [insertKey]
  | cons x ks ih =>
    obtain ⟨hx, hks⟩ := List.pairwise_cons.1 h
    rw [insertKey]
    split
    · next hbefore =>
      have hxk : x.byteSize ≤ k.byteSize := by
        simp only [before, Bool.or_eq_true, Bool.and_eq_true, decide_eq_true_eq] at hbefore
        omega
      refine List.pairwise_cons.2 ⟨fun y hy => ?_, h⟩
      rcases List.mem_cons.1 hy with rfl | hy
      · exact hxk
      · exact Nat.le_trans (hx y hy) hxk
    · next hbefore =>
      have hkx : k.byteSize ≤ x.byteSize := by
        simp only [before, Bool.or_eq_true, decide_eq_true_eq, not_or] at hbefore
        omega
      refine List.pairwise_cons.2 ⟨fun y hy => ?_, ih hks⟩
      rcases mem_insertKey.1 hy with rfl | hy
      · exact hkx
      · exact hx y hy

/-- No key is looked for before a longer one. -/
theorem pairwise_keys : context.keys.Pairwise fun k l => l.byteSize ≤ k.byteSize := by
  rw [keys]
  generalize (context.map Prod.fst).filter (· ≠ []) = ks
  induction ks with
  | nil => exact .nil
  | cons k ks ih => exact pairwise_insertKey k ih

/-! ## The key behind a marker -/

/-- The first of the keys that stands at the front of a text, and what follows it. -/
def firstKey? (ks : List Text) (t : Text) : Option (Text × Text) :=
  ks.findSome? fun k => (dropPrefix? k t).map (k, ·)

theorem placeholder_read?_eq (ks : List Text) (t : Text) :
    (placeholder ks).read? t = (dropPrefix? marker t).bind (firstKey? ks) := rfl

theorem firstKey?_cons (k : Text) (ks : List Text) (t : Text) :
    firstKey? (k :: ks) t = ((dropPrefix? k t).map (k, ·)).or (firstKey? ks t) := by
  rw [firstKey?, List.findSome?_cons]
  cases dropPrefix? k t <;> rfl

theorem firstKey?_eq_none (h : ∀ k ∈ ks, ¬ k <+: t) : firstKey? ks t = none := by
  rw [firstKey?, List.findSome?_eq_none_iff]
  intro k hk
  rw [dropPrefix?_eq_none_iff.2 (h k hk)]
  rfl

theorem firstKey?_nil (h : [] ∉ ks) : firstKey? ks [] = none := by
  refine firstKey?_eq_none fun k hk hnil => h ?_
  rwa [← List.prefix_nil.1 hnil]

theorem firstKey?_append (h : ∀ k ∈ ks, '@' ∉ k) (t u : Text) (hu : u.head? = some '@') :
    firstKey? ks (t ++ u) = (firstKey? ks t).map fun m => (m.1, m.2 ++ u) := by
  induction ks with
  | nil => rfl
  | cons k ks ih =>
    rw [firstKey?_cons, firstKey?_cons, dropPrefix?_append_of_head (h k List.mem_cons_self) hu,
      ih fun l hl => h l (List.mem_cons_of_mem k hl)]
    cases dropPrefix? k t <;> rfl

/-- Of the keys at the front of a text, the longest is found. -/
theorem firstKey?_longest (hks : ks.Pairwise fun k l => l.byteSize ≤ k.byteSize) (hk : k ∈ ks)
    (hlongest : ∀ l ∈ ks, l <+: k ++ t → l.length ≤ k.length) :
    firstKey? ks (k ++ t) = some (k, t) := by
  induction ks with
  | nil => cases hk
  | cons x ks ih =>
    obtain ⟨hx, hks⟩ := List.pairwise_cons.1 hks
    rw [firstKey?_cons]
    by_cases hxk : x = k
    · rw [hxk, dropPrefix?_self_append]
      rfl
    · have hk : k ∈ ks := (List.mem_cons.1 hk).resolve_left fun h => hxk h.symm
      rw [ih hks hk fun l hl => hlongest l (List.mem_cons_of_mem x hl)]
      -- A key that comes first is no shorter, so at the front of the same text it is the same.
      have hnone : ¬ x <+: k ++ t := by
        intro hpre
        have hxk' : x <+: k := List.prefix_of_prefix_length_le hpre (List.prefix_append k t)
          (hlongest x List.mem_cons_self hpre)
        exact hxk (eq_of_prefix_of_byteSize_le hxk' (hx k hk))
      rw [dropPrefix?_eq_none_iff.2 hnone]
      rfl

/-- A key at the front of a name and what follows it is at the front of the name. -/
theorem prefix_of_run (hk : IsRun k) (hb : ∀ c ∈ b.head?, isNameChar c = false)
    (h : k <+: n ++ b) : k <+: n := by
  by_cases hlength : k.length ≤ n.length
  · exact List.prefix_of_prefix_length_le h (List.prefix_append n b) hlength
  · obtain ⟨r, rfl⟩ := List.prefix_of_prefix_length_le (List.prefix_append n b) h (by omega)
    cases r with
    | nil => simp at hlength
    | cons c r =>
      obtain ⟨b', rfl⟩ := (List.prefix_append_right_inj n).1 h
      have hc := isRun_iff.1 hk c (by simp)
      rw [hb c rfl] at hc
      cases hc

/-! ## Places that are not read across -/

theorem cutBefore_placeholder (hks : ∀ k ∈ ks, '@' ∉ k) (hnil : [] ∉ ks) (u : Text) :
    (placeholder ks).CutBefore ('@' :: '@' :: u) :=
  Pattern.cutBefore_of_marked (placeholder_read?_eq ks) (firstKey?_nil hnil)
    (firstKey?_append hks) u

/-- The key of a literal placeholder, behind its marker. -/
def literalKey? (k t : Text) : Option (Unit × Text) := (dropPrefix? k t).map ((), ·)

theorem literal_read?_eq (k t : Text) :
    (Pattern.literal (marker ++ k)).read? t = (dropPrefix? marker t).bind (literalKey? k) := by
  change Pattern.literal? (marker ++ k) t = _
  rw [Pattern.literal?, if_neg (by simp [marker]), dropPrefix?_append_left]
  cases dropPrefix? marker t <;> rfl

theorem cutBefore_literal (hk : '@' ∉ k) (hne : k ≠ []) (u : Text) :
    (Pattern.literal (marker ++ k)).CutBefore ('@' :: '@' :: u) := by
  refine Pattern.cutBefore_of_marked (literal_read?_eq k) ?_ (fun t u hu => ?_) u
  · rw [literalKey?, dropPrefix?_eq_none_iff.2 (by rwa [List.prefix_nil])]
    rfl
  · rw [literalKey?, dropPrefix?_append_of_head hk hu, literalKey?]
    cases dropPrefix? k t <;> rfl

/-! ## Substitution -/

def supply (context : Context) (t k : Text) : Text :=
  (Pattern.literal (marker ++ k)).replace (fun _ => context.insertion k) t

theorem inTurn_eq (context : Context) (t : Text) :
    context.inTurn t = context.keys.foldl context.supply t := rfl

theorem supply_of_unmarked (h : ∀ u, u <:+ t → dropPrefix? marker u = none) (k : Text) :
    context.supply t k = t :=
  Pattern.replace_eq_self fun u hu => by rw [literal_read?_eq, h u hu]; rfl

theorem inTurn_of_unmarked (h : ∀ u, u <:+ t → dropPrefix? marker u = none) :
    context.inTurn t = t := by
  rw [inTurn_eq]
  induction context.keys with
  | nil => rfl
  | cons k ks ih => rwa [List.foldl_cons, supply_of_unmarked h]

theorem atOnce_of_unmarked (h : ∀ u, u <:+ t → dropPrefix? marker u = none) :
    context.atOnce t = t :=
  Pattern.replace_eq_self fun u hu => by rw [placeholder_read?_eq, h u hu]; rfl

theorem atOnce_of_keys_eq_nil (h : context.keys = []) : context.atOnce t = t :=
  Pattern.replace_eq_self fun u _ => by
    rw [placeholder_read?_eq, h]
    cases dropPrefix? marker u <;> rfl

/-- The values are put in place in one pass, or key after key where the matcher refuses the keys. -/
theorem substitute_eq [Matcher] (context : Context) (t : Text) :
    context.substitute t =
      if Matcher.refusesKeys context.keys then context.inTurn t else context.atOnce t := by
  rw [substitute]
  split
  · next h =>
    simp only [Bool.or_eq_true, decide_eq_true_eq, Bool.not_eq_true'] at h
    rcases h with hkeys | hmarker
    · rw [atOnce_of_keys_eq_nil hkeys, inTurn_eq, hkeys, List.foldl_nil, ite_self]
    · have hnot : ¬ marker <:+: t := by
        rw [← contains_iff, hmarker]
        exact Bool.false_ne_true
      have hunmarked : ∀ u, u <:+ t → dropPrefix? marker u = none := fun u hu =>
        dropPrefix?_eq_none_iff.2 fun hpre => hnot (hpre.isInfix.trans hu.isInfix)
      rw [atOnce_of_unmarked hunmarked, inTurn_of_unmarked hunmarked, ite_self]
  · rfl

theorem substitute_eq_atOnce [Matcher] (h : Matcher.refusesKeys context.keys = false) (t : Text) :
    context.substitute t = context.atOnce t := by
  rw [substitute_eq, h, if_neg Bool.false_ne_true]

end Context

end Pagefold
