import Pagefold.Proofs.Context.Longest
import Pagefold.Proofs.Text.Exchange
import Pagefold.Text.Automaton

/-!
# One key after the other

Keys that are too large to be looked for at once are put in place one after the other, the longest
first. Every key then meets a text in which the values of earlier keys stand already, so it can meet
placeholders that one pass over the text does not read: in a value, or put together from a value and
what stands around it. Where that never happens, one pass and many come to the same.

* `Context.partly`, `Context.standing`: a text with the values of some of the keys in place, and the
  placeholders that are left in it;
* `Context.exchanged_partly`, `Context.supply_partly`: the turn of one key;
* `Context.NothingNew`: no turn meets a placeholder that one pass does not read;
* `Context.inTurn_eq_atOnce`: then the outcome is that of one pass;
* `Context.Apart`, `Context.nothingNew_of_apart`: values that make nothing new in any text.
-/

namespace Pagefold.Context

open Text
open Automaton (keyStates sharedBytes size stateSize totalSize)

variable {context : Context} {done : List Text} {k l t r : Text} {c : Char}

/-! ## Some of the keys in place -/

/-- A text with the values of some keys in place, where one pass reads their placeholders. The other
placeholders stand as they are. -/
def partly (context : Context) (done : List Text) (t : Text) : Text :=
  (placeholder context.keys).replace
    (fun k => if done.contains k then context.insertion k else marker ++ k) t

/-- The keys of the placeholders that stand in it. -/
def standing (context : Context) (done : List Text) (t : Text) : List Text :=
  ((placeholder context.keys).hits t).filter fun k => !done.contains k

theorem partly_of_none (h : (placeholder context.keys).read? (c :: t) = none) :
    context.partly done (c :: t) = c :: context.partly done t :=
  Pattern.replace_of_none _ h

theorem partly_of_mem (h : (placeholder context.keys).read? t = some (l, r)) (hl : l ∈ done) :
    context.partly done t = context.insertion l ++ context.partly done r := by
  rw [partly, Pattern.replace_of_some _ h, if_pos (List.contains_iff_mem.2 hl)]
  rfl

theorem partly_of_not_mem (h : (placeholder context.keys).read? t = some (l, r)) (hl : l ∉ done) :
    context.partly done t = (marker ++ l) ++ context.partly done r := by
  rw [partly, Pattern.replace_of_some _ h, if_neg fun hin => hl (List.contains_iff_mem.1 hin)]
  rfl

theorem standing_of_none (h : (placeholder context.keys).read? (c :: t) = none) :
    context.standing done (c :: t) = context.standing done t := by
  rw [standing, Pattern.hits_of_none _ h]
  rfl

theorem standing_of_mem (h : (placeholder context.keys).read? t = some (l, r)) (hl : l ∈ done) :
    context.standing done t = context.standing done r := by
  rw [standing, Pattern.hits_of_some _ h, List.filter_cons_of_neg (by simpa using hl)]
  rfl

theorem standing_of_not_mem (h : (placeholder context.keys).read? t = some (l, r))
    (hl : l ∉ done) : context.standing done t = l :: context.standing done r := by
  rw [standing, Pattern.hits_of_some _ h, List.filter_cons_of_pos (by simpa using hl)]
  rfl

theorem partly_nil (context : Context) (t : Text) : context.partly [] t = t := by
  induction t using (placeholder context.keys).read_induction with
  | nil => rfl
  | plain c t hr ih => rw [partly_of_none hr, ih]
  | hit t l r hr ih =>
    rw [partly_of_not_mem hr List.not_mem_nil, ih, (placeholder_read?_eq_some_iff.1 hr).2.1,
      List.append_assoc]

theorem partly_keys (context : Context) (t : Text) :
    context.partly context.keys t = context.atOnce t := by
  induction t using (placeholder context.keys).read_induction with
  | nil => rfl
  | plain c t hr ih =>
    rw [partly_of_none hr, ih]
    exact (Pattern.replace_of_none _ hr).symm
  | hit t l r hr ih =>
    have hl : l ∈ context.keys := mem_keys_iff_isKey.2 (placeholder_read?_eq_some_iff.1 hr).1
    rw [partly_of_mem hr hl, ih]
    exact (Pattern.replace_of_some _ hr).symm

/-! ## The turn of a key -/

theorem marker_append_ne_nil (k : Text) : marker ++ k ≠ [] := by simp [marker]

/-- What the turn of a key does to one pass: its placeholders that stand are exchanged for its
value, and nothing else changes. -/
theorem exchanged_partly (context : Context) (done : List Text) (k t : Text) :
    Exchanged (marker ++ k) (context.insertion k) (context.partly done t)
      (context.partly (done ++ [k]) t) ((context.standing done t).count k) := by
  induction t using (placeholder context.keys).read_induction with
  | nil => exact .nil
  | plain c t hr ih =>
    rw [partly_of_none hr, partly_of_none hr, standing_of_none hr]
    exact ih.keep [c]
  | hit t l r hr ih =>
    by_cases hl : l ∈ done
    · rw [partly_of_mem hr hl, partly_of_mem hr (List.mem_append_left [k] hl),
        standing_of_mem hr hl]
      exact ih.keep (context.insertion l)
    · by_cases hlk : l = k
      · subst hlk
        rw [partly_of_not_mem hr hl, partly_of_mem hr (by simp), standing_of_not_mem hr hl,
          List.count_cons_self]
        exact ih.swap
      · rw [partly_of_not_mem hr hl, partly_of_not_mem hr (by simp [hl, hlk]),
          standing_of_not_mem hr hl, List.count_cons_of_ne hlk]
        exact ih.keep (marker ++ l)

/-- If the placeholder of a key stands nowhere but where one pass has left it, the turn of the key
puts its value there, and nothing else changes. -/
theorem supply_partly (h : places (marker ++ k) (context.partly done t)
      ≤ (context.standing done t).count k) :
    context.supply (context.partly done t) k = context.partly (done ++ [k]) t :=
  (exchanged_partly context done k t).replace_eq (marker_append_ne_nil k) h

/-- A marker stands at no ending of a placeholder but all of it. -/
theorem eq_of_marker_front {u : Text} (hk : '@' ∉ k) (hne : k ≠ []) (hu : u <:+ marker ++ k)
    (hu0 : u ≠ []) (hfront : marker <+: u ++ t) : u = marker ++ k := by
  change u <:+ '@' :: '@' :: k at hu
  rcases List.suffix_cons_iff.1 hu with heq | hu
  · exact heq
  · rcases List.suffix_cons_iff.1 hu with rfl | hu
    · -- The key would start with the second `@` of the marker.
      obtain ⟨d, k, rfl⟩ := List.exists_cons_of_ne_nil hne
      obtain ⟨rfl, -⟩ := List.cons_prefix_cons.1 (List.cons_prefix_cons.1 hfront).2
      exact absurd List.mem_cons_self hk
    · obtain ⟨d, u, rfl⟩ := List.exists_cons_of_ne_nil hu0
      obtain ⟨rfl, -⟩ := List.cons_prefix_cons.1 hfront
      exact absurd (hu.subset List.mem_cons_self) hk

theorem unbordered_marked (hk : '@' ∉ k) (hne : k ≠ []) : Unbordered (marker ++ k) := by
  rintro u hu0 hu ⟨t, ht⟩
  have hfront : marker <+: u ++ t := by
    rw [ht]
    exact List.prefix_append marker k
  exact eq_of_marker_front hk hne hu hu0 hfront

/-! ## All turns -/

/-- When the turn of a key comes, its placeholder stands nowhere but where one pass reads it. -/
def NothingNew (context : Context) (t : Text) : Prop :=
  ∀ i (_ : i < context.keys.length),
    places (marker ++ context.keys[i]) (context.partly (context.keys.take i) t)
      ≤ (context.standing (context.keys.take i) t).count context.keys[i]

instance (context : Context) (t : Text) : Decidable (context.NothingNew t) :=
  Nat.decidableBallLT context.keys.length _

theorem NothingNew.foldl_supply (h : context.NothingNew t) {i : Nat}
    (hi : i ≤ context.keys.length) :
    (context.keys.take i).foldl context.supply t = context.partly (context.keys.take i) t := by
  induction i with
  | zero => exact (partly_nil context t).symm
  | succ i ih =>
    rw [← List.take_append_getElem hi, List.foldl_append, ih (Nat.le_of_succ_le hi)]
    exact supply_partly (h i hi)

/-- If nothing new comes up, one key after the other is as good as one pass. -/
theorem inTurn_eq_atOnce (h : context.NothingNew t) : context.inTurn t = context.atOnce t := by
  have hall := h.foldl_supply (Nat.le_refl _)
  rw [List.take_length] at hall
  rw [inTurn_eq, hall, partly_keys]

/-! ## Values that make nothing new -/

/-- Keys have no `@` in them, and neither have values. Every value starts with a character that no
key has. -/
def Apart (context : Context) : Prop :=
  ∀ m ∈ context, m.1 ≠ [] → '@' ∉ m.1 ∧ '@' ∉ valueText m.2 ∧
    ∃ c u, valueText m.2 = c :: u ∧ ∀ n ∈ context, c ∉ n.1

theorem Apart.of_mem_keys (h : context.Apart) (hk : k ∈ context.keys) :
    '@' ∉ k ∧ '@' ∉ context.insertion k ∧
      ∃ c u, context.insertion k = c :: u ∧ ∀ l ∈ context.keys, c ∉ l := by
  obtain ⟨v, hv, hinsertion⟩ := (mem_keys_iff_isKey.1 hk).exists_value
  obtain ⟨before, after, heq, -⟩ := List.lookup_eq_some_iff.1 hv
  have hmem : (k, v) ∈ context := by simp [heq]
  obtain ⟨hkey, hvalue, c, u, hcu, hc⟩ := h (k, v) hmem (mem_keys.1 hk).1
  rw [hinsertion]
  refine ⟨hkey, hvalue, c, u, hcu, fun l hl => ?_⟩
  obtain ⟨-, w, hw⟩ := mem_keys.1 hl
  exact hc (l, w) hw

/-- What could be the end of a placeholder stood in the text before. -/
theorem Apart.prefix_of_prefix_partly {w : Text} (h : context.Apart) (hk : k ∈ context.keys)
    (hw : w <:+ '@' :: k) (hpre : w <+: context.partly done t) : w <+: t := by
  refine Pattern.prefix_of_prefix_replace _ hpre ?_
  intro u hne hu t' l r hr z hz
  have hu := hu.trans hw
  have hl := mem_keys_iff_isKey.2 (placeholder_read?_eq_some_iff.1 hr).1
  obtain ⟨d, u, rfl⟩ := List.exists_cons_of_ne_nil hne
  split at hz
  · obtain ⟨-, hmark, c, v, hvalue, hc⟩ := h.of_mem_keys hl
    rw [hvalue] at hz hmark
    obtain rfl := (List.cons_prefix_cons.1 hz).1
    rcases List.mem_cons.1 (hu.subset List.mem_cons_self) with rfl | hd
    · exact hmark List.mem_cons_self
    · exact hc k hk hd
  · change d :: u <+: '@' :: '@' :: (l ++ z) at hz
    obtain ⟨rfl, hrest⟩ := List.cons_prefix_cons.1 hz
    rcases List.suffix_cons_iff.1 hu with heq | hu
    · -- The key would start with the second `@` of a marker.
      obtain rfl := (List.cons.inj heq).2
      obtain ⟨d, u, rfl⟩ := List.exists_cons_of_ne_nil (mem_keys.1 hk).1
      obtain rfl := (List.cons_prefix_cons.1 hrest).1
      exact (h.of_mem_keys hk).1 List.mem_cons_self
    · exact (h.of_mem_keys hk).1 (hu.subset List.mem_cons_self)

/-- A key that is no shorter than those that stand still is not read at the placeholder of another
one, whatever became of the text behind it. -/
theorem Apart.eq_of_front (h : context.Apart) (hk : k ∈ context.keys)
    (hr : (placeholder context.keys).read? t = some (l, r)) (horder : l.byteSize ≤ k.byteSize)
    (hpre : k <+: l ++ context.partly done r) : l = k := by
  obtain ⟨hkey, -, hlongest⟩ := placeholder_read?_eq_some_iff.1 hr
  have hbefore : k <+: l ++ r := by
    rcases List.prefix_or_prefix_of_prefix hpre (List.prefix_append l _) with hkl | ⟨x, rfl⟩
    · exact hkl.trans (List.prefix_append l r)
    · rw [List.prefix_append_right_inj] at hpre ⊢
      have hx : x <:+ '@' :: (l ++ x) := (List.suffix_append l x).trans (List.suffix_cons _ _)
      exact h.prefix_of_prefix_partly hk hx hpre
  have hkl : k <+: l := List.prefix_of_prefix_length_le hbefore (List.prefix_append l r)
    (hlongest k (mem_keys_iff_isKey.1 hk) hbefore)
  exact (eq_of_prefix_of_byteSize_le hkl horder).symm

/-- A placeholder of a key that is no shorter than those that stand still is one of them. -/
theorem Apart.places_partly_le (h : context.Apart) (hk : k ∈ context.keys)
    (horder : ∀ l ∈ context.keys, l ∉ done → l.byteSize ≤ k.byteSize) (t : Text) :
    places (marker ++ k) (context.partly done t) ≤ (context.standing done t).count k := by
  induction t using (placeholder context.keys).read_induction with
  | nil => exact Nat.le_refl 0
  | plain c t hr ih =>
    -- A placeholder at this character would have been read in the text before.
    have hnone : ¬ marker ++ k <+: c :: context.partly done t := by
      intro hpre
      change '@' :: '@' :: k <+: c :: context.partly done t at hpre
      obtain ⟨rfl, htail⟩ := List.cons_prefix_cons.1 hpre
      have hread := placeholder_read?_eq_none_iff.1 hr k (mem_keys_iff_isKey.1 hk)
      have hbefore := h.prefix_of_prefix_partly hk (List.suffix_refl _) htail
      exact hread (List.cons_prefix_cons.2 ⟨rfl, hbefore⟩)
    rw [partly_of_none hr, standing_of_none hr, places_cons_of_neg hnone]
    exact ih
  | hit t l r hr ih =>
    have hkey := (placeholder_read?_eq_some_iff.1 hr).1
    have hl := mem_keys_iff_isKey.2 hkey
    by_cases hdone : l ∈ done
    · -- The value of `l` stands here, and no marker starts in it.
      rw [partly_of_mem hr hdone, standing_of_mem hr hdone]
      exact Nat.le_trans (Nat.le_of_eq (places_append_of_not_mem (h.of_mem_keys hl).2.1 _)) ih
    · obtain ⟨hat, -⟩ := h.of_mem_keys hl
      rw [partly_of_not_mem hr hdone, standing_of_not_mem hr hdone]
      by_cases hlk : l = k
      · subst hlk
        rw [(unbordered_marked hat hkey.1).places_append (marker_append_ne_nil l),
          List.count_cons_self]
        exact Nat.succ_le_succ ih
      · -- The placeholder of another key stands here, and none of `k` starts in it.
        rw [List.count_cons_of_ne hlk, places_append_of_none]
        · exact ih
        · intro u hu0 hu hpre
          have hfront := (List.prefix_append marker k).trans hpre
          obtain rfl := eq_of_marker_front hat hkey.1 hu hu0 hfront
          rw [List.append_assoc, List.prefix_append_right_inj] at hpre
          exact hlk (h.eq_of_front hk hr (horder l hl hdone) hpre)

/-- Values that are apart from the keys make nothing new, whatever the text is. -/
theorem nothingNew_of_apart (h : context.Apart) (t : Text) : context.NothingNew t := by
  intro i hi
  refine h.places_partly_le (List.getElem_mem hi) ?_ t
  intro l hl hdone
  obtain ⟨j, hj, rfl⟩ := List.getElem_of_mem hl
  have hij : i ≤ j := by
    by_contra hji
    exact hdone (List.mem_take_iff_getElem.2 ⟨j, by omega, rfl⟩)
  rcases Nat.eq_or_lt_of_le hij with rfl | hij
  · exact Nat.le_refl _
  · exact List.pairwise_iff_getElem.1 pairwise_keys i j hi hj hij

/-! ## Keys that are too large -/

def crowded (n : Nat) (value : Text) : Context :=
  [(['a'], .string value), (['b'], .string ['x']), (List.replicate n 'k', .string ['y'])]

theorem byteSize_replicate (n : Nat) : byteSize (List.replicate n 'k') = n := by
  induction n with
  | zero => rfl
  | succ n ih =>
    rw [List.replicate_succ, byteSize_cons, ih, Nat.add_comm]
    rfl

theorem keys_crowded {n : Nat} (hn : 1 < n) (value : Text) :
    (crowded n value).keys = [List.replicate n 'k', ['a'], ['b']] := by
  have hne : List.replicate n 'k' ≠ [] := by simp; omega
  have hlong (c : Char) (hc : byteSize [c] = 1) : before [c] (List.replicate n 'k') = false := by
    simp [before, byteSize_replicate, hc]
    omega
  have hab : before ['a'] ['b'] = true := by decide
  simp [keys, crowded, hne, insertKey, hlong 'a' rfl, hlong 'b' rfl, hab]

theorem refusesKeys_crowded {n : Nat} (hn : 450000 ≤ n) (value : Text) :
    Matcher.bounded.refusesKeys (crowded n value).keys = true := by
  rw [keys_crowded (by omega)]
  -- The long key begins like neither of the others, so all of its states are its own.
  have hshared (c : Char) (hc : 'k' ≠ c) : sharedBytes 0 (List.replicate n 'k') [c] = 0 := by
    obtain ⟨m, rfl⟩ := Nat.exists_eq_add_of_le' (Nat.lt_of_lt_of_le (by decide : 0 < 450000) hn)
    rw [List.replicate_succ, sharedBytes, if_neg hc]
  have hstates : n ≤ keyStates [List.replicate n 'k', ['a'], ['b']] := by
    simp [keyStates, hshared, byteSize_replicate]
  have hsum : stateSize * n ≤ totalSize [List.replicate n 'k', ['a'], ['b']] := by
    simp [totalSize, size, byteSize_replicate]
  have hlimit : Matcher.limit < stateSize * n := by
    simp only [Matcher.limit, stateSize]
    omega
  exact Bool.and_eq_true_iff.2 ⟨decide_eq_true (Nat.lt_of_lt_of_le hlimit hsum),
    decide_eq_true (Nat.lt_of_lt_of_le hlimit (Nat.mul_le_mul_left stateSize hstates))⟩

/-- The value of a key goes on to be taken for a placeholder. -/
theorem inTurn_crowded {n : Nat} (hn : 1 < n) :
    (crowded n "@@b".toList).inTurn "@@a".toList = ['x'] := by
  have hlong : supply (crowded n "@@b".toList) "@@a".toList (List.replicate n 'k')
      = "@@a".toList := by
    refine Pattern.replace_eq_self fun u hu => literal_read?_eq_none fun hpre => ?_
    have hlength := Nat.le_trans hpre.length_le hu.length_le
    simp [marker] at hlength
    omega
  rw [inTurn_eq, keys_crowded hn, List.foldl_cons, hlong]
  rfl

theorem atOnce_crowded (n : Nat) (value : Text) :
    (crowded n value).atOnce "@@a".toList = value := by
  have hkey : IsKey (crowded n value) ['a'] := ⟨by decide, by simp [crowded]⟩
  have hfilled : Filled (crowded n value) (marker ++ (['a'] ++ [])) (value ++ []) :=
    .key hkey rfl (fun l _ hpre => hpre.length_le) .nil
  have hpass := hfilled.atOnce_eq
  rw [List.append_nil, List.append_nil] at hpass
  exact hpass

theorem apart_crowded (n : Nat) : (crowded n ['1']).Apart := by
  have hkeys (c : Char) (hc : c ≠ 'k' ∧ c ≠ 'a' ∧ c ≠ 'b') : ∀ m ∈ crowded n ['1'], c ∉ m.1 := by
    simp [crowded, hc]
  intro m hm _
  refine ⟨hkeys '@' (by decide) m hm, ?_⟩
  simp only [crowded, List.mem_cons, List.not_mem_nil, or_false] at hm
  rcases hm with rfl | rfl | rfl
  · exact ⟨by decide, '1', [], rfl, hkeys '1' (by decide)⟩
  · exact ⟨by decide, 'x', [], rfl, hkeys 'x' (by decide)⟩
  · exact ⟨by simp [valueText], 'y', [], rfl, hkeys 'y' (by decide)⟩

/-! ## Substitution -/

/-- If nothing new comes up, one key after the other is as good as one pass: whichever is taken, the
rules for one pass say what becomes of the text, and values are not looked at again. -/
theorem substitute_nothingNew [Matcher] (context : Context) (t : Text) (h : context.NothingNew t) :
    context.inTurn t = context.atOnce t ∧ context.Filled t (context.substitute t) := by
  have hsame := inTurn_eq_atOnce h
  refine ⟨hsame, ?_⟩
  rw [substitute_eq, hsame, ite_self]
  exact filled_atOnce context t

section

attribute [local instance] Matcher.bounded

theorem substitute_nothingNew_crowded :
    Matcher.bounded.refusesKeys (crowded 450000 ['1']).keys = true ∧
    (crowded 450000 ['1']).inTurn "@@a".toList = (crowded 450000 ['1']).atOnce "@@a".toList ∧
    (crowded 450000 ['1']).Filled "@@a".toList ((crowded 450000 ['1']).substitute "@@a".toList) :=
  ⟨refusesKeys_crowded (Nat.le_refl 450000) _,
    substitute_nothingNew _ _ (nothingNew_of_apart (apart_crowded 450000) _)⟩

/-- Where something new comes up, it can be a value: one pass leaves it as it is, and many do
not. -/
theorem substitute_again :
    Matcher.bounded.refusesKeys (crowded 450000 "@@b".toList).keys = true ∧
    (crowded 450000 "@@b".toList).substitute "@@a".toList = ['x'] ∧
    (crowded 450000 "@@b".toList).atOnce "@@a".toList = "@@b".toList := by
  have htoo := refusesKeys_crowded (Nat.le_refl 450000) "@@b".toList
  refine ⟨htoo, ?_, atOnce_crowded 450000 _⟩
  rw [substitute_eq, htoo, if_pos rfl]
  exact inTurn_crowded (by decide)

end

end Pagefold.Context
