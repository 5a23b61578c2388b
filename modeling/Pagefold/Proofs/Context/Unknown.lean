import Pagefold.Flatten
import Pagefold.Proofs.Context.Placeholder

/-!
# Placeholders that no key supplies

A placeholder of a text is a marker with a name behind it, as many name characters as there are. What
becomes of one depends on the keys at the front of its name, be they the whole name or not.

* `Context.substitute_unknown`: with no key at the front of its name a placeholder stays, and it is
  removed and told as a token later on; otherwise the longest such key is replaced;
* `Context.substitute_partly`: the name need not be a key for that.
-/

namespace Pagefold.Context

open Text
open Token (IsRun isNameChar)

variable {context : Context} {ks : List Text} {a b k n : Text}

/-! ## Names without a key -/

theorem head?_supply (h : b.head? ≠ some '@') (k : Text) :
    (context.supply b k).head? = b.head? := Pattern.head?_replace (literal_read?_eq k) h

theorem supply_unknown (hk : IsRun k) (hkne : k ≠ []) (hkn : ¬ k <+: n) (hn : IsRun n) (hne : n ≠ [])
    (hb : ∀ c ∈ b.head?, isNameChar c = false) :
    context.supply (a ++ marker ++ n ++ b) k
      = context.supply a k ++ marker ++ n ++ context.supply b k := by
  refine Pattern.replace_marked (literal_read?_eq k) (cutBefore_literal hk.at_not_mem hkne) hn hne ?_ a
  rw [literalKey?, dropPrefix?_eq_none_iff.2 fun h => hkn (prefix_of_run hk hb h)]
  rfl

/-- Key after key leaves a placeholder alone, as long as no value can come up right behind it. -/
theorem foldl_supply_unknown (hks : ∀ k ∈ ks, IsRun k ∧ k ≠ [] ∧ ¬ k <+: n) (hn : IsRun n)
    (hne : n ≠ []) (hb : ∀ c ∈ b.head?, isNameChar c = false) (hat : b.head? ≠ some '@') :
    ks.foldl context.supply (a ++ marker ++ n ++ b)
      = ks.foldl context.supply a ++ marker ++ n ++ ks.foldl context.supply b := by
  induction ks generalizing a b with
  | nil => rfl
  | cons k ks ih =>
    obtain ⟨hk, hkne, hkn⟩ := hks k List.mem_cons_self
    have hhead : (context.supply b k).head? = b.head? := head?_supply hat k
    rw [List.foldl_cons, supply_unknown hk hkne hkn hn hne hb,
      ih (fun l hl => hks l (List.mem_cons_of_mem k hl)) (by rwa [hhead]) (by rwa [hhead])]
    rfl

theorem atOnce_unknown (hplain : context.Plain) (hkn : ∀ k ∈ context.keys, ¬ k <+: n) (hn : IsRun n)
    (hne : n ≠ []) (hb : ∀ c ∈ b.head?, isNameChar c = false) :
    context.atOnce (a ++ marker ++ n ++ b)
      = context.atOnce a ++ marker ++ n ++ context.atOnce b := by
  refine Pattern.replace_marked (placeholder_read?_eq _)
    (cutBefore_placeholder hplain.at_not_mem nil_not_mem_keys) hn hne ?_ a
  exact firstKey?_eq_none fun k hk h => hkn k hk (prefix_of_run (hplain.isRun hk) hb h)

theorem substitute_of_no_key [Matcher] (hplain : context.Plain)
    (hkn : ∀ k ∈ context.keys, ¬ k <+: n) (hn : IsRun n) (hne : n ≠ [])
    (hb : ∀ c ∈ b.head?, isNameChar c = false)
    (hpass : Matcher.refusesKeys context.keys = false ∨ b.head? ≠ some '@') :
    context.substitute (a ++ marker ++ n ++ b)
      = context.substitute a ++ marker ++ n ++ context.substitute b := by
  rw [substitute_eq, substitute_eq, substitute_eq]
  split
  · next hmany =>
    have hat := hpass.resolve_left (by simp [hmany])
    refine foldl_supply_unknown (fun k hk => ?_) hn hne hb hat
    exact ⟨hplain.isRun hk, (mem_keys.1 hk).1, hkn k hk⟩
  · exact atOnce_unknown hplain hkn hn hne hb

theorem head?_substitute [Matcher] (h : b.head? ≠ some '@') :
    (context.substitute b).head? = b.head? := by
  rw [substitute_eq]
  split
  · rw [inTurn_eq]
    induction context.keys generalizing b with
    | nil => rfl
    | cons k ks ih => rw [List.foldl_cons, ih (by rwa [head?_supply h]), head?_supply h]
  · exact Pattern.head?_replace (placeholder_read?_eq _) h

/-! ## Names with a key at their front -/

theorem atOnce_known (hplain : context.Plain) (hk : k ∈ context.keys) (hkn : k <+: n)
    (hlongest : ∀ l ∈ context.keys, l <+: n → l.length ≤ k.length) (hn : IsRun n)
    (hb : ∀ c ∈ b.head?, isNameChar c = false) :
    context.atOnce (a ++ marker ++ n ++ b)
      = context.atOnce a ++ context.insertion k ++ n.drop k.length ++ context.atOnce b := by
  obtain ⟨r, rfl⟩ := hkn
  have hread : (placeholder context.keys).read? ('@' :: '@' :: (k ++ (r ++ b)))
      = some (k, r ++ b) := by
    rw [Pattern.read?_marked (placeholder_read?_eq _)]
    refine firstKey?_longest pairwise_keys hk fun l hl h => hlongest l hl ?_
    rw [← List.append_assoc] at h
    exact prefix_of_run (hplain.isRun hl) hb h
  have hr : IsRun r := Token.isRun_iff.2 fun c hc => Token.isRun_iff.1 hn c (by simp [hc])
  rw [atOnce, Pattern.append_marker, List.append_assoc,
    (cutBefore_placeholder hplain.at_not_mem nil_not_mem_keys _).replace,
    Pattern.replace_of_some _ hread,
    (Pattern.barren_run (placeholder_read?_eq context.keys) hr b).replace, List.drop_left]
  simp only [atOnce, List.append_assoc]

/-! ## All placeholders -/

/-- A placeholder with no key at the front of its name stays. It is then removed as a token and told,
together with the name characters of a value that was put right behind it. Of the keys at the front of
a name, the longest is replaced, and the rest of the name stays. -/
theorem substitute_unknown [Matcher] (hplain : context.Plain) (hn : IsRun n) (hne : n ≠ [])
    (hb : ∀ c ∈ b.head?, isNameChar c = false) :
    ((∀ k ∈ context.keys, ¬ k <+: n) →
      (Matcher.refusesKeys context.keys = false ∨ b.head? ≠ some '@') →
      context.substitute (a ++ marker ++ n ++ b)
          = context.substitute a ++ marker ++ n ++ context.substitute b ∧
        (Token.strip (context.substitute (a ++ marker ++ n ++ b))).1
          = (Token.strip (context.substitute a)).1
            ++ (Token.strip ((context.substitute b).dropWhile isNameChar)).1 ∧
        (∃ tokens, marker ++ (n ++ (context.substitute b).takeWhile isNameChar) ∈ tokens ∧
          Flatten.tokenDiagnostics (Token.strip (context.substitute (a ++ marker ++ n ++ b))).2
            = [.leftoverTokens tokens]) ∧
        (b.head? ≠ some '@' → (context.substitute b).takeWhile isNameChar = [])) ∧
    (∀ k ∈ context.keys, k <+: n → (∀ l ∈ context.keys, l <+: n → l.length ≤ k.length) →
      Matcher.refusesKeys context.keys = false →
      context.substitute (a ++ marker ++ n ++ b)
        = context.substitute a ++ context.insertion k ++ n.drop k.length ++ context.substitute b) := by
  constructor
  · intro hkn hpass
    obtain ⟨hstrip, htold⟩ := Token.strip_run hn hne (context.substitute a) (context.substitute b)
    have hsubstitute := substitute_of_no_key (a := a) hplain hkn hn hne hb hpass
    rw [hsubstitute]
    refine ⟨rfl, hstrip, ⟨_, htold, ?_⟩, fun hat => ?_⟩
    · rw [Flatten.tokenDiagnostics, if_neg (List.ne_nil_of_mem htold)]
    · exact Token.takeWhile_eq_nil (by rwa [head?_substitute hat])
  · intro k hk hkn hlongest hone
    rw [substitute_eq_atOnce hone, substitute_eq_atOnce hone, substitute_eq_atOnce hone]
    exact atOnce_known hplain hk hkn hlongest hn hb

def titled : Context := [("title".toList, .string "Home".toList)]

theorem keys_titled : titled.keys = ["title".toList] := rfl

theorem plain_titled : titled.Plain := by
  intro m hm
  obtain rfl := List.mem_singleton.1 hm
  decide

section

attribute [local instance] Matcher.unlimited

theorem substitute_unknown_titled :
    (titled.substitute "@@title @@subtitle.".toList = "Home @@subtitle.".toList ∧
      (Token.strip "Home @@subtitle.".toList).1 = "Home .".toList ∧
      ∃ tokens, "@@subtitle".toList ∈ tokens ∧
        Flatten.tokenDiagnostics (Token.strip "Home @@subtitle.".toList).2
          = [.leftoverTokens tokens]) ∧
    titled.substitute "@@title @@titles.".toList = "Home Homes.".toList := by
  have hb : ∀ c ∈ ".".toList.head?, isNameChar c = false := by
    rintro c ⟨⟩
    rfl
  constructor
  · have hunknown := substitute_unknown (a := "@@title ".toList) (n := "subtitle".toList)
      (b := ".".toList) plain_titled (by decide) (by decide) hb
    obtain ⟨-, hstrip, ⟨tokens, hmem, htold⟩, -⟩ :=
      hunknown.1 (by rw [keys_titled]; decide) (.inl rfl)
    exact ⟨rfl, hstrip, tokens, hmem, htold⟩
  · have hknown := substitute_unknown (a := "@@title ".toList) (n := "titles".toList)
      (b := ".".toList) plain_titled (by decide) (by decide) hb
    exact hknown.2 "title".toList (by rw [keys_titled]; decide) (by decide)
      (by rw [keys_titled]; decide) rfl

/-- A placeholder whose name is no key is replaced in part when a key is at its front, and it is told
under another name when a value is put right behind it. -/
theorem substitute_partly :
    titled.Plain ∧
    ("titles".toList ∉ titled.map Prod.fst ∧
      titled.substitute (marker ++ "titles".toList) = "Homes".toList ∧
      ¬ (marker ++ "titles".toList) <:+: titled.substitute (marker ++ "titles".toList) ∧
      (Token.strip (titled.substitute (marker ++ "titles".toList))).2 = []) ∧
    ("x".toList ∉ titled.map Prod.fst ∧
      titled.substitute (marker ++ "x".toList ++ "@@title".toList) = "@@xHome".toList ∧
      (Token.strip (titled.substitute (marker ++ "x".toList ++ "@@title".toList))).2
        = ["@@xHome".toList]) := by
  refine ⟨plain_titled, ⟨by decide, rfl, ?_, rfl⟩, by decide, rfl, rfl⟩
  rw [show titled.substitute (marker ++ "titles".toList) = "Homes".toList from rfl]
  decide

end

end Pagefold.Context
