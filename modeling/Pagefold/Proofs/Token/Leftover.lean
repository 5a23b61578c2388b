import Pagefold.Proofs.Text.Ascending
import Pagefold.Proofs.Text.Matches
import Pagefold.Token

/-!
# Tokens that are left over

Tokens are removed in one pass. What closes up behind them is not looked at again, so a token can come
out of a text in which tokens stood between the two characters of a marker, and in no other way.

* `Token.IsRun`: the characters of a token's name;
* `Pattern.cutBefore_of_marked`, `Pattern.barren_marked`, `Pattern.replace_marked`: what is known of all
  that starts with a marker;
* `Token.read?_run`, `Token.strip_run`: a token that is read and removed;
* `Token.Present`, `Token.Parted`, `Token.present_strip_iff`: which texts keep a token.
-/

namespace Pagefold

open Text

/-- All characters may stand in a token's name. -/
def Token.IsRun (n : Text) : Prop := n.all isNameChar = true

instance (n : Text) : Decidable (Token.IsRun n) := by unfold Token.IsRun; infer_instance

namespace Token

variable {n : Text} {c : Char}

theorem isRun_iff : IsRun n ↔ ∀ c ∈ n, isNameChar c = true := List.all_eq_true

theorem IsRun.at_not_mem (h : IsRun n) : '@' ∉ n :=
  fun hc => absurd (isRun_iff.1 h '@' hc) (by decide)

theorem isRun_takeWhile (t : Text) : IsRun (t.takeWhile isNameChar) := List.all_takeWhile

theorem head?_dropWhile (t : Text) : ∀ c ∈ (t.dropWhile isNameChar).head?, isNameChar c = false := by
  intro c hc
  have := List.head?_dropWhile_not isNameChar t
  rw [Option.mem_def] at hc
  simpa [hc] using this

theorem takeWhile_run (hn : IsRun n) (t : Text) :
    (n ++ t).takeWhile isNameChar = n ++ t.takeWhile isNameChar :=
  List.takeWhile_append_of_pos (isRun_iff.1 hn)

theorem dropWhile_run (hn : IsRun n) (t : Text) :
    (n ++ t).dropWhile isNameChar = t.dropWhile isNameChar :=
  List.dropWhile_append_of_pos (isRun_iff.1 hn)

theorem takeWhile_eq_nil {t : Text} (h : ∀ c ∈ t.head?, isNameChar c = false) :
    t.takeWhile isNameChar = [] := by
  cases t with
  | nil => rfl
  | cons c t => rw [List.takeWhile_cons, if_neg (by simp [h c rfl])]

theorem dropWhile_eq_self {t : Text} (h : ∀ c ∈ t.head?, isNameChar c = false) :
    t.dropWhile isNameChar = t := by
  cases t with
  | nil => rfl
  | cons c t => rw [List.dropWhile_cons, if_neg (by simp [h c rfl])]

end Token

namespace Pattern

/-! ## Behind a marker -/

section Marked

variable {α : Type} {p : Pattern α} {g : Text → Option (α × Text)} {a n t u : Text} {c : Char}

theorem dropPrefix?_marker (t : Text) :
    dropPrefix? Context.marker t =
      match t with
      | '@' :: '@' :: r => some r
      | _ => none := by
  change dropPrefix? ['@', '@'] t = _
  match t with
  | [] => rfl
  | [c] => by_cases hc : c = '@' <;> simp [dropPrefix?, hc, eq_comm]
  | c :: d :: r => by_cases hc : c = '@' <;> by_cases hd : d = '@' <;> simp_all [dropPrefix?, eq_comm]

theorem append_marker (a n t : Text) :
    a ++ Context.marker ++ n ++ t = a ++ '@' :: '@' :: (n ++ t) := by
  simp [Context.marker]

variable (hp : ∀ t, p.read? t = (dropPrefix? Context.marker t).bind g)
include hp

theorem read?_marked (t : Text) : p.read? ('@' :: '@' :: t) = g t := by
  rw [hp, dropPrefix?_marker]
  rfl

theorem read?_of_ne (hc : c ≠ '@') (t : Text) : p.read? (c :: t) = none := by
  rw [hp, dropPrefix?_marker]
  simp [hc]

theorem read?_of_second_ne {d : Char} (hd : d ≠ '@') (c : Char) (t : Text) :
    p.read? (c :: d :: t) = none := by
  rw [hp, dropPrefix?_marker]
  simp [hd]

/-- Two `@` are not read together with what stands in front of them, if no name holds one. -/
theorem cutBefore_of_marked (hnil : g [] = none)
    (hg : ∀ b u, u.head? = some '@' → g (b ++ u) = (g b).map fun m => (m.1, m.2 ++ u)) (u : Text) :
    p.CutBefore ('@' :: '@' :: u) := by
  intro a ha
  match a with
  | [] => exact absurd rfl ha
  | [c] =>
    have hlone : p.read? [c] = none := by rw [hp, dropPrefix?_marker]; simp
    rw [hlone, Option.map_none, List.singleton_append]
    by_cases hc : c = '@'
    · rw [hc, read?_marked hp]
      simpa [hnil] using hg [] ('@' :: u) rfl
    · exact read?_of_ne hp hc _
  | c :: d :: b =>
    by_cases hc : c = '@'
    · by_cases hd : d = '@'
      · rw [hc, hd, read?_marked hp]
        exact (read?_marked hp _).trans (hg b _ rfl)
      · rw [read?_of_second_ne hp hd, List.cons_append, List.cons_append, read?_of_second_ne hp hd]
        rfl
    · rw [read?_of_ne hp hc, List.cons_append, read?_of_ne hp hc]
      rfl

theorem read?_of_head_ne (ht : t.head? ≠ some '@') (c : Char) : p.read? (c :: t) = none := by
  cases t with
  | nil =>
    rw [hp, dropPrefix?_marker]
    simp
  | cons d t => exact read?_of_second_ne hp (by simpa using ht) c t

theorem barren_of_not_mem (ha : '@' ∉ a) (t : Text) : p.Barren a t :=
  barren_of_start (fun _ u hc => read?_of_ne hp hc u) ha t

theorem barren_run (hn : Token.IsRun n) (t : Text) : p.Barren n t :=
  barren_of_not_mem hp hn.at_not_mem t

/-- In a marker with a name behind it, something is read at the very front or nowhere. -/
theorem barren_marked (hn : Token.IsRun n) (hne : n ≠ []) (h : g (n ++ t) = none) :
    p.Barren (Context.marker ++ n) t := by
  change p.Barren ('@' :: '@' :: n) t
  refine barren_cons.2 ⟨(read?_marked hp _).trans h, barren_cons.2 ⟨?_, barren_run hp hn t⟩⟩
  cases n with
  | nil => exact absurd rfl hne
  | cons c n =>
    refine read?_of_second_ne hp ?_ _ _
    rintro rfl
    exact hn.at_not_mem List.mem_cons_self

/-- A marker with a name that is not read stays, and the texts around it are read on their own. -/
theorem replace_marked {f : α → Text} (hcut : ∀ u, p.CutBefore ('@' :: '@' :: u))
    (hn : Token.IsRun n) (hne : n ≠ []) (h : g (n ++ t) = none) (a : Text) :
    p.replace f (a ++ Context.marker ++ n ++ t)
      = p.replace f a ++ Context.marker ++ n ++ p.replace f t := by
  have hfront : p.replace f ('@' :: '@' :: (n ++ t)) = Context.marker ++ n ++ p.replace f t :=
    (barren_marked hp hn hne h).replace
  rw [append_marker, (hcut (n ++ t)).replace, hfront]
  simp only [List.append_assoc]

theorem head?_replace {f : α → Text} (h : t.head? ≠ some '@') :
    (p.replace f t).head? = t.head? := by
  cases t with
  | nil => rfl
  | cons c t =>
    have hc : c ≠ '@' := by simpa using h
    rw [replace_of_none p (read?_of_ne hp hc t)]
    rfl

end Marked

end Pattern

namespace Token

variable {n t u : Text} {c : Char} {names : List Text}

/-! ## Reading -/

/-- The name behind a marker, and what follows it. -/
def named (t : Text) : Option (Text × Text) :=
  match t.takeWhile isNameChar with
  | [] => none
  | c :: name => some (Context.marker ++ c :: name, t.dropWhile isNameChar)

theorem read?_eq (t : Text) : pattern.read? t = (dropPrefix? Context.marker t).bind named := rfl

/-- A token takes all the characters that its name can have. -/
theorem named_run (hn : IsRun n) (hne : n ≠ []) (t : Text) :
    named (n ++ t) =
      some (Context.marker ++ (n ++ t.takeWhile isNameChar), t.dropWhile isNameChar) := by
  unfold named
  rw [takeWhile_run hn, dropWhile_run hn]
  cases n with
  | nil => exact absurd rfl hne
  | cons c n => rfl

theorem named_of_head {t : Text} (h : ∀ c ∈ t.head?, isNameChar c = false) : named t = none := by
  unfold named
  rw [takeWhile_eq_nil h]

theorem named_eq_none_iff : named t = none ↔ ∀ c ∈ t.head?, isNameChar c = false := by
  refine ⟨fun h c hc => ?_, named_of_head⟩
  obtain ⟨r, rfl⟩ := List.head?_eq_some_iff.1 hc
  by_contra hname
  have hrun : IsRun [c] := by simpa [IsRun] using hname
  have hsome := named_run hrun (List.cons_ne_nil c []) r
  rw [List.singleton_append, h] at hsome
  cases hsome

theorem read?_run (hn : IsRun n) (hne : n ≠ []) (t : Text) :
    pattern.read? (Context.marker ++ n ++ t) =
      some (Context.marker ++ (n ++ t.takeWhile isNameChar), t.dropWhile isNameChar) := by
  rw [List.append_assoc]
  exact (Pattern.read?_marked read?_eq _).trans (named_run hn hne t)

/-- What is read is a marker with a name, and no character of a name follows. -/
theorem exists_name_of_read? {v r : Text} (h : pattern.read? t = some (v, r)) :
    ∃ n, n ≠ [] ∧ IsRun n ∧ v = Context.marker ++ n ∧ t = Context.marker ++ n ++ r ∧
      ∀ c ∈ r.head?, isNameChar c = false := by
  rw [read?_eq] at h
  obtain ⟨s, hs, hname⟩ := Option.bind_eq_some_iff.1 h
  rw [dropPrefix?_eq_some_iff] at hs
  have hsplit := List.takeWhile_append_dropWhile (p := isNameChar) (l := s)
  have hrun := isRun_takeWhile s
  have hhead := head?_dropWhile s
  unfold named at hname
  generalize s.takeWhile isNameChar = n at hname hsplit hrun
  cases n with
  | nil => cases hname
  | cons c n =>
    cases hname
    exact ⟨c :: n, by simp, hrun, rfl, by rw [List.append_assoc, hsplit, hs], hhead⟩

theorem cutBefore (u : Text) : pattern.CutBefore ('@' :: '@' :: u) := by
  refine Pattern.cutBefore_of_marked read?_eq rfl (fun b u hu => ?_) u
  have hu' : ∀ c ∈ u.head?, isNameChar c = false := by
    intro c hc
    rw [Option.mem_def, hu, Option.some.injEq] at hc
    subst hc
    rfl
  -- The name ends before `u` at the latest.
  have hb := List.takeWhile_append_dropWhile (p := isNameChar) (l := b)
  have hrun := isRun_takeWhile b
  have hhead := head?_dropWhile b
  generalize b.takeWhile isNameChar = n at hb hrun
  generalize b.dropWhile isNameChar = r at hb hhead
  subst hb
  have hru : ∀ c ∈ (r ++ u).head?, isNameChar c = false := by
    cases r with
    | nil => exact hu'
    | cons c r => exact hhead
  by_cases hne : n = []
  · subst hne
    rw [List.nil_append, named_of_head hru, named_of_head hhead]
    rfl
  · rw [List.append_assoc, named_run hrun hne, named_run hrun hne, takeWhile_eq_nil hru,
      takeWhile_eq_nil hhead, dropWhile_eq_self hru, dropWhile_eq_self hhead]
    rfl

/-! ## Texts without their tokens -/

abbrev stripped (t : Text) : Text := (strip t).1

theorem stripped_of_none (h : pattern.read? (c :: t) = none) :
    stripped (c :: t) = c :: stripped t := pattern.replace_of_none h

theorem stripped_of_some {v r : Text} (h : pattern.read? t = some (v, r)) :
    stripped t = stripped r := pattern.replace_of_some h

theorem stripped_append (a u : Text) :
    stripped (a ++ '@' :: '@' :: u) = stripped a ++ stripped ('@' :: '@' :: u) :=
  (cutBefore u).replace a

/-- A token is removed with all its characters, and it is told. -/
theorem strip_run (hn : IsRun n) (hne : n ≠ []) (a t : Text) :
    stripped (a ++ Context.marker ++ n ++ t)
        = stripped a ++ stripped (t.dropWhile isNameChar) ∧
      Context.marker ++ (n ++ t.takeWhile isNameChar)
        ∈ (strip (a ++ Context.marker ++ n ++ t)).2 := by
  have hread : pattern.read? ('@' :: '@' :: (n ++ t)) = _ := read?_run hn hne t
  constructor
  · rw [Pattern.append_marker, stripped_append, stripped_of_some hread]
  · rw [strip, mem_sortedUnique, Pattern.append_marker, (cutBefore (n ++ t)).hits,
      pattern.hits_of_some hread]
    exact List.mem_append_right _ List.mem_cons_self

/-- A token starts somewhere in a text. -/
def Present (t : Text) : Prop :=
  ∃ before c after, isNameChar c = true ∧ t = before ++ Context.marker ++ c :: after

/-- Tokens stand between the two characters of a marker. -/
def Parted (t : Text) : Prop :=
  ∃ before names c after, names ≠ [] ∧ (∀ n ∈ names, n ≠ [] ∧ IsRun n) ∧ isNameChar c = true ∧
    t = before ++ '@' :: names.flatMap (Context.marker ++ ·) ++ '@' :: c :: after

theorem Parted.append (h : Parted u) (s : Text) : Parted (s ++ u) := by
  obtain ⟨before, names, c, after, hne, hnames, hc, rfl⟩ := h
  exact ⟨s ++ before, names, c, after, hne, hnames, hc, by simp⟩

theorem Present.append (h : Present u) (s : Text) : Present (s ++ u) := by
  obtain ⟨before, c, after, hc, rfl⟩ := h
  exact ⟨s ++ before, c, after, hc, by simp⟩

/-- A name character that comes first has not come up behind a token. -/
theorem head_of_stripped (hc : isNameChar c = true) (h : stripped t = c :: u) :
    ∃ r, t = c :: r := by
  induction t using pattern.read_induction with
  | nil => cases h
  | plain d t hr ih =>
    rw [stripped_of_none hr] at h
    exact ⟨t, by rw [(List.cons.inj h).1]⟩
  | hit t v r hr ih =>
    obtain ⟨n, -, -, -, -, hhead⟩ := exists_name_of_read? hr
    rw [stripped_of_some hr] at h
    obtain ⟨r', rfl⟩ := ih h
    rw [hhead c rfl] at hc
    cases hc

/-- In front of an `@` that comes first with a name character, there were only tokens. -/
theorem names_of_stripped (hc : isNameChar c = true) (h : stripped t = '@' :: c :: u) :
    ∃ names r, (∀ n ∈ names, n ≠ [] ∧ IsRun n) ∧
      t = List.flatMap (Context.marker ++ ·) names ++ '@' :: c :: r := by
  induction t using pattern.read_induction with
  | nil => cases h
  | plain d t hr ih =>
    rw [stripped_of_none hr] at h
    obtain ⟨rfl, hrest⟩ := List.cons.inj h
    obtain ⟨r, rfl⟩ := head_of_stripped hc hrest
    exact ⟨[], r, by simp, rfl⟩
  | hit t v r hr ih =>
    obtain ⟨n, hne, hrun, -, rfl, -⟩ := exists_name_of_read? hr
    rw [stripped_of_some hr] at h
    obtain ⟨names, r', hnames, rfl⟩ := ih h
    refine ⟨n :: names, r', fun m hm => ?_, by simp⟩
    rcases List.mem_cons.1 hm with rfl | hm
    · exact ⟨hne, hrun⟩
    · exact hnames m hm

theorem present_cons_iff :
    Present (c :: t) ↔ (∃ d u, isNameChar d = true ∧ c = '@' ∧ t = '@' :: d :: u) ∨ Present t := by
  constructor
  · rintro ⟨before, d, after, hd, h⟩
    cases before with
    | nil =>
      obtain ⟨rfl, rfl⟩ := List.cons.inj h
      exact .inl ⟨d, after, hd, rfl, rfl⟩
    | cons b before =>
      obtain ⟨rfl, rfl⟩ := List.cons.inj h
      exact .inr ⟨before, d, after, hd, rfl⟩
  · rintro (⟨d, u, hd, rfl, rfl⟩ | h)
    · exact ⟨[], d, u, hd, rfl⟩
    · exact h.append [c]

/-- A token that comes out when tokens are removed was parted by them. -/
theorem parted_of_present (h : Present (stripped t)) : Parted t := by
  induction t using pattern.read_induction with
  | nil =>
    obtain ⟨before, c, after, -, hnil⟩ := h
    have hlength := congrArg List.length hnil
    simp [stripped, strip] at hlength
  | plain c t hr ih =>
    rw [stripped_of_none hr, present_cons_iff] at h
    rcases h with ⟨d, u, hd, rfl, hfront⟩ | h
    · obtain ⟨names, r, hnames, rfl⟩ := names_of_stripped hd hfront
      refine ⟨[], names, d, r, ?_, hnames, hd, rfl⟩
      -- Without a token in between, the marker would have been read.
      rintro rfl
      have hread := read?_run (n := [d]) (isRun_iff.2 (by simpa using hd)) (by simp) r
      rw [show Context.marker ++ [d] ++ r = '@' :: ([].flatMap (Context.marker ++ ·) ++ '@' :: d :: r)
        from rfl, hr] at hread
      cases hread
    · exact (ih h).append [c]
  | hit t v r hr ih =>
    obtain ⟨n, -, -, -, rfl, -⟩ := exists_name_of_read? hr
    rw [stripped_of_some hr] at h
    exact (ih h).append (Context.marker ++ n)

theorem stripped_names (hnames : ∀ n ∈ names, n ≠ [] ∧ IsRun n) (u : Text) :
    stripped (names.flatMap (Context.marker ++ ·) ++ '@' :: u) = stripped ('@' :: u) := by
  induction names with
  | nil => rfl
  | cons n names ih =>
    obtain ⟨hne, hrun⟩ := hnames n List.mem_cons_self
    have hhead : ∀ c ∈ (names.flatMap (Context.marker ++ ·) ++ '@' :: u).head?,
        isNameChar c = false := by
      intro c hc
      obtain rfl : '@' = c := by
        cases names with
        | nil => exact Option.some.inj hc
        | cons m names => exact Option.some.inj hc
      rfl
    rw [List.flatMap_cons, List.append_assoc, stripped_of_some (read?_run hrun hne _),
      dropWhile_eq_self hhead, ih fun m hm => hnames m (List.mem_cons_of_mem n hm)]

/-- A text keeps a token, when its tokens are removed, exactly where tokens stand between the two
characters of a marker. -/
theorem present_strip_iff : Present (strip t).1 ↔ Parted t := by
  refine ⟨parted_of_present, ?_⟩
  rintro ⟨before, _ | ⟨n, names⟩, c, after, hne, hnames, hc, rfl⟩
  · exact absurd rfl hne
  have hat : c ≠ '@' := by
    rintro rfl
    cases hc
  have hfront : stripped ('@' :: ((n :: names).flatMap (Context.marker ++ ·) ++ '@' :: c :: after))
      = '@' :: '@' :: c :: stripped after := by
    rw [stripped_of_none ?_, stripped_names hnames,
      stripped_of_none (Pattern.read?_of_second_ne read?_eq hat _ _),
      stripped_of_none (Pattern.read?_of_ne read?_eq hat _)]
    exact (Pattern.read?_marked read?_eq _).trans (named_of_head fun c hc => by cases hc; rfl)
  have hmarker : Context.marker = ['@', '@'] := rfl
  have hsplit : '@' :: ((n :: names).flatMap (Context.marker ++ ·) ++ '@' :: c :: after)
      = '@' :: '@' :: ('@' :: n ++ names.flatMap (Context.marker ++ ·) ++ '@' :: c :: after) := by
    simp [hmarker]
  refine ⟨stripped before, c, stripped after, hc, ?_⟩
  rw [List.append_assoc, List.cons_append, hsplit, ← stripped, stripped_append, ← hsplit, hfront,
    hmarker]
  simp

end Token

end Pagefold
