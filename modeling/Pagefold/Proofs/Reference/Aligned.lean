import Pagefold.Proofs.Reference.Found
import Pagefold.Proofs.Reference.Redirect

/-!
# Reading a redirected text in step

A text and its redirected form are read side by side. Where the readers stop, the two texts differ
in references that start with the folder, or both rest on the inside of such a reference.

* `Reference.Redirected`: a text in which some references start differently; `redirected_redirect`;
* `Reference.Behind`: what may follow a quote in two such texts;
* `Reference.attribute?_rel`, `Reference.url?_rel`: the readers find the same matches in both;
* `Reference.all_aligned`: the references of the two texts correspond one by one.

A value with a parenthesis in it can hold a `url(` that is redirected itself. Such values are left
out.
-/

namespace Pagefold.Reference

open Text

/-- The second text has `e'` for `e` behind some quotes and some openings of `url(`. -/
inductive Redirected (e e' : Text) : Text → Text → Prop where
  | nil : Redirected e e' [] []
  | keep {t u : Text} (c : Char) (h : Redirected e e' t u) : Redirected e e' (c :: t) (c :: u)
  | quoted {q : Char} {t u : Text} (hq : isQuote q = true) (h : Redirected e e' t u) :
      Redirected e e' (q :: (e ++ t)) (q :: (e' ++ u))
  | url {w q t u : Text} (hw : ∀ c ∈ w, isBlank c = true) (hq : IsMark q)
      (h : Redirected e e' t u) :
      Redirected e e' ("url(".toList ++ (w ++ q ++ (e ++ t))) ("url(".toList ++ (q ++ (e' ++ u)))

/-- What follows a quote, or an opening, in two such texts. -/
inductive Behind (e e' : Text) : Text → Text → Prop where
  | same {t u : Text} (h : Redirected e e' t u) : Behind e e' t u
  | moved {t u : Text} (h : Redirected e e' t u) : Behind e e' (e ++ t) (e' ++ u)

/-- A value that is kept, or starts differently. -/
def Same (e e' v w : Text) : Prop := w = v ∨ ∃ x, v = e ++ x ∧ w = e' ++ x

variable {e e' t u v w r r' kw dir start : Text} {c : Char} {p : Char → Bool}

theorem Redirected.append (a : Text) (h : Redirected e e' t u) :
    Redirected e e' (a ++ t) (a ++ u) := by
  induction a with
  | nil => exact h
  | cons c a ih => exact ih.keep c

theorem redirected_redirect (hdir : IsFolderName dir) (hstart : IsUnmarked start) (t : Text) :
    Redirected (dir ++ ['/']) start t (redirect dir start t) := by
  rw [redirect_eq hdir hstart]
  induction t using (referenceStart dir).read_induction with
  | nil => exact .nil
  | plain c t hnone ih =>
    rw [(referenceStart dir).replace_of_none hnone]
    exact ih.keep c
  | hit t v r hread ih =>
    rw [(referenceStart dir).replace_of_some hread]
    obtain ⟨kw, o, s, hop, rfl, rfl⟩ := (referenceStart?_eq_some_iff hdir).1 hread
    cases hop with
    | @assignment _ w w' q hkw hw hw' hq =>
      simpa using (ih.quoted hq).append (kw ++ (w ++ '=' :: w'))
    | url hw hq => simpa using ih.url hw hq

/-! ## The front of two texts -/

/-- Both texts are at their end, or start with the same character; behind it they differ in
references again, unless a quote or the first letter of `url(` was read. -/
theorem Redirected.cases_head (h : Redirected e e' t u) :
    (t = [] ∧ u = []) ∨ ∃ c t' u', t = c :: t' ∧ u = c :: u' ∧
      (Redirected e e' t' u' ∨ (isQuote c = true ∧ Behind e e' t' u') ∨ c = 'u') := by
  cases h with
  | nil => exact .inl ⟨rfl, rfl⟩
  | keep c h => exact .inr ⟨c, _, _, rfl, rfl, .inl h⟩
  | quoted hq h => exact .inr ⟨_, _, _, rfl, rfl, .inr (.inl ⟨hq, .moved h⟩)⟩
  | url hw hq h => exact .inr ⟨'u', _, _, rfl, rfl, .inr (.inr rfl)⟩

theorem Redirected.eq_nil (h : Redirected e e' [] u) : u = [] := by
  rcases h.cases_head with ⟨-, hu⟩ | ⟨_, _, _, ht, -⟩
  · exact hu
  · cases ht

theorem Redirected.of_cons (hq : isQuote c = false) (hc : c ≠ 'u')
    (h : Redirected e e' (c :: t) u) : ∃ u', u = c :: u' ∧ Redirected e e' t u' := by
  rcases h.cases_head with ⟨hnil, -⟩ | ⟨d, t', u', heq, rfl, hrest⟩
  · cases hnil
  · cases heq
    rcases hrest with hrest | ⟨hquote, -⟩ | hu
    · exact ⟨u', rfl, hrest⟩
    · rw [hq] at hquote
      cases hquote
    · exact absurd hu hc

theorem Redirected.of_quote (hq : isQuote c = true) (h : Redirected e e' (c :: t) u) :
    ∃ u', u = c :: u' ∧ Behind e e' t u' := by
  rcases h.cases_head with ⟨hnil, -⟩ | ⟨d, t', u', heq, rfl, hrest⟩
  · cases hnil
  · cases heq
    rcases hrest with hrest | ⟨-, hrest⟩ | rfl
    · exact ⟨u', rfl, .same hrest⟩
    · exact ⟨u', rfl, hrest⟩
    · exact absurd hq (by decide)

theorem Redirected.skipBlanks (h : Redirected e e' t u) :
    Redirected e e' (skipBlanks t) (skipBlanks u) ∧ t.takeWhile isBlank = u.takeWhile isBlank := by
  induction h with
  | nil => exact ⟨.nil, rfl⟩
  | keep c h ih =>
    cases hc : isBlank c with
    | true => simpa [Text.skipBlanks, hc] using ih
    | false => simpa [Text.skipBlanks, hc] using h.keep c
  | quoted hq h =>
    have hc := not_isBlank_of_isQuote hq
    simpa [Text.skipBlanks, hc] using h.quoted hq
  | url hw hq h => exact ⟨h.url hw hq, rfl⟩

theorem Redirected.skipQuote (h : Redirected e e' t u) :
    Behind e e' (skipQuote t) (skipQuote u) := by
  rcases h.cases_head with ⟨rfl, rfl⟩ | ⟨c, t', u', rfl, rfl, -⟩
  · exact .same .nil
  · cases hc : isQuote c with
    | true =>
      obtain ⟨u'', heq, hrest⟩ := h.of_quote hc
      cases heq
      simpa [Reference.skipQuote, hc] using hrest
    | false => simpa [Reference.skipQuote, hc] using Behind.same h

/-! ## Spans -/

/-- Characters that values consist of: no quotes, and all others but perhaps a closing
parenthesis. -/
structure IsSpan (p : Char → Bool) : Prop where
  quote : ∀ c, isQuote c = true → p c = false
  other : ∀ c, isQuote c = false → c ≠ ')' → p c = true

theorem isSpan_attribute : IsSpan (!isQuote ·) :=
  ⟨fun c hc => by simp [hc], fun c hc _ => by simp [hc]⟩

theorem isSpan_url : IsSpan isUrlChar := by
  constructor
  · intro c hc
    simp [isUrlChar, hc]
  · intro c hc hne
    simp [isUrlChar, hc, hne]

theorem IsSpan.of_isBlank (hp : IsSpan p) (hc : isBlank c = true) : p c = true := by
  refine hp.other c ?_ ?_
  · rw [Bool.eq_false_iff]
    intro hq
    rw [not_isBlank_of_isQuote hq] at hc
    cases hc
  · rintro rfl
    revert hc
    decide

theorem IsSpan.of_isStart (hp : IsSpan p) (he : IsStart e) (hc : c ∈ e) : p c = true := by
  obtain ⟨-, hq, hmark⟩ := he.plain c hc
  refine hp.other c hq ?_
  rintro rfl
  exact hmark (by decide)

/-- The two texts are left in step by the characters of values. What was taken is the same, or has a
parenthesis in it. -/
theorem Redirected.span (he : IsStart e) (he' : IsStart e') (hp : IsSpan p)
    (h : Redirected e e' t u) :
    Redirected e e' (t.dropWhile p) (u.dropWhile p) ∧ (t.takeWhile p = [] ↔ u.takeWhile p = []) ∧
      ('(' ∈ t.takeWhile p ∨ t.takeWhile p = u.takeWhile p) := by
  induction h with
  | nil => exact ⟨.nil, Iff.rfl, .inr rfl⟩
  | keep c h ih =>
    cases hc : p c with
    | true =>
      obtain ⟨hdrop, -, htake⟩ := ih
      refine ⟨by simpa [hc] using hdrop, by simp [hc], ?_⟩
      rcases htake with htake | htake
      · exact .inl (by simp [hc, htake])
      · exact .inr (by simp [hc, htake])
    | false => exact ⟨by simpa [hc] using h.keep c, by simp [hc], .inr (by simp [hc])⟩
  | quoted hq h =>
    have hc := hp.quote _ hq
    exact ⟨by simpa [hc] using h.quoted hq, by simp [hc], .inr (by simp [hc])⟩
  | @url w q t u hw hq h ih =>
    have hurl : ∀ c ∈ "url(".toList, p c = true := by
      intro c hc
      refine hp.other c ?_ ?_
      · exact Bool.eq_false_iff.2 fun hq => by rcases isQuote_iff.1 hq with rfl | rfl <;> simp at hc
      · rintro rfl
        simp at hc
    rw [List.dropWhile_append_of_pos hurl, List.dropWhile_append_of_pos hurl,
      List.takeWhile_append_of_pos hurl, List.takeWhile_append_of_pos hurl]
    refine ⟨?_, by simp, .inl (List.mem_append_left _ (by decide))⟩
    rw [List.append_assoc, List.dropWhile_append_of_pos fun c hc => hp.of_isBlank (hw c hc)]
    rcases hq with rfl | ⟨c, hc, rfl⟩
    · rw [List.nil_append, List.nil_append,
        List.dropWhile_append_of_pos fun c hc => hp.of_isStart he hc,
        List.dropWhile_append_of_pos fun c hc => hp.of_isStart he' hc]
      exact ih.1
    · -- A quote ends the value inside the opening.
      simpa [hp.quote c hc] using h.quoted hc

theorem Behind.span (he : IsStart e) (he' : IsStart e') (hp : IsSpan p) (h : Behind e e' t u) :
    Redirected e e' (t.dropWhile p) (u.dropWhile p) ∧ (t.takeWhile p = [] ↔ u.takeWhile p = []) ∧
      ('(' ∈ t.takeWhile p ∨ Same e e' (t.takeWhile p) (u.takeWhile p)) := by
  cases h with
  | same h =>
    obtain ⟨hdrop, hnil, htake⟩ := h.span he he' hp
    exact ⟨hdrop, hnil, htake.imp_right fun heq => .inl heq.symm⟩
  | @moved t u h =>
    obtain ⟨hdrop, -, htake⟩ := h.span he he' hp
    have hall : ∀ c ∈ e, p c = true := fun c hc => hp.of_isStart he hc
    have hall' : ∀ c ∈ e', p c = true := fun c hc => hp.of_isStart he' hc
    rw [List.dropWhile_append_of_pos hall, List.dropWhile_append_of_pos hall',
      List.takeWhile_append_of_pos hall, List.takeWhile_append_of_pos hall']
    refine ⟨hdrop, by simp [he.ne_nil, he'.ne_nil], ?_⟩
    rcases htake with htake | htake
    · exact .inl (List.mem_append_right e htake)
    · exact .inr (.inr ⟨t.takeWhile p, rfl, by rw [htake]⟩)

/-! ## The readers -/

/-- Two matches that correspond, with what follows them. -/
def Match (e e' : Text) (m n : Text × Text) : Prop :=
  ('(' ∈ m.1 ∨ Same e e' m.1 n.1) ∧ Behind e e' m.2 n.2

theorem quotedValue?_eq (t : Text) : quotedValue? t = match t.dropWhile (!isQuote ·) with
    | _ :: rest => if t.takeWhile (!isQuote ·) = [] then none
      else some (t.takeWhile (!isQuote ·), rest)
    | [] => none := by
  unfold quotedValue?
  cases t.takeWhile (!isQuote ·) <;> cases t.dropWhile (!isQuote ·) <;> simp

theorem quotedValue?_rel (he : IsStart e) (he' : IsStart e') (h : Behind e e' t u) :
    Option.Rel (Match e e') (quotedValue? t) (quotedValue? u) := by
  obtain ⟨hdrop, hnil, htake⟩ := h.span he he' isSpan_attribute
  rw [quotedValue?_eq, quotedValue?_eq]
  cases hd : t.dropWhile (!isQuote ·) with
  | nil =>
    rw [hd] at hdrop
    rw [hdrop.eq_nil]
    exact .none
  | cons c rest =>
    have hquote : isQuote c = true := by
      have := List.head?_dropWhile_not (!isQuote ·) t
      rw [hd] at this
      simpa using this
    rw [hd] at hdrop
    obtain ⟨rest', hrest, hbehind⟩ := hdrop.of_quote hquote
    rw [hrest]
    simp only [hnil]
    split
    · exact .none
    · exact .some ⟨htake, hbehind⟩

theorem dropFolded?_rel {name : Text}
    (hname : 'U' ∉ name.map caseKey ∧ '\'' ∉ name.map caseKey ∧ '"' ∉ name.map caseKey)
    (h : Redirected e e' t u) :
    Option.Rel (Redirected e e') (dropFolded? name t) (dropFolded? name u) := by
  induction name generalizing t u with
  | nil => exact .some h
  | cons a name ih =>
    rcases h.cases_head with ⟨rfl, rfl⟩ | ⟨c, t', u', rfl, rfl, -⟩
    · exact .none
    · simp only [dropFolded?]
      split
      · next hac =>
        rw [List.map_cons, hac] at hname
        simp only [List.mem_cons, not_or] at hname
        obtain ⟨⟨hu, hname₁⟩, ⟨hsingle, hname₂⟩, hdouble, hname₃⟩ := hname
        have hc : isQuote c = false := by
          rw [Bool.eq_false_iff]
          intro hquote
          rcases isQuote_iff.1 hquote with rfl | rfl
          · exact hsingle rfl
          · exact hdouble rfl
        have hc' : c ≠ 'u' := by
          rintro rfl
          exact hu rfl
        obtain ⟨u'', heq, hrest⟩ := h.of_cons hc hc'
        cases heq
        exact ih ⟨hname₁, hname₂, hname₃⟩ hrest
      · exact .none

theorem assigned?_rel (h : Redirected e e' t u) :
    Option.Rel (Behind e e') (assigned? t) (assigned? u) := by
  -- Blanks, an equals sign, blanks and a quote: both texts stay in step over each of them.
  have hskip := h.skipBlanks.1
  unfold assigned?
  rcases hskip.cases_head with ⟨ht, hu⟩ | ⟨c, t', u', ht, hu, -⟩
  · rw [ht, hu]
    exact .none
  · by_cases hc : c = '='
    · subst hc
      rw [ht, hu] at hskip ⊢
      obtain ⟨u'', heq, hrest⟩ := hskip.of_cons (by decide) (by decide)
      cases heq
      have hskip' := hrest.skipBlanks.1
      rcases hskip'.cases_head with ⟨ht', hu'⟩ | ⟨q, t'', u'', ht', hu', -⟩
      · simp only [ht', hu']
        exact .none
      · simp only [ht', hu']
        rw [ht', hu'] at hskip'
        split
        · next hq =>
          obtain ⟨v, heq, hrest⟩ := hskip'.of_quote hq
          cases heq
          exact .some hrest
        · exact .none
    · rw [ht, hu]
      split
      · next heq => exact absurd (List.cons.inj heq).1 hc
      · split
        · next heq => exact absurd (List.cons.inj heq).1 hc
        · exact .none

theorem orElse_rel {α β : Type} {R : α → β → Prop} {a b : Option α} {a' b' : Option β}
    (h : Option.Rel R a a') (h' : a = none → a' = none → Option.Rel R b b') :
    Option.Rel R (a <|> b) (a' <|> b') := by
  cases h with
  | some h => exact .some h
  | none => exact h' rfl rfl

theorem bind_rel {α β α' β' : Type} {R : α → β → Prop} {S : α' → β' → Prop} {a : Option α}
    {b : Option β} {f : α → Option α'} {g : β → Option β'} (h : Option.Rel R a b)
    (hfg : ∀ a b, R a b → Option.Rel S (f a) (g b)) : Option.Rel S (a.bind f) (b.bind g) := by
  cases h with
  | some h => exact hfg _ _ h
  | none => exact .none

theorem rel_mono {α β : Type} {R S : α → β → Prop} {a : Option α} {b : Option β}
    (h : Option.Rel R a b) (hRS : ∀ a b, R a b → S a b) : Option.Rel S a b := by
  cases h with
  | some h => exact .some (hRS _ _ h)
  | none => exact .none

theorem map_rel {α β α' β' : Type} {R : α → β → Prop} {S : α' → β' → Prop} {a : Option α}
    {b : Option β} {f : α → α'} {g : β → β'} (h : Option.Rel R a b)
    (hfg : ∀ a b, R a b → S (f a) (g b)) : Option.Rel S (a.map f) (b.map g) := by
  cases h with
  | some h => exact .some (hfg _ _ h)
  | none => exact .none

theorem attribute?_rel (he : IsStart e) (he' : IsStart e') (h : Redirected e e' t u) :
    Option.Rel (Match e e') (attribute? t) (attribute? u) := by
  unfold attribute?
  refine bind_rel (orElse_rel (dropFolded?_rel (by decide) h) fun _ _ =>
    dropFolded?_rel (by decide) h) ?_
  intro t u h
  refine bind_rel (assigned?_rel h) ?_
  intro t u h
  exact quotedValue?_rel he he' h

/-- What follows blanks and a closing parenthesis. -/
def closing? (t : Text) : Option Text :=
  match skipBlanks t with
  | ')' :: rest => some rest
  | _ => none

theorem closing?_of_isStart (he : IsStart e) : closing? (e ++ t) = none := by
  obtain ⟨c, l, rfl⟩ := List.exists_cons_of_ne_nil he.ne_nil
  have hc := (he.plain c List.mem_cons_self).2.2
  rw [closing?, he.skipBlanks_append, List.cons_append]
  split
  · next heq =>
    rw [(List.cons.inj heq).1] at hc
    exact absurd hc (by decide)
  · rfl

theorem closing?_rel (he : IsStart e) (he' : IsStart e') (h : Behind e e' t u) :
    Option.Rel (Redirected e e') (closing? t) (closing? u) := by
  cases h with
  | same h =>
    have hskip := h.skipBlanks.1
    unfold closing?
    rcases hskip.cases_head with ⟨ht, hu⟩ | ⟨c, t', u', ht, hu, -⟩
    · rw [ht, hu]
      exact .none
    · rw [ht, hu] at hskip ⊢
      by_cases hc : c = ')'
      · subst hc
        obtain ⟨u'', heq, hrest⟩ := hskip.of_cons (by decide) (by decide)
        cases heq
        exact .some hrest
      · split
        · next heq => exact absurd (List.cons.inj heq).1 hc
        · split
          · next heq => exact absurd (List.cons.inj heq).1 hc
          · exact .none
  | moved h =>
    rw [closing?_of_isStart he, closing?_of_isStart he']
    exact .none

theorem urlValue?_eq (t : Text) : urlValue? t =
    if t.takeWhile isUrlChar = [] then none
    else (closing? (skipQuote (t.dropWhile isUrlChar))).map fun rest =>
      (t.takeWhile isUrlChar, rest) := by
  unfold urlValue? closing?
  cases t.takeWhile isUrlChar with
  | nil => simp
  | cons c v =>
    simp only [reduceCtorEq, if_false]
    split
    · next hv hs =>
      cases hv
      rw [hs]
      rfl
    · next hno =>
      split
      · next rest hs => exact absurd hs (hno c v rest rfl)
      · rfl

theorem urlValue?_rel (he : IsStart e) (he' : IsStart e') (h : Behind e e' t u) :
    Option.Rel (Match e e') (urlValue? t) (urlValue? u) := by
  obtain ⟨hdrop, hnil, htake⟩ := h.span he he' isSpan_url
  rw [urlValue?_eq, urlValue?_eq]
  simp only [hnil]
  split
  · exact .none
  · exact map_rel (closing?_rel he he' hdrop.skipQuote) fun rest rest' h => ⟨htake, .same h⟩

/-- What may follow the `url(` of two texts: the opening of a reference that starts differently
belongs to it. -/
def BehindUrl (e e' t u : Text) : Prop :=
  Redirected e e' t u ∨ ∃ w q t' u', (∀ c ∈ w, isBlank c = true) ∧ IsMark q ∧
    t = w ++ q ++ (e ++ t') ∧ u = q ++ (e' ++ u') ∧ Redirected e e' t' u'

theorem dropFolded?_url_rel (h : Redirected e e' t u) :
    Option.Rel (BehindUrl e e') (dropFolded? "url(".toList t) (dropFolded? "url(".toList u) := by
  cases h with
  | nil => exact .none
  | keep c h =>
    show Option.Rel _ (if caseKey 'u' = caseKey c then dropFolded? "rl(".toList _ else none)
      (if caseKey 'u' = caseKey c then dropFolded? "rl(".toList _ else none)
    split
    · exact rel_mono (dropFolded?_rel (by decide) h) fun _ _ h => .inl h
    · exact .none
  | @quoted q t u hq h =>
    have hne : caseKey 'u' ≠ caseKey q := by
      rcases isQuote_iff.1 hq with rfl | rfl <;> decide
    show Option.Rel _ (if caseKey 'u' = caseKey q then _ else none)
      (if caseKey 'u' = caseKey q then _ else none)
    rw [if_neg hne, if_neg hne]
    exact .none
  | @url w q t u hw hq h => exact .some (.inr ⟨w, q, t, u, hw, hq, rfl, rfl, h⟩)

/-- A value that is not closed is not closed with a blank in front of it either. -/
theorem urlValue?_of_isBlank {b : Char} {q : Text} (he : IsStart e) (hb : isBlank b = true)
    (hq : IsMark q) (h : urlValue? (e ++ t) = none) : urlValue? (b :: (q ++ (e ++ t))) = none := by
  have hspan := isSpan_url.of_isBlank hb
  rw [urlValue?_eq, List.takeWhile_cons_of_pos hspan, if_neg (by simp),
    List.dropWhile_cons_of_pos hspan, Option.map_eq_none_iff]
  rcases hq with rfl | ⟨c, hc, rfl⟩
  · have htake : (e ++ t).takeWhile isUrlChar ≠ [] := by
      rw [List.takeWhile_append_of_pos fun c hc => isSpan_url.of_isStart he hc]
      simp [he.ne_nil]
    rw [urlValue?_eq, if_neg htake, Option.map_eq_none_iff] at h
    exact h
  · have hstop := isSpan_url.quote c hc
    rw [List.singleton_append, List.dropWhile_cons_of_neg (by simp [hstop]), skipQuote, if_pos hc]
    exact closing?_of_isStart he

theorem url?_rel (he : IsStart e) (he' : IsStart e') (h : Redirected e e' t u) :
    Option.Rel (Match e e') (url? t) (url? u) := by
  unfold url?
  refine bind_rel (dropFolded?_url_rel h) ?_
  rintro t u (h | ⟨w, q, t', u', hw, hq, rfl, rfl, h⟩)
  · obtain ⟨hskip, hblanks⟩ := h.skipBlanks
    refine orElse_rel (urlValue?_rel he he' hskip.skipQuote) fun _ _ => ?_
    rw [hblanks]
    cases (u.takeWhile isBlank).getLast? with
    | none => exact .none
    | some b => exact urlValue?_rel he he' (.same (hskip.keep b))
  · have ht := he.skip_append (r := t') hw hq
    have hu := he'.skip_append (r := u') (w := []) (by simp) hq
    rw [List.nil_append] at hu
    simp only [ht, hu]
    refine orElse_rel (urlValue?_rel he he' (.moved h)) fun hnone _ => ?_
    -- Where the value is not closed, there is no match in either text.
    have hblanks : skipBlanks (w ++ q ++ (e ++ t')) = q ++ (e ++ t') := by
      rw [List.append_assoc, skipBlanks_append hw]
      rcases hq with rfl | ⟨c, hc, rfl⟩
      · exact he.skipBlanks_append
      · exact skipBlanks_of_not (not_isBlank_of_isQuote hc)
    have hnoBlank : (q ++ (e' ++ u')).takeWhile isBlank = [] := by
      rcases hq with rfl | ⟨c, hc, rfl⟩
      · obtain ⟨c, l, rfl⟩ := List.exists_cons_of_ne_nil he'.ne_nil
        simp [(he'.plain c List.mem_cons_self).1]
      · simp [not_isBlank_of_isQuote hc]
    rw [hblanks, hnoBlank]
    cases hlast : ((w ++ q ++ (e ++ t')).takeWhile isBlank).getLast? with
    | none => exact .none
    | some b =>
      have hb := List.all_eq_true.1 List.all_takeWhile b (List.mem_of_getLast? hlast)
      show Option.Rel _ (urlValue? (b :: (q ++ (e ++ t')))) none
      rw [urlValue?_of_isBlank he hb hq hnone]
      exact .none

/-! ## All references -/

/-- A pattern that finds corresponding matches at the front of two texts finds them everywhere. -/
theorem hits_aligned {p : Pattern Text} (hp : LedBy p) (he : IsStart e) (he' : IsStart e')
    (hread : ∀ t u, Redirected e e' t u → Option.Rel (Match e e') (p.read? t) (p.read? u))
    (h : Redirected e e' t u) :
    List.Forall₂ (Same e e') (p.hits t) (p.hits u) ∨ ∃ v ∈ p.hits t, '(' ∈ v := by
  refine p.forall₂_hits (?_ : ∀ t u, Behind e e' t u → _) (.same h)
  rintro t u (h | h)
  · have hrel := hread t u h
    generalize hm : p.read? t = m at hrel
    generalize hn : p.read? u = n at hrel
    cases hrel with
    | @some m n hmatch =>
      rcases hmatch.1 with hbad | hsame
      · exact .stop hm hbad
      · exact .hit hm hn hsame hmatch.2
    | none =>
      -- Nothing is read in either text, so both are passed up to where they agree again.
      cases h with
      | nil => exact .finish
      | @keep t u c h =>
        have ht : p.Barren [c] t := Pattern.barren_cons.2 ⟨hm, Pattern.barren_nil⟩
        have hu : p.Barren [c] u := Pattern.barren_cons.2 ⟨hn, Pattern.barren_nil⟩
        exact .pass (by simp) ht hu (.same h)
      | @quoted q t u hq h =>
        have ht : p.Barren (q :: e) t := Pattern.barren_cons.2 ⟨hm, he.barren hp⟩
        have hu : p.Barren (q :: e') u := Pattern.barren_cons.2 ⟨hn, he'.barren hp⟩
        exact .pass (by simp) ht hu (.same h)
      | @url w q t u hw hq h =>
        have hop : Opening "url(".toList (w ++ q) q := .url hw hq
        have hsplit : "url(".toList ++ (w ++ q ++ (e ++ t)) = "url(".toList ++ (w ++ q) ++ e ++ t := by
          simp only [List.append_assoc]
        have hsplit' : "url(".toList ++ (q ++ (e' ++ u)) = "url(".toList ++ q ++ e' ++ u := by
          simp only [List.append_assoc]
        rw [hsplit] at hm ⊢
        rw [hsplit'] at hn ⊢
        exact .pass (by simp) (hp.barren_of_none hop.lead he.toIsUnmarked hm)
          (hp.barren_of_none hop.shown.lead he'.toIsUnmarked hn) (.same h)
  · exact .pass he.ne_nil (he.barren hp) (he'.barren hp) (.same h)

/-- The references of a text and of the redirected text correspond one by one, where none has a
parenthesis in it. -/
theorem all_aligned (hdir : IsFolderName dir) (hstart : IsStart start)
    (h : ∀ r ∈ all t, '(' ∉ r) :
    List.Forall₂ (Same (dir ++ ['/']) start) (all t) (all (redirect dir start t)) := by
  have hpair := redirected_redirect hdir hstart.toIsUnmarked t
  have hattribute := hits_aligned ledBy_attributeValue hdir.isStart hstart
    (fun _ _ => attribute?_rel hdir.isStart hstart) hpair
  have hurl := hits_aligned ledBy_urlValue hdir.isStart hstart
    (fun _ _ => url?_rel hdir.isStart hstart) hpair
  rcases hattribute with hattribute | ⟨v, hv, hbad⟩
  · rcases hurl with hurl | ⟨v, hv, hbad⟩
    · exact List.rel_append hattribute hurl
    · exact absurd hbad (h v (List.mem_append_right _ hv))
  · exact absurd hbad (h v (List.mem_append_left _ hv))

theorem exists_of_mem_all_redirect (hdir : IsFolderName dir) (hstart : IsStart start)
    (h : ∀ r ∈ all t, '(' ∉ r) (hw : w ∈ all (redirect dir start t)) :
    ∃ v ∈ all t, Same (dir ++ ['/']) start v w := by
  have haligned := all_aligned hdir hstart h
  generalize all t = vs, all (redirect dir start t) = ws at haligned hw
  induction haligned with
  | nil => cases hw
  | cons hsame _ ih =>
    rcases List.mem_cons.1 hw with rfl | hw
    · exact ⟨_, List.mem_cons_self, hsame⟩
    · obtain ⟨v, hv, hsame⟩ := ih hw
      exact ⟨v, List.mem_cons_of_mem _ hv, hsame⟩

end Pagefold.Reference
