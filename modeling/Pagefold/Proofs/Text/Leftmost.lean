import Pagefold.Proofs.Text.Matches

/-!
# Leftmost matches

What the matches of a text are can be said without reading it from left to right: they stand in the
text one behind the other, and wherever a match can start, it starts in one of them. There is one
list like that, and it is what a pattern finds.

* `Text.StandsAt`: a match stands between two bytes of a text;
* `Text.Leftmost`: the matches of a text from some byte on;
* `Text.Leftmost.unique`: there is one list of them at most;
* `Pattern.located_eq_iff`: a pattern finds exactly these.

What a match is, is left to a relation between the text at its front, its value and what follows it.
-/

namespace Pagefold

open Pattern (shift)

namespace Text

variable {α : Type}

/-- A match stands in a text, with the bytes where it starts and stops and its value. -/
def StandsAt (reads : Text → α → Text → Prop) (t : Text) (m : Nat × Nat × α) : Prop :=
  ∃ a s r, t = a ++ (s ++ r) ∧ reads (s ++ r) m.2.2 r ∧
    m.1 = a.byteSize ∧ m.2.1 = a.byteSize + s.byteSize

/-- The matches of a text that start at byte `n` or behind it: each stands in the text and takes
something of it, they stand one behind the other, and no match starts outside of them. -/
structure Leftmost (reads : Text → α → Text → Prop) (t : Text) (n : Nat)
    (found : List (Nat × Nat × α)) : Prop where
  stands : ∀ m ∈ found, StandsAt reads t m
  behind : ∀ m ∈ found, n ≤ m.1
  proper : ∀ m ∈ found, m.1 < m.2.1
  disjoint : found.Pairwise fun m k => m.2.1 ≤ k.1
  covers : ∀ m, StandsAt reads t m → n ≤ m.1 → ∃ k ∈ found, k.1 ≤ m.1 ∧ m.1 < k.2.1

variable {reads : Text → α → Text → Prop} {a t : Text} {n i : Nat} {m k : Nat × Nat × α}
  {found found' : List (Nat × Nat × α)}

/-! ## Texts with something in front -/

theorem StandsAt.shift (h : StandsAt reads t m) : StandsAt reads (a ++ t) (shift a.byteSize m) := by
  obtain ⟨b, s, r, rfl, hread, hstart, hstop⟩ := h
  refine ⟨a ++ b, s, r, by simp, hread, ?_, ?_⟩
  · rw [byteSize_append, ← hstart]
    rfl
  · rw [byteSize_append, Nat.add_assoc, ← hstop]
    rfl

theorem StandsAt.of_append (h : StandsAt reads (a ++ t) m) (ha : a.byteSize ≤ m.1) :
    ∃ k, m = Pattern.shift a.byteSize k ∧ StandsAt reads t k := by
  obtain ⟨b, s, r, ht, hread, hstart, hstop⟩ := h
  obtain ⟨c, rfl⟩ : a <+: b :=
    prefix_of_byteSize_le (List.prefix_append a t) ⟨s ++ r, ht.symm⟩ (by omega)
  rw [List.append_assoc] at ht
  rw [byteSize_append] at hstart hstop
  refine ⟨(byteSize c, byteSize c + byteSize s, m.2.2), ?_, c, s, r, List.append_cancel_left ht,
    hread, rfl, rfl⟩
  refine Prod.ext hstart (Prod.ext ?_ rfl)
  rw [hstop, Nat.add_assoc]
  rfl

theorem Leftmost.shift (h : Leftmost reads t n found) (a : Text) :
    Leftmost reads (a ++ t) (a.byteSize + n) (found.map (Pattern.shift a.byteSize)) where
  stands := by
    intro m hm
    obtain ⟨k, hk, rfl⟩ := List.mem_map.1 hm
    exact (h.stands k hk).shift
  behind := by
    intro m hm
    obtain ⟨k, hk, rfl⟩ := List.mem_map.1 hm
    exact Nat.add_le_add_left (h.behind k hk) _
  proper := by
    intro m hm
    obtain ⟨k, hk, rfl⟩ := List.mem_map.1 hm
    exact Nat.add_lt_add_left (h.proper k hk) _
  disjoint := by
    rw [List.pairwise_map]
    exact h.disjoint.imp fun hmk => Nat.add_le_add_left hmk _
  covers := by
    intro m hm hn
    obtain ⟨k, rfl, hk⟩ := hm.of_append (by omega)
    obtain ⟨j, hj, hle, hlt⟩ := h.covers k hk (Nat.le_of_add_le_add_left hn)
    exact ⟨_, List.mem_map_of_mem hj, Nat.add_le_add_left hle _, Nat.add_lt_add_left hlt _⟩

/-! ## One match more, and none -/

theorem Leftmost.nil (h : ∀ m, ¬ StandsAt reads t m) : Leftmost reads t n [] where
  stands _ hm := absurd hm List.not_mem_nil
  behind _ hm := absurd hm List.not_mem_nil
  proper _ hm := absurd hm List.not_mem_nil
  disjoint := .nil
  covers m hm _ := absurd hm (h m)

/-- Where no match starts, the matches behind it are all there are. -/
theorem Leftmost.widen (h : Leftmost reads t i found) (hni : n ≤ i)
    (hnone : ∀ m, StandsAt reads t m → n ≤ m.1 → i ≤ m.1) : Leftmost reads t n found where
  stands := h.stands
  behind m hm := Nat.le_trans hni (h.behind m hm)
  proper := h.proper
  disjoint := h.disjoint
  covers m hm hn := h.covers m hm (hnone m hm hn)

/-- The first match of all, and the matches behind it. -/
theorem Leftmost.cons (h : Leftmost reads t m.2.1 found) (hm : StandsAt reads t m)
    (hproper : m.1 < m.2.1) (hn : n ≤ m.1)
    (hfirst : ∀ k, StandsAt reads t k → n ≤ k.1 → m.1 ≤ k.1) :
    Leftmost reads t n (m :: found) where
  stands := List.forall_mem_cons.2 ⟨hm, h.stands⟩
  behind := List.forall_mem_cons.2 ⟨hn, fun k hk => by have := h.behind k hk; omega⟩
  proper := List.forall_mem_cons.2 ⟨hproper, h.proper⟩
  disjoint := List.pairwise_cons.2 ⟨h.behind, h.disjoint⟩
  covers := by
    intro k hk hnk
    by_cases hlt : k.1 < m.2.1
    · exact ⟨m, List.mem_cons_self, hfirst k hk hnk, hlt⟩
    · obtain ⟨j, hj, hrest⟩ := h.covers k hk (Nat.le_of_not_lt hlt)
      exact ⟨j, List.mem_cons_of_mem m hj, hrest⟩

/-! ## There is one list of matches -/

/-- At one byte, one match starts at most. -/
theorem StandsAt.unique (hreads : ∀ u v w r r', reads u v r → reads u w r' → v = w ∧ r = r')
    (hm : StandsAt reads t m) (hk : StandsAt reads t k) (h : m.1 = k.1) : m = k := by
  obtain ⟨a, s, r, rfl, hread, hstart, hstop⟩ := hm
  obtain ⟨b, u, w, ht, hread', hstart', hstop'⟩ := hk
  obtain ⟨rfl, hrest⟩ := append_inj_byteSize ht (by omega)
  rw [← hrest] at hread'
  obtain ⟨hvalue, rfl⟩ := hreads _ _ _ _ _ hread hread'
  obtain rfl := List.append_cancel_right hrest
  exact Prod.ext h (Prod.ext (hstop.trans hstop'.symm) hvalue)

theorem Leftmost.head_le (h : Leftmost reads t n (m :: found)) (hk : k ∈ m :: found) :
    m.1 ≤ k.1 := by
  rcases List.mem_cons.1 hk with rfl | hk
  · exact Nat.le_refl _
  · have hproper := h.proper m List.mem_cons_self
    have hbehind := (List.pairwise_cons.1 h.disjoint).1 k hk
    omega

theorem Leftmost.tail (h : Leftmost reads t n (m :: found)) : Leftmost reads t m.2.1 found where
  stands := (List.forall_mem_cons.1 h.stands).2
  behind := (List.pairwise_cons.1 h.disjoint).1
  proper := (List.forall_mem_cons.1 h.proper).2
  disjoint := (List.pairwise_cons.1 h.disjoint).2
  covers := by
    intro k hk hle
    have hm := h.behind m List.mem_cons_self
    have hproper := h.proper m List.mem_cons_self
    obtain ⟨j, hj, hjk, hlt⟩ := h.covers k hk (by omega)
    rcases List.mem_cons.1 hj with rfl | hj
    · omega
    · exact ⟨j, hj, hjk, hlt⟩

/-- Of two such lists, the first match of one starts no later than any of the other. -/
theorem Leftmost.start_le (h : Leftmost reads t n (m :: found)) (h' : Leftmost reads t n found')
    (hk : k ∈ found') : m.1 ≤ k.1 := by
  obtain ⟨j, hj, hle, -⟩ := h.covers k (h'.stands k hk) (h'.behind k hk)
  exact Nat.le_trans (h.head_le hj) hle

theorem Leftmost.unique (hreads : ∀ u v w r r', reads u v r → reads u w r' → v = w ∧ r = r')
    (h : Leftmost reads t n found) (h' : Leftmost reads t n found') : found = found' := by
  induction found generalizing n found' with
  | nil =>
    cases found' with
    | nil => rfl
    | cons k found' =>
      have hk : k ∈ k :: found' := List.mem_cons_self
      obtain ⟨j, hj, -⟩ := h.covers k (h'.stands k hk) (h'.behind k hk)
      cases hj
  | cons m found ih =>
    cases found' with
    | nil =>
      have hm : m ∈ m :: found := List.mem_cons_self
      obtain ⟨j, hj, -⟩ := h'.covers m (h.stands m hm) (h.behind m hm)
      cases hj
    | cons k found' =>
      -- Both lists start at the same byte, and only one match starts there.
      have hstart : m.1 = k.1 :=
        Nat.le_antisymm (h.start_le h' List.mem_cons_self) (h'.start_le h List.mem_cons_self)
      obtain rfl : m = k :=
        StandsAt.unique hreads (h.stands m List.mem_cons_self) (h'.stands k List.mem_cons_self)
          hstart
      rw [ih h.tail h'.tail]

end Text

namespace Pattern

open Text

variable {α : Type} (p : Pattern α) {t : Text}

/-- What is read off the front of a text. -/
def Reads (t : Text) (v : α) (r : Text) : Prop := p.read? t = some (v, r)

theorem reads_unique (u : Text) (v w : α) (r r' : Text) (h : p.Reads u v r) (h' : p.Reads u w r') :
    v = w ∧ r = r' := by
  rw [Reads, h, Option.some.injEq, Prod.mk.injEq] at h'
  exact h'

theorem leftmost_located (t : Text) : Leftmost p.Reads t 0 (p.located t) := by
  induction t using p.read_induction with
  | nil =>
    refine .nil ?_
    rintro m ⟨a, s, r, ht, hread, -⟩
    rw [(List.append_eq_nil_iff.1 ht.symm).2, Reads, p.read?_nil] at hread
    cases hread
  | plain c t hr ih =>
    rw [p.located_of_none hr]
    refine (ih.shift [c]).widen (Nat.zero_le _) ?_
    rintro m ⟨a, s, r, ht, hread, hstart, -⟩ -
    cases a with
    | nil =>
      rw [List.nil_append, List.singleton_append] at ht
      rw [← ht, Reads, hr] at hread
      cases hread
    | cons d a =>
      obtain rfl : c = d := (List.cons.inj ht).1
      rw [hstart]
      simp
  | hit t v r hr ih =>
    obtain ⟨s, hs, rfl⟩ := p.exists_source hr
    rw [p.located_of_some hr rfl]
    have hstands : StandsAt p.Reads (s ++ r) (0, byteSize s, v) :=
      ⟨[], s, r, rfl, hr, rfl, (Nat.zero_add _).symm⟩
    exact (ih.shift s).cons hstands (byteSize_pos hs) (Nat.le_refl 0) fun k _ _ => Nat.zero_le k.1

/-- What a pattern finds are the leftmost matches of what it reads. -/
theorem located_eq_iff {reads : Text → α → Text → Prop}
    (h : ∀ t v r, p.read? t = some (v, r) ↔ reads t v r) (t : Text) (found : List (Nat × Nat × α)) :
    p.located t = found ↔ Leftmost reads t 0 found := by
  obtain rfl : p.Reads = reads := by
    funext t v r
    exact propext (h t v r)
  constructor
  · rintro rfl
    exact p.leftmost_located t
  · exact (p.leftmost_located t).unique p.reads_unique

theorem occursIn_iff (t : Text) : p.occursIn t = true ↔ p.located t ≠ [] := by
  induction t using p.read_induction with
  | nil => simp [occursIn, located]
  | plain c t hr ih =>
    rw [occursIn, hr, p.located_of_none hr, Option.isSome_none, Bool.false_or, ih, ne_eq, ne_eq,
      List.map_eq_nil_iff]
  | hit t v r hr ih =>
    obtain ⟨s, hs, rfl⟩ := p.exists_source hr
    obtain ⟨c, s, rfl⟩ := List.exists_cons_of_ne_nil hs
    have hoccurs : p.occursIn (c :: (s ++ r)) = true := by
      rw [List.cons_append] at hr
      rw [occursIn, hr, Option.isSome_some, Bool.true_or]
    rw [p.located_of_some hr rfl]
    simp [hoccurs]

end Pattern

end Pagefold
