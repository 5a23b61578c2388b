import Pagefold.Proofs.Path.Steps

/-!
# Walks through a tree

Where a path leads in a tree, as a relation with one rule for each kind of step. All that is said of
walks is by induction over it.

* `Tree.Leads`, `Tree.walk_eq_ok_iff`: the rules, and that they say what a walk does;
* `Tree.Extends`, `Tree.Leads.mono`: what is added to a tree does not change where a path leads;
* `Tree.Leads.append`, `Tree.Leads.split`: walks one after the other;
* `Tree.LinkFree`, `Tree.Leads.place_eq`: without links, a path leads where it leads on paper.
-/

namespace Pagefold

def Reached.place : Reached → Location
  | found l => l
  | vacant folder n => folder ++ [n]

namespace Tree

/-! ## The rules -/

/-- Steps lead from a location to a place when at most `k` links are followed. -/
inductive Leads (t : Tree) (purpose : Purpose) : Nat → Location → List Step → Reached → Prop
  | here (k : Nat) (l : Location) : Leads t purpose k l [] (.found l)
  | stay {k l ss r} : t.at? l = some .folder → Leads t purpose k l ss r →
      Leads t purpose k l (.stay :: ss) r
  | slash {k l ss r} : t.at? l = some .folder → Leads t purpose k l ss r →
      Leads t purpose k l (.slash :: ss) r
  | up {k l ss r} : t.at? l = some .folder → Leads t purpose k l.dropLast ss r →
      Leads t purpose k l (.up :: ss) r
  /-- The last name is free. -/
  | free {k l n} : t.at? l = some .folder → n.byteSize ≤ maxNameBytes → t.at? (l ++ [n]) = none →
      Leads t purpose k l [.down n] (.vacant l n)
  /-- The last name is a link, which is meant itself. -/
  | link {k l n q} : purpose = .entry → t.at? l = some .folder → n.byteSize ≤ maxNameBytes →
      t.at? (l ++ [n]) = some (.link q) → Leads t purpose k l [.down n] (.found (l ++ [n]))
  | down {k l n ss r e} : ¬ (purpose = .writing ∧ ss = [.slash]) → t.at? l = some .folder →
      n.byteSize ≤ maxNameBytes → t.at? (l ++ [n]) = some e → (∀ q, e ≠ .link q) →
      Leads t purpose k (l ++ [n]) ss r → Leads t purpose k l (.down n :: ss) r
  /-- A link is followed, and its steps are taken first. -/
  | follow {k l n ss r q} : ¬ (purpose = .writing ∧ ss = [.slash]) →
      ¬ (ss = [] ∧ purpose = .entry) → t.at? l = some .folder → n.byteSize ≤ maxNameBytes →
      t.at? (l ++ [n]) = some (.link q) →
      Leads t purpose k (if q.isAbsolute then [] else l) (q.steps ++ ss) r →
      Leads t purpose (k + 1) l (.down n :: ss) r

variable {t t' : Tree} {purpose : Purpose} {k : Nat} {l m : Location} {ss rs : List Step}
  {r : Reached}

theorem advance_down {n : Text} (h : t.at? l = some .folder) :
    t.advance purpose l (.down n :: ss) =
      if purpose = .writing && ss = [.slash] then .refused .isFolder
      else if maxNameBytes < n.byteSize then .refused .nameTooLong
      else
        match t.at? (l ++ [n]) with
        | none => if ss = [] then .reached (.vacant l n) else .refused .absent
        | some (.link target) =>
          if ss = [] && purpose = .entry then .reached (.found (l ++ [n]))
          else .link l target ss
        | some _ => t.advance purpose (l ++ [n]) ss := by
  conv => lhs; unfold advance
  generalize t.at? l = e at h
  subst h
  rfl

/-- Where steps lead without a link, the rules lead. -/
theorem leads_of_advance_reached (h : t.advance purpose l ss = .reached r) :
    Leads t purpose k l ss r := by
  induction ss generalizing l with
  | nil =>
    cases h
    exact .here k l
  | cons s ss ih =>
    cases hl : t.at? l with
    | none => simp [advance, hl] at h
    | some e =>
      cases e with
      | file b => simp [advance, hl] at h
      | link q => simp [advance, hl] at h
      | folder =>
        cases s with
        | stay => exact .stay hl (ih (by simpa [advance, hl] using h))
        | slash => exact .slash hl (ih (by simpa [advance, hl] using h))
        | up => exact .up hl (ih (by simpa [advance, hl] using h))
        | down n =>
          rw [advance_down hl] at h
          split at h
          · simp at h
          · next hw =>
            simp only [Bool.and_eq_true, decide_eq_true_eq] at hw
            split at h
            · simp at h
            · next hn =>
              rw [Nat.not_lt] at hn
              split at h
              · next hm =>
                split at h
                · next hss =>
                  cases h
                  subst hss
                  exact .free hl hn hm
                · simp at h
              · next q hm =>
                split at h
                · next hss =>
                  simp only [Bool.and_eq_true, decide_eq_true_eq] at hss
                  obtain ⟨rfl, hp⟩ := hss
                  cases h
                  exact .link hp hl hn hm
                · simp at h
              · next e hq hm => exact .down hw hl hn hm (fun q he => hq q (he ▸ rfl)) (ih h)

theorem leads_of_advance_link {folder : Location} {target : Path} {rest : List Step}
    (h : t.advance purpose l ss = .link folder target rest)
    (hr : Leads t purpose k (if target.isAbsolute then [] else folder) (target.steps ++ rest) r) :
    Leads t purpose (k + 1) l ss r := by
  induction ss generalizing l with
  | nil => simp [advance] at h
  | cons s ss ih =>
    cases hl : t.at? l with
    | none => simp [advance, hl] at h
    | some e =>
      cases e with
      | file b => simp [advance, hl] at h
      | link q => simp [advance, hl] at h
      | folder =>
        cases s with
        | stay => exact .stay hl (ih (by simpa [advance, hl] using h))
        | slash => exact .slash hl (ih (by simpa [advance, hl] using h))
        | up => exact .up hl (ih (by simpa [advance, hl] using h))
        | down n =>
          rw [advance_down hl] at h
          split at h
          · simp at h
          · next hw =>
            simp only [Bool.and_eq_true, decide_eq_true_eq] at hw
            split at h
            · simp at h
            · next hn =>
              rw [Nat.not_lt] at hn
              split at h
              · split at h <;> simp at h
              · next q hm =>
                split at h
                · simp at h
                · next hss =>
                  simp only [Bool.and_eq_true, decide_eq_true_eq] at hss
                  cases h
                  exact .follow hw hss hl hn hm hr
              · next e hq hm => exact .down hw hl hn hm (fun q he => hq q (he ▸ rfl)) (ih h)

theorem leads_of_walk (h : t.walk purpose k l ss = .ok r) : Leads t purpose k l ss r := by
  induction k generalizing l ss with
  | zero =>
    rw [walk] at h
    split at h
    · next ha =>
      cases h
      exact leads_of_advance_reached ha
    · simp at h
    · simp at h
  | succ k ih =>
    rw [walk] at h
    split at h
    · next ha =>
      cases h
      exact leads_of_advance_reached ha
    · simp at h
    · next ha => exact leads_of_advance_link ha (ih h)

theorem walk_congr {l' : Location} {ss' : List Step}
    (h : t.advance purpose l ss = t.advance purpose l' ss') :
    t.walk purpose k l ss = t.walk purpose k l' ss' := by
  cases k <;> rw [walk, walk, h]

theorem walk_of_leads (h : Leads t purpose k l ss r) : t.walk purpose k l ss = .ok r := by
  induction h with
  | here k l => cases k <;> rfl
  | stay hl _ ih => exact (walk_congr (by simp [advance, hl])).trans ih
  | slash hl _ ih => exact (walk_congr (by simp [advance, hl])).trans ih
  | up hl _ ih => exact (walk_congr (by simp [advance, hl])).trans ih
  | @free k l n hl hn hm =>
    have ha : t.advance purpose l [.down n] = .reached (.vacant l n) := by
      simp [advance_down hl, Nat.not_lt.2 hn, hm]
    cases k <;> rw [walk, ha]
  | @link k l n q hp hl hn hm =>
    have ha : t.advance purpose l [.down n] = .reached (.found (l ++ [n])) := by
      simp [advance_down hl, Nat.not_lt.2 hn, hm, hp]
    cases k <;> rw [walk, ha]
  | @down k l n ss r e hw hl hn hm hq _ ih =>
    refine (walk_congr ?_).trans ih
    rw [advance_down hl, if_neg (by simpa using hw), if_neg (Nat.not_lt.2 hn), hm]
    cases e with
    | link q => exact absurd rfl (hq q)
    | file b => rfl
    | folder => rfl
  | @follow k l n ss r q hw hs hl hn hm _ ih =>
    have ha : t.advance purpose l (.down n :: ss) = .link l q ss := by
      rw [advance_down hl, if_neg (by simpa using hw), if_neg (Nat.not_lt.2 hn), hm]
      simp only
      rw [if_neg (by simpa using hs)]
    rw [walk, ha]
    exact ih

/-- A walk ends where the rules lead. -/
theorem walk_eq_ok_iff : t.walk purpose k l ss = .ok r ↔ Leads t purpose k l ss r :=
  ⟨leads_of_walk, walk_of_leads⟩

theorem walk_down_entry {n : Text} (hl : t.at? l = some .folder) :
    t.walk .entry k l [.down n] =
      if maxNameBytes < n.byteSize then .error .nameTooLong
      else if t.at? (l ++ [n]) = none then .ok (.vacant l n) else .ok (.found (l ++ [n])) := by
  rw [walk, advance_down hl, if_neg (by simp)]
  by_cases hn : maxNameBytes < n.byteSize
  · rw [if_pos hn, if_pos hn]
  · rw [if_neg hn, if_neg hn]
    cases hm : t.at? (l ++ [n]) with
    | none => simp
    | some e => cases e <;> simp [advance]

namespace Leads

/-! ## What is known where a walk ends -/

theorem unique {r' : Reached} (h : Leads t purpose k l ss r) (h' : Leads t purpose k l ss r') :
    r = r' := by
  have hw := (walk_of_leads h).symm.trans (walk_of_leads h')
  cases hw
  rfl

theorem of_vacant {folder : Location} {n : Text} (h : Leads t purpose k l ss (.vacant folder n)) :
    t.at? folder = some .folder ∧ n.byteSize ≤ maxNameBytes ∧ t.at? (folder ++ [n]) = none := by
  generalize hr : Reached.vacant folder n = r at h
  induction h with
  | here => cases hr
  | stay _ _ ih => exact ih hr
  | slash _ _ ih => exact ih hr
  | up _ _ ih => exact ih hr
  | free hl hn hm =>
    cases hr
    exact ⟨hl, hn, hm⟩
  | link => cases hr
  | down _ _ _ _ _ _ ih => exact ih hr
  | follow _ _ _ _ _ _ ih => exact ih hr

/-- A name that is free is one of the steps, or a step of a link on the way. -/
theorem isName_of_vacant {folder : Location} {n : Text} (hss : ∀ n, .down n ∈ ss → IsName n)
    (h : Leads t purpose k l ss (.vacant folder n)) : IsName n := by
  generalize hr : Reached.vacant folder n = r at h
  induction h with
  | here => cases hr
  | stay _ _ ih => exact ih (fun n hn => hss n (List.mem_cons_of_mem _ hn)) hr
  | slash _ _ ih => exact ih (fun n hn => hss n (List.mem_cons_of_mem _ hn)) hr
  | up _ _ ih => exact ih (fun n hn => hss n (List.mem_cons_of_mem _ hn)) hr
  | free =>
    cases hr
    exact hss n List.mem_cons_self
  | link => cases hr
  | down _ _ _ _ _ _ ih => exact ih (fun n hn => hss n (List.mem_cons_of_mem _ hn)) hr
  | follow _ _ _ _ _ _ ih =>
    refine ih (fun n hn => ?_) hr
    rcases List.mem_append.1 hn with hn | hn
    · exact Path.isName_of_down_mem_steps hn
    · exact hss n (List.mem_cons_of_mem _ hn)

theorem succ (h : Leads t purpose k l ss r) : Leads t purpose (k + 1) l ss r := by
  induction h with
  | here k l => exact .here (k + 1) l
  | stay hl _ ih => exact .stay hl ih
  | slash hl _ ih => exact .slash hl ih
  | up hl _ ih => exact .up hl ih
  | free hl hn hm => exact .free hl hn hm
  | link hp hl hn hm => exact .link hp hl hn hm
  | down hw hl hn hm hq _ ih => exact .down hw hl hn hm hq ih
  | follow hw hs hl hn hm _ ih => exact .follow hw hs hl hn hm ih

theorem of_zero (h : Leads t purpose 0 l ss r) : Leads t purpose k l ss r := by
  induction k with
  | zero => exact h
  | succ k ih => exact ih.succ

/-- What is no link is the same for itself and behind any link. -/
theorem content_of_entry {e : Entry} (hm : t.at? m = some e) (he : ∀ q, e ≠ .link q)
    (h : Leads t .entry k l ss (.found m)) : Leads t .content k l ss (.found m) := by
  generalize hp : Purpose.entry = purpose at h
  generalize hr : Reached.found m = r at h
  induction h with
  | here =>
    cases hr
    exact .here _ _
  | stay hl _ ih => exact .stay hl (ih hr)
  | slash hl _ ih => exact .slash hl (ih hr)
  | up hl _ ih => exact .up hl (ih hr)
  | free => cases hr
  | link _ _ _ hlink =>
    cases hr
    rw [hm] at hlink
    exact absurd (Option.some.inj hlink) (he _)
  | down _ hl hn hm' hq _ ih => exact .down (by simp) hl hn hm' hq (ih hr)
  | follow _ _ hl hn hm' _ ih => exact .follow (by simp) (by simp) hl hn hm' (ih hr)

theorem content_of_writing (h : Leads t .writing k l ss (.found m)) :
    Leads t .content k l ss (.found m) := by
  generalize hp : Purpose.writing = purpose at h
  generalize hr : Reached.found m = r at h
  induction h with
  | here =>
    cases hr
    exact .here _ _
  | stay hl _ ih => exact .stay hl (ih hr)
  | slash hl _ ih => exact .slash hl (ih hr)
  | up hl _ ih => exact .up hl (ih hr)
  | free => cases hr
  | link hentry =>
    rw [hentry] at hp
    cases hp
  | down _ hl hn hm hq _ ih => exact .down (by simp) hl hn hm hq (ih hr)
  | follow _ _ hl hn hm _ ih => exact .follow (by simp) (by simp) hl hn hm (ih hr)

/-! ## Trees with more in them -/

end Leads

/-- All folders and links of a tree are in another one, and where it has a file, so has the other
one. -/
structure Extends (t t' : Tree) : Prop where
  folder : ∀ l, t.at? l = some .folder → t'.at? l = some .folder
  link : ∀ l q, t.at? l = some (.link q) → t'.at? l = some (.link q)
  file : ∀ l bytes, t.at? l = some (.file bytes) → ∃ bytes', t'.at? l = some (.file bytes')

namespace Extends

theorem refl (t : Tree) : Extends t t := ⟨fun _ h => h, fun _ _ h => h, fun _ b h => ⟨b, h⟩⟩

theorem trans {t'' : Tree} (h : Extends t t') (h' : Extends t' t'') : Extends t t'' where
  folder l hl := h'.folder l (h.folder l hl)
  link l q hl := h'.link l q (h.link l q hl)
  file l bytes hl := by
    obtain ⟨bytes', hl'⟩ := h.file l bytes hl
    exact h'.file l bytes' hl'

theorem of_subset (h : ∀ l e, t.at? l = some e → t'.at? l = some e) : Extends t t' :=
  ⟨fun l => h l _, fun l _ => h l _, fun l bytes hl => ⟨bytes, h l _ hl⟩⟩

theorem not_link (h : Extends t t') {e : Entry} (hl : t.at? l = some e) (he : ∀ q, e ≠ .link q) :
    ∃ e', t'.at? l = some e' ∧ ∀ q, e' ≠ .link q := by
  cases e with
  | folder => exact ⟨.folder, h.folder l hl, by simp⟩
  | link q => exact absurd rfl (he q)
  | file bytes =>
    obtain ⟨bytes', hl'⟩ := h.file l bytes hl
    exact ⟨.file bytes', hl', by simp⟩

theorem none_of_none (h : Extends t t') (hl : t'.at? l = none) : t.at? l = none := by
  cases ht : t.at? l with
  | none => rfl
  | some e =>
    cases e with
    | folder => simp [h.folder l ht] at hl
    | link q => simp [h.link l q ht] at hl
    | file bytes =>
      obtain ⟨bytes', hl'⟩ := h.file l bytes ht
      simp [hl'] at hl

end Extends

namespace Leads

/-- What is added to a tree does not change where a path leads. -/
theorem mono (hsub : Extends t t') (h : Leads t purpose k l ss (.found m)) :
    Leads t' purpose k l ss (.found m) := by
  generalize hr : Reached.found m = r at h
  induction h with
  | here =>
    cases hr
    exact .here _ _
  | stay hl _ ih => exact .stay (hsub.folder _ hl) (ih hr)
  | slash hl _ ih => exact .slash (hsub.folder _ hl) (ih hr)
  | up hl _ ih => exact .up (hsub.folder _ hl) (ih hr)
  | free => cases hr
  | link hp hl hn hm =>
    cases hr
    exact .link hp (hsub.folder _ hl) hn (hsub.link _ _ hm)
  | down hw hl hn hm hq _ ih =>
    obtain ⟨e', hm', hq'⟩ := hsub.not_link hm hq
    exact .down hw (hsub.folder _ hl) hn hm' hq' (ih hr)
  | follow hw hs hl hn hm _ ih =>
    exact .follow hw hs (hsub.folder _ hl) hn (hsub.link _ _ hm) (ih hr)

theorem fill {folder : Location} {n : Text} {e : Entry} (hsub : Extends t t')
    (he : t'.at? (folder ++ [n]) = some e) (hq : ∀ q, e ≠ .link q)
    (h : Leads t purpose k l ss (.vacant folder n)) :
    Leads t' .content k l ss (.found (folder ++ [n])) := by
  generalize hr : Reached.vacant folder n = r at h
  induction h with
  | here => cases hr
  | stay hl _ ih => exact .stay (hsub.folder _ hl) (ih hr)
  | slash hl _ ih => exact .slash (hsub.folder _ hl) (ih hr)
  | up hl _ ih => exact .up (hsub.folder _ hl) (ih hr)
  | free hl hn hm =>
    cases hr
    exact .down (by simp) (hsub.folder _ hl) hn he hq (.here _ _)
  | link => cases hr
  | down _ hl hn hm hq _ ih =>
    obtain ⟨e', hm', hq'⟩ := hsub.not_link hm hq
    exact .down (by simp) (hsub.folder _ hl) hn hm' hq' (ih hr)
  | follow _ _ hl hn hm _ ih =>
    exact .follow (by simp) (by simp) (hsub.folder _ hl) hn (hsub.link _ _ hm) (ih hr)

/-! ## One walk after the other -/

/-- A walk goes on where another one ended, with the links that are left. -/
theorem walk_append (h : Leads t .content k l ss (.found m)) (hne : rs ≠ [])
    (hw : ¬ (purpose = .writing ∧ rs = [.slash])) :
    ∃ j, t.walk purpose k l (ss ++ rs) = t.walk purpose j m rs := by
  generalize hr : Reached.found m = r at h
  have hw' : ∀ ss : List Step, ¬ (purpose = .writing ∧ ss ++ rs = [.slash]) := by
    rintro ss ⟨hp, hs⟩
    rcases List.append_eq_singleton_iff.1 hs with ⟨-, hs⟩ | ⟨-, hs⟩
    · exact hw ⟨hp, hs⟩
    · exact hne hs
  -- By induction on the first walk, rule by rule.
  induction h with
  | here k l =>
    cases hr
    exact ⟨k, rfl⟩
  | stay hl _ ih =>
    obtain ⟨j, hj⟩ := ih hr
    exact ⟨j, (walk_congr (by simp [advance, hl])).trans hj⟩
  | slash hl _ ih =>
    obtain ⟨j, hj⟩ := ih hr
    exact ⟨j, (walk_congr (by simp [advance, hl])).trans hj⟩
  | up hl _ ih =>
    obtain ⟨j, hj⟩ := ih hr
    exact ⟨j, (walk_congr (by simp [advance, hl])).trans hj⟩
  | free => cases hr
  | link hp => cases hp
  | @down k l n ss r e _ hl hn hm hq _ ih =>
    obtain ⟨j, hj⟩ := ih hr
    refine ⟨j, (walk_congr ?_).trans hj⟩
    rw [List.cons_append, advance_down hl, if_neg (by simpa using hw' ss),
      if_neg (Nat.not_lt.2 hn), hm]
    cases e with
    | link q => exact absurd rfl (hq q)
    | file b => rfl
    | folder => rfl
  | @follow k l n ss r q _ _ hl hn hm _ ih =>
    obtain ⟨j, hj⟩ := ih hr
    have ha : t.advance purpose l (.down n :: (ss ++ rs)) = .link l q (ss ++ rs) := by
      rw [advance_down hl, if_neg (by simpa using hw' ss), if_neg (Nat.not_lt.2 hn), hm]
      simp only
      rw [if_neg (by simp [hne])]
    refine ⟨j, ?_⟩
    rw [List.cons_append, walk, ha]
    simp only
    rw [← List.append_assoc]
    exact hj

/-- A walk that goes on where another one ended, and follows no link. -/
theorem append (h : Leads t .content k l ss (.found m)) (hne : rs ≠ [])
    (hw : ¬ (purpose = .writing ∧ rs = [.slash])) (h' : Leads t purpose 0 m rs r) :
    Leads t purpose k l (ss ++ rs) r := by
  obtain ⟨j, hj⟩ := h.walk_append hne hw
  exact leads_of_walk (hj.trans (walk_of_leads (of_zero h')))

theorem replicate_stay (hl : t.at? l = some .folder) (i : Nat) :
    Leads t purpose k l (List.replicate i .stay) (.found l) := by
  induction i with
  | zero => exact .here k l
  | succ i ih => exact .stay hl ih

theorem of_replicate_stay {i : Nat} (h : Leads t purpose k l (List.replicate i .stay ++ rs) r) :
    Leads t purpose k l rs r := by
  induction i with
  | zero => exact h
  | succ i ih =>
    rw [List.replicate_succ, List.cons_append] at h
    cases h with
    | stay _ hrest => exact ih hrest

/-- A walk leads somewhere after each of its steps. -/
theorem split (h : Leads t purpose k l (ss ++ rs) r) (hne : rs ≠ []) :
    ∃ m, Leads t .content k l ss (.found m) ∧ Leads t purpose k m rs r := by
  generalize hs : ss ++ rs = us at h
  -- By induction on the walk. The steps of a link join those in front of the cut.
  induction h generalizing ss with
  | here => simp [hne] at hs
  | @stay k l us r hl hrest ih =>
    rcases List.append_eq_cons_iff.1 hs with ⟨rfl, rfl⟩ | ⟨ss, rfl, hu⟩
    · exact ⟨l, .here k l, .stay hl hrest⟩
    · obtain ⟨m, h₁, h₂⟩ := ih hu.symm
      exact ⟨m, .stay hl h₁, h₂⟩
  | @slash k l us r hl hrest ih =>
    rcases List.append_eq_cons_iff.1 hs with ⟨rfl, rfl⟩ | ⟨ss, rfl, hu⟩
    · exact ⟨l, .here k l, .slash hl hrest⟩
    · obtain ⟨m, h₁, h₂⟩ := ih hu.symm
      exact ⟨m, .slash hl h₁, h₂⟩
  | @up k l us r hl hrest ih =>
    rcases List.append_eq_cons_iff.1 hs with ⟨rfl, rfl⟩ | ⟨ss, rfl, hu⟩
    · exact ⟨l, .here k l, .up hl hrest⟩
    · obtain ⟨m, h₁, h₂⟩ := ih hu.symm
      exact ⟨m, .up hl h₁, h₂⟩
  | @free k l n hl hn hm =>
    rcases List.append_eq_cons_iff.1 hs with ⟨rfl, rfl⟩ | ⟨ss, rfl, hu⟩
    · exact ⟨l, .here k l, .free hl hn hm⟩
    · simp [hne] at hs
  | @link k l n q hp hl hn hm =>
    rcases List.append_eq_cons_iff.1 hs with ⟨rfl, rfl⟩ | ⟨ss, rfl, hu⟩
    · exact ⟨l, .here k l, .link hp hl hn hm⟩
    · simp [hne] at hs
  | @down k l n us r e hw hl hn hm hq hrest ih =>
    rcases List.append_eq_cons_iff.1 hs with ⟨rfl, rfl⟩ | ⟨ss, rfl, hu⟩
    · exact ⟨l, .here k l, .down hw hl hn hm hq hrest⟩
    · obtain ⟨m, h₁, h₂⟩ := ih hu.symm
      exact ⟨m, .down (by simp) hl hn hm hq h₁, h₂⟩
  | @follow k l n us r q hw he hl hn hm hrest ih =>
    rcases List.append_eq_cons_iff.1 hs with ⟨rfl, rfl⟩ | ⟨ss, rfl, rfl⟩
    · exact ⟨l, .here _ l, .follow hw he hl hn hm hrest⟩
    · obtain ⟨m, h₁, h₂⟩ := @ih (q.steps ++ ss) (List.append_assoc ..)
      exact ⟨m, .follow (by simp) (by simp) hl hn hm h₁, h₂.succ⟩

end Leads

/-! ## Trees without links -/

def LinkFree (t : Tree) : Prop := ∀ l q, t.at? l ≠ some (.link q)

theorem mem_entries {e : Entry} (hl : l ≠ []) (h : t.at? l = some e) : (l, e) ∈ t.entries := by
  rw [at?, if_neg hl] at h
  obtain ⟨l₁, l₂, hsplit, -⟩ := List.lookup_eq_some_iff.1 h
  rw [hsplit]
  simp

theorem linkFree_of_entries (h : ∀ m ∈ t.entries, ∀ q, m.2 ≠ .link q) : t.LinkFree := by
  intro l q hl
  have hne : l ≠ [] := by
    rintro rfl
    cases hl
  exact h _ (mem_entries hne hl) q rfl

/-- Without links, steps lead where they lead on paper. -/
theorem Leads.place_eq (ht : t.LinkFree) (h : Leads t purpose k l ss r) :
    r.place = Step.leadAll l ss := by
  induction h with
  | here => rfl
  | stay _ _ ih => exact ih
  | slash _ _ ih => exact ih
  | up _ _ ih => exact ih
  | free => rfl
  | link _ _ _ hm => exact absurd hm (ht _ _)
  | down _ _ _ _ _ _ ih => exact ih
  | follow _ _ _ _ hm => exact absurd hm (ht _ _)

end Tree

end Pagefold
