import Mathlib.Data.Char
import Mathlib.Data.List.Lex
import Pagefold.Proofs.Json.Strings

/-!
# Members of objects

The members of an object stand in strictly ascending order of their names. So a name has one value at
most, and of a name that is given twice the later value counts.

* `Json.lookup_setMember`: what a member that is set changes;
* `Json.Ascending`, `Json.Ascending.mem_iff`: members in order, and the one value of a name;
* `Json.Ordered`, `Json.ordered_of_parse`: in a value that was read, the members of every object are
  in order.
-/

namespace Pagefold.Json

variable {name k n t rest : Text} {v w : Json} {m : Text × Json} {members : List (Text × Json)}
  {value : Text → Except Fault (Json × Text)}

/-! ## Setting members -/

theorem lookup_member (n k : Text) (v : Json) (members : List (Text × Json)) :
    ((n, v) :: members).lookup k = if k = n then some v else members.lookup k := by
  by_cases h : k = n
  · simp [h]
  · have hbeq : (k == n) = false := beq_eq_false_iff_ne.2 h
    simp [List.lookup_cons, hbeq, h]

theorem lookup_setMember (name : Text) (v : Json) (members : List (Text × Json)) (k : Text) :
    (setMember name v members).lookup k = if k = name then some v else members.lookup k := by
  induction members with
  | nil => exact lookup_member name k v []
  | cons m members ih =>
    obtain ⟨n, w⟩ := m
    rw [setMember]
    split
    · rw [lookup_member]
    · split
      · next heq =>
        rw [lookup_member, lookup_member, heq]
        split <;> rfl
      · next hne =>
        rw [lookup_member, lookup_member, ih]
        by_cases hk : k = n
        · rw [if_pos hk, if_pos hk, if_neg fun h => hne (h.symm.trans hk)]
        · rw [if_neg hk, if_neg hk]

theorem of_mem_setMember (h : m ∈ setMember name v members) : m = (name, v) ∨ m ∈ members := by
  induction members with
  | nil => exact .inl (List.mem_singleton.1 h)
  | cons l members ih =>
    obtain ⟨n, w⟩ := l
    rw [setMember] at h
    split at h
    · exact List.mem_cons.1 h
    · split at h
      · exact (List.mem_cons.1 h).imp_right (List.mem_cons_of_mem _)
      · rcases List.mem_cons.1 h with rfl | h
        · exact .inr List.mem_cons_self
        · exact (ih h).imp_right (List.mem_cons_of_mem _)

/-! ## Members in order -/

def Ascending (members : List (Text × Json)) : Prop := members.Pairwise fun m l => m.1 < l.1

theorem Ascending.setMember (h : Ascending members) : Ascending (setMember name v members) := by
  induction members with
  | nil => exact List.pairwise_singleton _ _
  | cons l members ih =>
    obtain ⟨n, w⟩ := l
    obtain ⟨hn, hmembers⟩ := List.pairwise_cons.1 h
    rw [Json.setMember]
    split
    · next hlt =>
      refine List.pairwise_cons.2 ⟨fun m hm => ?_, h⟩
      rcases List.mem_cons.1 hm with rfl | hm
      · exact hlt
      · exact lt_trans hlt (hn m hm)
    · split
      · next heq =>
        subst heq
        exact List.pairwise_cons.2 ⟨hn, hmembers⟩
      · next hnlt hne =>
        refine List.pairwise_cons.2 ⟨fun m hm => ?_, ih hmembers⟩
        rcases of_mem_setMember hm with rfl | hm
        · exact lt_of_le_of_ne (not_lt.1 hnlt) (Ne.symm hne)
        · exact hn m hm

theorem Ascending.mem_iff (h : Ascending members) : (k, v) ∈ members ↔ members.lookup k = some v := by
  induction members with
  | nil => simp
  | cons l members ih =>
    obtain ⟨n, w⟩ := l
    obtain ⟨hn, hmembers⟩ := List.pairwise_cons.1 h
    rw [lookup_member, List.mem_cons, Prod.mk.injEq, ih hmembers]
    by_cases hk : k = n
    · -- Behind its place, a name does not come again.
      subst hk
      have hnone : members.lookup k ≠ some v := fun hv =>
        lt_irrefl k (hn (k, v) ((ih hmembers).2 hv))
      simp [hnone, eq_comm]
    · simp [hk]

/-! ## Values that were read -/

/-- The members of every object in a value are in order. -/
inductive Ordered : Json → Prop where
  | null : Ordered .null
  | bool (b : Bool) : Ordered (.bool b)
  | number (n : Number) : Ordered (.number n)
  | string (s : Text) : Ordered (.string s)
  | array {items : List Json} (h : ∀ v ∈ items, Ordered v) : Ordered (.array items)
  | object {members : List (Text × Json)} (hmembers : Ascending members)
      (h : ∀ m ∈ members, Ordered m.2) : Ordered (.object members)

/-- Whatever is read is ordered. -/
def Ordering (value : Text → Except Fault (Json × Text)) : Prop :=
  ∀ t v rest, value t = .ok (v, rest) → Ordered v

theorem ordered_readName (hv : Ordered w) (h : readName w name t = .ok (v, rest)) : Ordered v := by
  induction name generalizing t with
  | nil =>
    cases h
    exact hv
  | cons a name ih =>
    cases t with
    | nil => cases h
    | cons c t =>
      rw [readName] at h
      split at h
      · exact ih h
      · cases h

theorem ordered_readItems (hvalue : Ordering value) {budget : Nat} {done : List Json}
    (hdone : ∀ w ∈ done, Ordered w) (h : readItems value budget done t = .ok (v, rest)) :
    Ordered v := by
  induction budget generalizing done t with
  | zero => cases h
  | succ budget ih =>
    rw [readItems] at h
    obtain ⟨m, hm, h⟩ := ok_of_bind h
    have hitems : ∀ w ∈ m.1 :: done, Ordered w :=
      List.forall_mem_cons.2 ⟨hvalue t m.1 m.2 hm, hdone⟩
    simp only at h
    split at h
    · cases h
    · cases h
      exact .array fun w hw => hitems w (List.mem_reverse.1 hw)
    · split at h
      · cases h
      · cases h
      · exact ih hitems h
    · cases h

theorem ordered_readArray (hvalue : Ordering value) (h : readArray value t = .ok (v, rest)) :
    Ordered v := by
  have hnone : ∀ w ∈ ([] : List Json), Ordered w := fun w hw => absurd hw List.not_mem_nil
  unfold readArray at h
  split at h
  · cases h
  · cases h
    exact .array hnone
  · exact ordered_readItems hvalue hnone h

theorem ordered_readMembers (hvalue : Ordering value) {budget : Nat} {done : List (Text × Json)}
    (hdone : Ordered (.object done)) (h : readMembers value budget done t = .ok (v, rest)) :
    Ordered v := by
  -- The members that were read so far are in order, and a new one goes into its place.
  induction budget generalizing done t with
  | zero => cases h
  | succ budget ih =>
    rw [readMembers] at h
    obtain ⟨n, -, h⟩ := ok_of_bind h
    obtain ⟨u, -, h⟩ := ok_of_bind h
    obtain ⟨m, hm, h⟩ := ok_of_bind h
    have hset : Ordered (.object (setMember n.1 m.1 done)) := by
      cases hdone with
      | object hmembers hall =>
        refine .object hmembers.setMember fun l hl => ?_
        rcases of_mem_setMember hl with rfl | hl
        · exact hvalue u m.1 m.2 hm
        · exact hall l hl
    simp only at h
    split at h
    · cases h
    · cases h
      exact hset
    · split at h
      · cases h
      · exact ih hset h
      · cases h
      · cases h
    · cases h

theorem ordered_readObject (hvalue : Ordering value) (h : readObject value t = .ok (v, rest)) :
    Ordered v := by
  have hnone : Ordered (.object []) := .object .nil fun m hm => absurd hm List.not_mem_nil
  unfold readObject at h
  split at h
  · cases h
  · cases h
    exact hnone
  · exact ordered_readMembers hvalue hnone h
  · cases h

theorem ordered_map {α : Type} {f : α → Json} {read : Except Fault (α × Text)}
    (hf : ∀ a, Ordered (f a)) (h : read.map (fun (a, rest) => (f a, rest)) = .ok (v, rest)) :
    Ordered v := by
  cases read with
  | error e => cases h
  | ok m =>
    cases h
    exact hf m.1

theorem ordered_readValue (depth : Nat) : Ordering (readValue depth) := by
  intro t v rest h
  unfold readValue at h
  split at h
  · cases h
  · exact ordered_readName .null h
  · exact ordered_readName (.bool true) h
  · exact ordered_readName (.bool false) h
  · exact ordered_map .number h
  · exact ordered_map .string h
  · cases depth with
    | zero => cases h
    | succ d => exact ordered_readArray (ordered_readValue d) h
  · cases depth with
    | zero => cases h
    | succ d => exact ordered_readObject (ordered_readValue d) h
  · split at h
    · exact ordered_map .number h
    · cases h

/-- Wherever an object stands in a value that was read, its members are in order. -/
theorem ordered_of_parse (h : parse t = .ok v) : Ordered v := by
  obtain ⟨m, hm, h⟩ := ok_of_bind h
  have hvalue := ordered_readValue maxDepth t m.1 m.2 hm
  simp only at h
  split at h
  · cases h
    exact hvalue
  · cases h

end Pagefold.Json
