import Pagefold.Proofs.Expansion.Outcome

/-!
# What the chain is for

The chain of an expansion only decides whether a cycle is told of. What comes out of a file is the
same wherever the file is included.

* `Recorded.KeptUnless`: a computation that ended well ends in the same way in another run, or the
  other run tells of a cycle;
* `Expansion.keptUnless_resolveFile`: two expansions of one file, on two chains;
* `Expansion.resolve_siblings`: what comes out of a file and of a text on two chains.
-/

namespace Pagefold

namespace Recorded

variable {α β : Type} {stop : Prop}

/-- Where the first run ends well, the second one is the same, unless it stops at a cycle. -/
def KeptUnless (stop : Prop) (r r' : Recorded α) : Prop :=
  ∀ a, r.result = .ok a → r' = r ∨ stop ∧ ∃ q ch, r'.result = .error (.circularInclude q ch)

theorem KeptUnless.refl (r : Recorded α) : KeptUnless stop r r := fun _ _ => .inl rfl

theorem KeptUnless.andThen {r r' : Recorded α} {f f' : α → Recorded β} (hr : KeptUnless stop r r')
    (hf : ∀ a, KeptUnless stop (f a) (f' a)) :
    KeptUnless stop (r.andThen f) (r'.andThen f') := by
  intro b hb
  obtain ⟨a, ha, -⟩ := result_andThen_ok_iff.1 ⟨b, hb⟩
  have hfa : (f a).result = .ok b := by
    unfold Recorded.andThen at hb
    rw [ha] at hb
    exact hb
  rcases hr a ha with rfl | ⟨hs, q, ch, hq⟩
  · unfold Recorded.andThen
    rw [ha]
    rcases hf a b hfa with hsame | ⟨hs, q, ch, hq⟩
    · left
      simp only
      rw [hsame]
    · exact .inr ⟨hs, q, ch, hq⟩
  · right
    refine ⟨hs, q, ch, ?_⟩
    unfold Recorded.andThen
    rw [hq]

theorem KeptUnless.eq_or_circular {r r' : Recorded Text} {log : List Diagnostic} {t : Text}
    (h : KeptUnless stop r r') (hr : r = ⟨log, .ok t⟩) :
    r' = ⟨log, .ok t⟩ ∨ stop ∧ ∃ log' q ch, r' = ⟨log', .error (.circularInclude q ch)⟩ := by
  subst hr
  rcases h t rfl with hsame | ⟨hs, q, ch, hq⟩
  · exact .inl hsame
  · exact .inr ⟨hs, r'.log, q, ch, by rw [← hq]⟩

end Recorded

namespace Expansion

open Recorded

variable {s : StarterSettings} {d : Disk} {stop : Prop}

/-! ## Two runs of one step -/

section Step

variable {include₁ include₂ : Path → Recorded Text} {folder : Path}

theorem keptUnless_expandDirective [Matcher] (h : ∀ p, KeptUnless stop (include₁ p) (include₂ p))
    (x : Directive) :
    KeptUnless stop (expandDirective include₁ d folder x) (expandDirective include₂ d folder x) := by
  simp only [expandDirective]
  split
  · exact (h _).andThen fun _ => .refl _
  · exact .refl _

theorem keptUnless_expandPieces {expand₁ expand₂ : Directive → Recorded Text}
    (h : ∀ x, KeptUnless stop (expand₁ x) (expand₂ x)) (log : List Diagnostic) (done : Text)
    (ps : List (Piece Directive)) :
    KeptUnless stop (expandPieces expand₁ log done ps) (expandPieces expand₂ log done ps) := by
  induction ps generalizing log done with
  | nil => exact .refl _
  | cons p ps ih =>
    cases p with
    | plain c => exact ih log (c :: done)
    | hit source x =>
      intro t ht
      rw [expandPieces] at ht ⊢
      split at ht
      · cases ht
      · next l u hu =>
        have hok : (expand₁ x).result = .ok u := by rw [hu]
        rcases h x u hok with hsame | ⟨hs, q, ch, hq⟩
        · rw [expandPieces, hsame, hu]
          exact ih _ _ t ht
        · -- The second run stops at this directive.
          right
          refine ⟨hs, q, ch, ?_⟩
          split
          · next l' e he =>
            rw [he] at hq
            exact hq
          · next l' u' hu' =>
            rw [hu'] at hq
            cases hq

theorem keptUnless_expandText [Matcher] (h : ∀ p, KeptUnless stop (include₁ p) (include₂ p))
    (t : Text) :
    KeptUnless stop (expandText include₁ d folder t) (expandText include₂ d folder t) :=
  keptUnless_expandPieces (keptUnless_expandDirective h) _ _ _

theorem keptUnless_expandBody [Matcher] (h : ∀ p, KeptUnless stop (include₁ p) (include₂ p))
    (t : Text) :
    KeptUnless stop (expandBody s include₁ d folder t) (expandBody s include₂ d folder t) := by
  unfold expandBody
  split
  · next o _ =>
    have hlayout := (h o.layout).andThen fun u => .refl (applyContext o.layout.text o.context u)
    exact hlayout.andThen fun _ => (keptUnless_expandText h o.content).andThen fun _ => .refl _
  · exact keptUnless_expandText h t

end Step

/-! ## Two chains -/

theorem has_trans {v : Chain} {f g : Path} (hfg : f.same g = true) (hg : v.has g = true) :
    v.has f = true := by
  obtain ⟨h, hh, hgh⟩ := List.any_eq_true.1 hg
  refine List.any_eq_true.2 ⟨h, hh, ?_⟩
  rw [Path.same, decide_eq_true_eq] at *
  exact hfg.trans hgh

/-- What a file expands to on one chain, it expands to on another one, unless the other chain has
more files on it and a cycle is met. -/
theorem keptUnless_resolveFile [Matcher] {v v' : Chain}
    (hv : stop ∨ ∀ f, v'.has f = true → v.has f = true) (p : Path) :
    KeptUnless stop (resolveFile s d v p) (resolveFile s d v' p) := by
  -- Both chains grow by the same file, so what was assumed of them goes on to hold.
  induction v using Chain.extend_induction d generalizing v' p with
  | h v ih =>
    intro t ht
    cases hp : d.absolute p with
    | error why =>
      rw [resolveFile_eq, resolveStep, hp] at ht
      cases ht
    | ok f =>
      have hf := Disk.absolute_canonical hp
      rw [resolveFile_of_absolute hp] at ht ⊢
      rw [resolveFile_of_absolute hp]
      cases hvf : v.has f with
      | true =>
        rw [resolveFile_of_has hf hvf] at ht
        cases ht
      | false =>
        cases hu : d.readText f with
        | error why =>
          rw [resolveFile_of_unreadable hf hvf hu] at ht
          cases ht
        | ok u =>
          cases hvf' : Chain.has v' f with
          | true =>
            right
            refine ⟨hv.resolve_right fun hsub => ?_, f, _, by rw [resolveFile_of_has hf hvf']; rfl⟩
            have := hsub f hvf'
            rw [hvf] at this
            cases this
          | false =>
            rw [resolveFile_of_readable hf hvf hu] at ht ⊢
            rw [resolveFile_of_readable hf hvf' hu]
            refine keptUnless_expandBody (fun q => ih f u hvf hu ?_ q) u t ht
            refine hv.imp_right fun hsub g hg => ?_
            rw [has_cons, Bool.or_eq_true] at hg ⊢
            exact hg.imp_right (hsub g)

theorem keptUnless_resolveText [Matcher] {v v' : Chain}
    (hv : stop ∨ ∀ f, v'.has f = true → v.has f = true) (folder : Path) (t : Text) :
    KeptUnless stop (resolveText s d folder v t) (resolveText s d folder v' t) :=
  keptUnless_expandText (keptUnless_resolveFile hv) t

theorem forall_has_of_forall_mem {v v' : Chain} (h : ∀ f ∈ v', v.has f = true) :
    ∀ f, Chain.has v' f = true → v.has f = true := by
  intro f hf
  obtain ⟨g, hg, hfg⟩ := List.any_eq_true.1 hf
  exact has_trans hfg (h g hg)

/-- What comes out of a file, and of a text, does not depend on the chain. On a chain with no other
files, the same comes out, and on any chain the same comes out or a cycle is told of. -/
theorem resolve_siblings [Matcher] (s : StarterSettings) (d : Disk) (v v' : Chain) :
    (∀ p log t, resolveFile s d v p = ⟨log, .ok t⟩ →
      ((∀ f ∈ v', v.has f = true) → resolveFile s d v' p = ⟨log, .ok t⟩) ∧
      (resolveFile s d v' p = ⟨log, .ok t⟩ ∨
        ∃ log' q ch, resolveFile s d v' p = ⟨log', .error (.circularInclude q ch)⟩)) ∧
    (∀ folder u log t, resolveText s d folder v u = ⟨log, .ok t⟩ →
      ((∀ f ∈ v', v.has f = true) → resolveText s d folder v' u = ⟨log, .ok t⟩) ∧
      (resolveText s d folder v' u = ⟨log, .ok t⟩ ∨
        ∃ log' q ch, resolveText s d folder v' u = ⟨log', .error (.circularInclude q ch)⟩)) := by
  -- A chain with no other files never stops an expansion, and any other chain may.
  have hnever : (∀ f ∈ v', v.has f = true) → False ∨ ∀ f, Chain.has v' f = true → v.has f = true :=
    fun h => .inr (forall_has_of_forall_mem h)
  have hmay : True ∨ ∀ f, Chain.has v' f = true → v.has f = true := .inl trivial
  constructor
  · intro p log t h
    refine ⟨fun hsub => ?_, ?_⟩
    · have hkept : KeptUnless False (resolveFile s d v p) _ := keptUnless_resolveFile (hnever hsub) p
      exact (hkept.eq_or_circular h).resolve_right And.left
    · have hkept : KeptUnless True (resolveFile s d v p) _ := keptUnless_resolveFile hmay p
      exact (hkept.eq_or_circular h).imp_right And.right
  · intro folder u log t h
    refine ⟨fun hsub => ?_, ?_⟩
    · have hkept : KeptUnless False (resolveText s d folder v u) _ :=
        keptUnless_resolveText (hnever hsub) folder u
      exact (hkept.eq_or_circular h).resolve_right And.left
    · have hkept : KeptUnless True (resolveText s d folder v u) _ :=
        keptUnless_resolveText hmay folder u
      exact (hkept.eq_or_circular h).imp_right And.right

def twiceSite : Disk :=
  ⟨⟨[(["a".toList], .file "@@include('b')@@include('b')".toUTF8), (["b".toList], .file "x".toUTF8)]⟩,
    []⟩

theorem resolveFile_twiceSite [Matcher] :
    resolveFile {} twiceSite [⟨"/c".toList⟩] ⟨"/a".toList⟩ = ⟨[], .ok "xx".toList⟩ := by
  have hd : twiceSite.tree.LinkFree := Tree.linkFree_of_entries (by simp [twiceSite])
  rw [← iterate_resolveStep hd (fun _ _ => .pure []) (n := 3) (by decide)]
  rfl

section

attribute [local instance] Matcher.unlimited

theorem resolve_siblings_of_twice :
    resolveFile {} twiceSite [⟨"/c".toList⟩] ⟨"/a".toList⟩ = ⟨[], .ok "xx".toList⟩ ∧
    resolveFile {} twiceSite [] ⟨"/a".toList⟩ = ⟨[], .ok "xx".toList⟩ :=
  ⟨resolveFile_twiceSite,
    ((resolve_siblings {} twiceSite [⟨"/c".toList⟩] []).1 _ _ _ resolveFile_twiceSite).1
      (fun _ hf => absurd hf (List.not_mem_nil))⟩

end

end Expansion

end Pagefold
