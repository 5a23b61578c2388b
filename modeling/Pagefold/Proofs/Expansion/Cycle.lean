import Mathlib.Data.List.Chain
import Pagefold.Proofs.Expansion.Outcome

/-!
# The chain of a cycle

Where an expansion tells of a cycle, it tells of a way into it: the chain that it started on, and
then the files that it went through, each included by the one before.

* `Expansion.Returns`: files that include one another in a row, each of them new, up to a file that
  was met before;
* `Expansion.Returns.cons`: such files with one more in front;
* `Expansion.resolveFile_circular`: the chain of a fault goes through such files.
-/

namespace Pagefold

theorem Path.same_comm (f g : Path) : f.same g = g.same f := by
  simp only [Path.same, eq_comm]

namespace Expansion

variable {s : StarterSettings} {d : Disk} {v : Chain} {f p q : Path} {way chain : List Path}

/-- From a file, some files lead through includes to a file that they or the chain have already.
None of them is on the chain or comes twice. -/
structure Returns (s : StarterSettings) (d : Disk) (v : Chain) (f : Path) (way : List Path)
    (q : Path) : Prop where
  /-- The first file. -/
  starts : (way ++ [q]).head? = some f
  /-- Each file includes the next one. -/
  includes : (way ++ [q]).IsChain (Includes s d)
  /-- The last file was met before. -/
  met : ∃ g ∈ v.fromFirst ++ way, q.same g = true
  /-- The files in front of it are different. -/
  apart : way.Pairwise fun g h => g.same h = false
  /-- They were not on the chain. -/
  fresh : ∀ g ∈ way, v.has g = false

/-- A file that is on the chain is met at once. -/
theorem Returns.of_has (hv : v.has f = true) : Returns s d v f [] f where
  starts := rfl
  includes := by simp
  met := by
    obtain ⟨g, hg, hfg⟩ := List.any_eq_true.1 hv
    exact ⟨g, by simpa [Chain.fromFirst] using hg, hfg⟩
  apart := .nil
  fresh := by simp

/-- A file that is not on the chain goes in front of the way from a file that it includes. -/
theorem Returns.cons {g : Path} (h : Returns s d (f :: v) g way q) (hv : v.has f = false)
    (hg : Includes s d f g) : Returns s d v f (f :: way) q where
  starts := rfl
  includes := by
    refine h.includes.cons fun k (hk : k ∈ (way ++ [q]).head?) => ?_
    rw [h.starts, Option.mem_some_iff] at hk
    exact hk ▸ hg
  met := by
    obtain ⟨k, hk, hqk⟩ := h.met
    exact ⟨k, by simpa [Chain.fromFirst] using hk, hqk⟩
  apart := by
    refine List.pairwise_cons.2 ⟨fun k hk => ?_, h.apart⟩
    have := h.fresh k hk
    rw [has_cons, Bool.or_eq_false_iff] at this
    rw [Path.same_comm]
    exact this.1
  fresh := by
    refine List.forall_mem_cons.2 ⟨hv, fun k hk => ?_⟩
    have := h.fresh k hk
    rw [has_cons, Bool.or_eq_false_iff] at this
    exact this.2

theorem returns_of_canonical [Matcher] (hf : f.Canonical)
    (h : (resolveFile s d v f).result = .error (.circularInclude q chain)) :
    ∃ way, chain = v.fromFirst ++ way ++ [q] ∧ Returns s d v f way q := by
  -- The fault comes from a file that is included, on the chain with the including file added.
  induction v using Chain.extend_induction d generalizing f with
  | h v ih =>
    cases hv : v.has f with
    | true =>
      rw [resolveFile_of_has hf hv] at h
      cases h
      exact ⟨[], by simp, .of_has hv⟩
    | false =>
      cases ht : d.readText f with
      | error why =>
        rw [resolveFile_of_unreadable hf hv ht] at h
        cases h
      | ok t =>
        rw [resolveFile_of_readable hf hv ht] at h
        obtain ⟨g, hg, he⟩ := expandBody_error h
        have hincludes : Includes s d f g := ⟨t, ht, hg⟩
        obtain ⟨way, rfl, hway⟩ := ih f t hv ht (canonical_of_includes hf hincludes) he
        exact ⟨f :: way, by simp [Chain.fromFirst], hway.cons hv hincludes⟩

/-- Where an expansion tells of a cycle, its chain is the chain that it started on, the first file
first, with files behind it that lead from the file that is expanded through includes to the path it
tells of. That path was met before, and no other of these files was. -/
theorem resolveFile_circular [Matcher] (s : StarterSettings) (d : Disk) (v : Chain) (p q : Path)
    (chain : List Path) (h : (resolveFile s d v p).result = .error (.circularInclude q chain)) :
    ∃ f way, d.absolute p = .ok f ∧ chain = v.fromFirst ++ way ++ [q] ∧ Returns s d v f way q := by
  cases hp : d.absolute p with
  | error why =>
    rw [resolveFile_eq, resolveStep, hp] at h
    cases h
  | ok f =>
    rw [resolveFile_of_absolute hp] at h
    obtain ⟨way, hchain, hway⟩ := returns_of_canonical (Disk.absolute_canonical hp) h
    exact ⟨f, way, rfl, hchain, hway⟩

def mutualSite : Disk :=
  ⟨⟨[(["i".toList], .file "@@include('pages-starter.html')".toUTF8),
    (["pages-starter.html".toList], .file "<p>@@include('./a')</p>".toUTF8),
    (["a".toList], .file "@@include('pages-starter.html')".toUTF8)]⟩, []⟩

section

attribute [local instance] Matcher.unlimited

/-- The page is expanded on a chain that has another file already. -/
theorem resolveFile_circular_of_mutual :
    (resolveFile {} mutualSite [⟨"/x".toList⟩] ⟨"i".toList⟩).result
      = .error (.circularInclude ⟨"/pages-starter.html".toList⟩
          [⟨"/x".toList⟩, ⟨"/i".toList⟩, ⟨"/pages-starter.html".toList⟩, ⟨"/a".toList⟩,
            ⟨"/pages-starter.html".toList⟩]) ∧
    ∃ f way, mutualSite.absolute ⟨"i".toList⟩ = .ok f ∧
      [⟨"/x".toList⟩, ⟨"/i".toList⟩, ⟨"/pages-starter.html".toList⟩, ⟨"/a".toList⟩,
          ⟨"/pages-starter.html".toList⟩]
        = Chain.fromFirst [⟨"/x".toList⟩] ++ way ++ [⟨"/pages-starter.html".toList⟩] ∧
      Returns {} mutualSite [⟨"/x".toList⟩] f way ⟨"/pages-starter.html".toList⟩ := by
  have hd : mutualSite.tree.LinkFree := Tree.linkFree_of_entries (by simp [mutualSite])
  have hresult : (resolveFile {} mutualSite [⟨"/x".toList⟩] ⟨"i".toList⟩).result
      = .error (.circularInclude ⟨"/pages-starter.html".toList⟩
          [⟨"/x".toList⟩, ⟨"/i".toList⟩, ⟨"/pages-starter.html".toList⟩, ⟨"/a".toList⟩,
            ⟨"/pages-starter.html".toList⟩]) := by
    rw [← iterate_resolveStep hd (fun _ _ => .pure []) (n := 4) (by decide)]
    rfl
  exact ⟨hresult, resolveFile_circular {} mutualSite _ _ _ _ hresult⟩

end

end Expansion

end Pagefold
