import Pagefold.Proofs.Path.Canonical
import Pagefold.Proofs.Tree.Walk

/-!
# What stands where a path leads

The questions about a path, each in terms of where the path leads and of what stands there.

* `Disk.reach_ok_iff`, `Disk.entry_ok_iff`: where a path leads, and what is there;
* `Disk.isFile_iff`, `Disk.isFolder_iff`, `Disk.readBytes_ok_iff`, `Disk.readText_ok_iff`: the
  questions;
* `Disk.location_eq`: without links, a path leads where it leads on paper.
-/

namespace Pagefold.Disk

variable {d : Disk} {p : Path} {purpose : Purpose} {l : Location} {e : Entry}

theorem reach_ok_iff {r : Reached} :
    d.reach p purpose = .ok r ↔
      malformed? p = none ∧ d.tree.Leads purpose maxLinks (d.start p) p.steps r := by
  rw [reach]
  split
  · next why hp => simp [hp]
  · next hp =>
    rw [Tree.walk_eq_ok_iff]
    simp [hp]

theorem entry_ok_iff :
    d.entry p purpose = .ok (l, e) ↔
      d.reach p purpose = .ok (.found l) ∧ d.tree.at? l = some e := by
  rw [entry]
  split
  · next why hp => simp [hp]
  · next hp => simp [hp]
  · next m hp =>
    rw [hp]
    split
    · next hm =>
      constructor
      · intro h
        cases h
      · rintro ⟨h, he⟩
        cases h
        simp [hm] at he
    · next e' hm =>
      constructor
      · intro h
        cases h
        exact ⟨rfl, hm⟩
      · rintro ⟨h, he⟩
        cases h
        rw [hm] at he
        cases he
        rfl

theorem isFile_iff :
    d.isFile p = true ↔ ∃ l bytes, d.entry p .content = .ok (l, .file bytes) := by
  rw [isFile]
  split
  · next l bytes h => simp [h]
  · next h =>
    constructor
    · intro hf
      cases hf
    · rintro ⟨l, bytes, he⟩
      exact absurd he (h l bytes)

theorem isFolder_iff : d.isFolder p = true ↔ ∃ l, d.entry p .content = .ok (l, .folder) := by
  rw [isFolder]
  split
  · next l h => simp [h]
  · next h =>
    constructor
    · intro hf
      cases hf
    · rintro ⟨l, he⟩
      exact absurd he (h l)

theorem present_iff : d.present p = true ↔ ∃ l e, d.entry p .content = .ok (l, e) := by
  rw [present]
  cases h : d.entry p .content with
  | error why => simp [Except.isOk, Except.toBool]
  | ok x => simp [Except.isOk, Except.toBool, Prod.ext_iff]

theorem readBytes_ok_iff {bytes : ByteArray} :
    d.readBytes p = .ok bytes ↔ ∃ l, d.entry p .content = .ok (l, .file bytes) := by
  rw [readBytes]
  split
  · next why h => simp [h]
  · next l bytes' h => simp [h, eq_comm]
  · next x h h' =>
    constructor
    · intro hf
      cases hf
    · rintro ⟨l, he⟩
      rw [h'] at he
      cases he
      exact absurd rfl (h l bytes)

theorem isFile_iff_readBytes : d.isFile p = true ↔ ∃ bytes, d.readBytes p = .ok bytes := by
  simp only [isFile_iff, readBytes_ok_iff]
  exact exists_comm

theorem readText_ok_iff {t : Text} :
    d.readText p = .ok t ↔
      ∃ bytes, d.readBytes p = .ok bytes ∧
        (String.fromUTF8? bytes).map String.toList = some t := by
  rw [readText]
  split
  · next why h => simp [h]
  · next bytes h =>
    rw [h]
    split
    · next u hu => simp [hu]
    · next hu => simp [hu]

/-- The slash at the end of a path leads nowhere. -/
theorem leads_walked {t : Tree} {k : Nat} {m : Location}
    (h : t.Leads .content k l p.steps (.found m)) : t.Leads .content k l p.walked (.found m) := by
  rw [Path.steps_eq] at h
  rcases p.endStep_cases with he | he
  · rwa [he, List.append_nil] at h
  · rw [he] at h
    obtain ⟨m', hm, hend⟩ := h.split (by simp)
    cases hend with
    | slash _ hrest =>
      cases hrest
      exact hm

theorem location_eq (hd : d.tree.LinkFree) (h : d.entry p purpose = .ok (l, e)) :
    l = Step.leadAll (d.start p) p.walked := by
  have hl := (reach_ok_iff.1 (entry_ok_iff.1 h).1).2.place_eq hd
  rw [Path.leadAll_steps] at hl
  exact hl

theorem at?_of_readText {t : Text} (hd : d.tree.LinkFree) (hl : ∀ n ∈ l, IsName n)
    (h : d.readText (pathOf l) = .ok t) :
    ∃ bytes, d.tree.at? l = some (.file bytes) ∧
      (String.fromUTF8? bytes).map String.toList = some t := by
  obtain ⟨bytes, hbytes, ht⟩ := readText_ok_iff.1 h
  obtain ⟨m, hm⟩ := readBytes_ok_iff.1 hbytes
  have hml : m = l := by
    rw [location_eq hd hm, Path.walked_pathOf hl, start, if_pos (Path.isAbsolute_pathOf l),
      Step.leadAll_map_down, List.nil_append]
  exact ⟨bytes, hml ▸ (entry_ok_iff.1 hm).2, ht⟩

/-- Without links, what can be read is the text of an entry. -/
theorem mem_entries_of_readText {t : Text} (hd : d.tree.LinkFree) (hp : p.Canonical)
    (h : d.readText p = .ok t) :
    ∃ m bytes, (m, .file bytes) ∈ d.tree.entries ∧ p = pathOf m ∧
      (String.fromUTF8? bytes).map String.toList = some t := by
  obtain ⟨m, hm, rfl⟩ := hp
  obtain ⟨bytes, hbytes, ht⟩ := at?_of_readText hd hm h
  have hne : m ≠ [] := by
    rintro rfl
    cases hbytes
  exact ⟨m, bytes, Tree.mem_entries hne hbytes, rfl, ht⟩

theorem text_toUTF8 (u : String) :
    (String.fromUTF8? u.toUTF8).map String.toList = some u.toList := by
  simpa [String.fromUTF8?, String.fromUTF8] using u.isValidUTF8

end Pagefold.Disk
