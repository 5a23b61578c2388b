import Pagefold.Proofs.Path.Canonical

/-!
# What a file includes

The files that an expansion asks for are known before it starts: those that the directives of a file
name, with the layout first if the file opens with a starter directive.

* `Expansion.written`, `Expansion.targets`, `Expansion.children`, `Expansion.Includes`: the paths
  that a text names, and the files that a text and a file include;
* `Expansion.expandBody`, `Expansion.resolveFile_eq`: one step of an expansion, which leaves what is
  included to a function of its own;
* `Expansion.expandBody_ok_iff`, `Expansion.expandBody_error`: a text can be expanded exactly when
  all that it includes can be, and its fault is the fault of something that it includes;
* `Chain.extend_induction`: induction over the files that a chain may still take.
-/

namespace Pagefold

namespace Piece

variable {α : Type}

@[simp] theorem values_plain (c : Char) (ps : List (Piece α)) :
    (plain c :: ps).filterMap value? = ps.filterMap value? := rfl

@[simp] theorem values_hit (source : Text) (v : α) (ps : List (Piece α)) :
    (hit source v :: ps).filterMap value? = v :: ps.filterMap value? := rfl

end Piece

/-- The matches of a text, without the bytes where they stand, are its hits. -/
theorem Pattern.map_located {α : Type} (p : Pattern α) (t : Text) :
    (p.located t).map (fun m => m.2.2) = p.hits t := by
  have key : ∀ (ps : List (Piece α)) (seen : Nat × List (Nat × Nat × α)),
      ((ps.foldl place seen).2.reverse).map (fun m => m.2.2)
        = seen.2.reverse.map (fun m => m.2.2) ++ ps.filterMap Piece.value? := by
    intro ps
    induction ps with
    | nil => simp
    | cons piece ps ih =>
      intro seen
      rw [List.foldl_cons, ih]
      cases piece <;> simp [place]
  simpa [located, hits] using key (p.pieces t) (0, [])

namespace Recorded

variable {α β : Type}

/-! ## How a computation ends -/

theorem result_andThen_ok_iff {r : Recorded α} {f : α → Recorded β} :
    (∃ b, (r.andThen f).result = .ok b) ↔ ∃ a, r.result = .ok a ∧ ∃ b, (f a).result = .ok b := by
  unfold andThen
  split
  · next a h => simp [h, after]
  · next e h => simp [h]

theorem result_andThen_error {r : Recorded α} {f : α → Recorded β} {e : Fault}
    (h : (r.andThen f).result = .error e) :
    r.result = .error e ∨ ∃ a, r.result = .ok a ∧ (f a).result = .error e := by
  unfold andThen at h
  split at h
  · next a ha => exact .inr ⟨a, ha, h⟩
  · next e' he => exact .inl (by simpa [he] using h)

end Recorded

namespace Chain

variable {s : StarterSettings} {d : Disk}

/-- What holds of a chain as soon as it holds of the chain with any readable file added that is not
on it, holds of every chain. -/
theorem extend_induction (d : Disk) {P : Chain → Prop}
    (h : ∀ v : Chain, (∀ file t, v.has file = false → d.readText file = .ok t → P (file :: v)) →
      P v) (v : Chain) : P v := by
  generalize hn : v.room = n
  induction n using Nat.strong_induction_on generalizing v with
  | _ n ih =>
    refine h v fun file t hv ht => ih (Chain.room (file :: v)) ?_ (file :: v) rfl
    rw [← hn]
    exact room_cons_lt hv (Disk.byteSize_of_readText ht)

end Chain

namespace Expansion

/-! ## The files that are included -/

def written (t : Text) : List Text := (Directive.scan t).map fun m => m.2.2.path

theorem written_eq (t : Text) : written t = (Directive.pattern.hits t).map Directive.path := by
  rw [← Pattern.map_located, List.map_map]
  rfl

/-- The files that the directives of a text in a folder name. -/
def targets (d : Disk) (folder : Path) (t : Text) : List Path :=
  ((Directive.scan t).map fun x => folder.included x.2.2.path).filter d.isFile

/-- The files that the text of a file in a folder includes: the layout and what the content names, if
the text opens with a starter directive, and what the text names otherwise. -/
def children (s : StarterSettings) (d : Disk) (folder : Path) (t : Text) : List Path :=
  match Starter.detect s d folder t with
  | some o => o.layout :: targets d folder o.content
  | none => targets d folder t

def Includes (s : StarterSettings) (d : Disk) (f g : Path) : Prop :=
  ∃ t, d.readText f = .ok t ∧ g ∈ children s d (folderOf f) t

theorem mem_targets {d : Disk} {folder g : Path} {t : Text} :
    g ∈ targets d folder t ↔
      ∃ x ∈ Directive.pattern.hits t, folder.included x.path = g ∧ d.isFile g = true := by
  unfold targets Directive.scan
  rw [← Pattern.map_located, List.mem_filter, List.mem_map]
  constructor
  · rintro ⟨⟨m, hm, rfl⟩, hg⟩
    exact ⟨m.2.2, List.mem_map_of_mem hm, rfl, hg⟩
  · rintro ⟨x, hx, rfl, hg⟩
    obtain ⟨m, hm, rfl⟩ := List.mem_map.1 hx
    exact ⟨⟨m, hm, rfl⟩, hg⟩

theorem detect_layout {s : StarterSettings} {d : Disk} {folder : Path} {t : Text}
    {o : Starter.Opening} (h : Starter.detect s d folder t = some o) :
    d.isFile o.layout = true ∧ ∃ raw, o.layout = folder.included raw := by
  unfold Starter.detect at h
  split at h
  · simp at h
  · next path _ _ _ =>
    simp only at h
    split at h
    · next hf =>
      cases h
      exact ⟨hf, path, rfl⟩
    · simp at h

theorem canonical_of_mem_children {s : StarterSettings} {d : Disk} {folder g : Path} {t : Text}
    (hf : folder.Canonical) (h : g ∈ children s d folder t) : g.Canonical := by
  have ht : ∀ u, g ∈ targets d folder u → g.Canonical := by
    intro u hu
    obtain ⟨x, -, rfl, -⟩ := mem_targets.1 hu
    exact Path.canonical_included hf x.path
  unfold children at h
  split at h
  · next o ho =>
    rcases List.mem_cons.1 h with rfl | h
    · obtain ⟨-, raw, hraw⟩ := detect_layout ho
      rw [hraw]
      exact Path.canonical_included hf raw
    · exact ht _ h
  · exact ht _ h

theorem canonical_of_includes {s : StarterSettings} {d : Disk} {f g : Path} (hf : f.Canonical)
    (h : Includes s d f g) : g.Canonical := by
  obtain ⟨t, -, hg⟩ := h
  exact canonical_of_mem_children (canonical_folderOf hf) hg

/-! ## One step -/

/-- The text of a file in a folder, expanded. -/
def expandBody [Matcher] (s : StarterSettings) (includeFile : Path → Recorded Text) (d : Disk)
    (folder : Path) (t : Text) : Recorded Text :=
  match Starter.detect s d folder t with
  | some o => expandPage s includeFile d folder o
  | none => expandText includeFile d folder t

/-- One step of an expansion: `below` answers for the files that are included. -/
def resolveStep [Matcher] (s : StarterSettings) (d : Disk) (below : Chain → Path → Recorded Text)
    (v : Chain) (p : Path) : Recorded Text :=
  match d.absolute p with
  | .error why => .fail (.fileNotFound p why)
  | .ok file =>
    if v.has file then .fail (.circularInclude file (v.fromFirst ++ [file]))
    else
      match d.readText file with
      | .error why => .fail (.fileNotFound file why)
      | .ok t => expandBody s (below (file :: v)) d (folderOf file) t

/-- An expansion is made of such steps. -/
theorem resolveFile_eq [Matcher] (s : StarterSettings) (d : Disk) (v : Chain) (p : Path) :
    resolveFile s d v p = resolveStep s d (resolveFile s d) v p := by
  -- The step stays closed while the cases of the definition are told apart.
  generalize hstep : resolveStep s d (resolveFile s d) v p = r
  unfold resolveStep at hstep
  rw [resolveFile]
  split
  · next why hp =>
    rw [hp] at hstep
    exact hstep
  · next file hp =>
    rw [hp] at hstep
    split
    · next hv =>
      simp only [hv, if_true] at hstep
      exact hstep
    · next hv =>
      simp only [hv, Bool.false_eq_true, if_false] at hstep
      split
      · next why ht =>
        rw [ht] at hstep
        exact hstep
      · next t ht =>
        rw [ht] at hstep
        unfold expandBody at hstep
        exact hstep

section Body

variable {s : StarterSettings} {d : Disk} {includeFile : Path → Recorded Text} {folder : Path}

theorem applyContext_ok [Matcher] (label : Text) (raw : Option Text) (t : Text) :
    ∃ u, (applyContext label raw t).result = .ok u := by
  unfold applyContext
  split <;> exact ⟨_, rfl⟩

theorem expandDirective_ok_iff [Matcher] {x : Directive} :
    (∃ u, (expandDirective includeFile d folder x).result = .ok u) ↔
      (d.isFile (folder.included x.path) = true →
        ∃ u, (includeFile (folder.included x.path)).result = .ok u) := by
  simp only [expandDirective]
  split
  · next h =>
    rw [Recorded.result_andThen_ok_iff]
    constructor
    · rintro ⟨a, ha, -⟩ -
      exact ⟨a, ha⟩
    · intro ha
      obtain ⟨a, ha⟩ := ha h
      exact ⟨a, ha, applyContext_ok _ _ _⟩
  · next h => simp [h]

theorem expandPieces_ok_iff {expand : Directive → Recorded Text} {log : List Diagnostic}
    {done : Text} {ps : List (Piece Directive)} :
    (∃ u, (expandPieces expand log done ps).result = .ok u) ↔
      ∀ x ∈ ps.filterMap Piece.value?, ∃ u, (expand x).result = .ok u := by
  induction ps generalizing log done with
  | nil => simp [expandPieces]
  | cons p ps ih =>
    cases p with
    | plain c => simpa [expandPieces] using ih
    | hit source x =>
      rw [Piece.values_hit, List.forall_mem_cons, expandPieces]
      split
      · next l e he => simp [he]
      · next l t ht => rw [ih]; simp [ht]

theorem expandText_ok_iff [Matcher] {t : Text} :
    (∃ u, (expandText includeFile d folder t).result = .ok u) ↔
      ∀ g ∈ targets d folder t, ∃ u, (includeFile g).result = .ok u := by
  rw [expandText, expandPieces_ok_iff]
  constructor
  · intro h g hg
    obtain ⟨x, hx, rfl, hf⟩ := mem_targets.1 hg
    exact expandDirective_ok_iff.1 (h x hx) hf
  · intro h x hx
    exact expandDirective_ok_iff.2 fun hf => h _ (mem_targets.2 ⟨x, hx, rfl, hf⟩)

/-- A text can be expanded exactly when every file that it includes can be. -/
theorem expandBody_ok_iff [Matcher] {t : Text} :
    (∃ u, (expandBody s includeFile d folder t).result = .ok u) ↔
      ∀ g ∈ children s d folder t, ∃ u, (includeFile g).result = .ok u := by
  unfold expandBody children
  split
  · next o ho =>
    rw [List.forall_mem_cons, ← expandText_ok_iff, expandPage, Recorded.result_andThen_ok_iff]
    constructor
    · rintro ⟨l, hl, hp⟩
      obtain ⟨a, ha, -⟩ := Recorded.result_andThen_ok_iff.1 ⟨l, hl⟩
      obtain ⟨b, hb, -⟩ := Recorded.result_andThen_ok_iff.1 hp
      exact ⟨⟨a, ha⟩, b, hb⟩
    · rintro ⟨⟨a, ha⟩, b, hb⟩
      obtain ⟨l, hl⟩ := Recorded.result_andThen_ok_iff.2
        ⟨a, ha, applyContext_ok o.layout.text o.context a⟩
      exact ⟨l, hl, Recorded.result_andThen_ok_iff.2 ⟨b, hb, _, rfl⟩⟩
  · exact expandText_ok_iff

theorem expandDirective_error [Matcher] {x : Directive} {e : Fault}
    (h : (expandDirective includeFile d folder x).result = .error e) :
    d.isFile (folder.included x.path) = true ∧
      (includeFile (folder.included x.path)).result = .error e := by
  simp only [expandDirective] at h
  split at h
  · next hf =>
    refine ⟨hf, (Recorded.result_andThen_error h).resolve_right ?_⟩
    rintro ⟨a, -, ha⟩
    obtain ⟨u, hu⟩ := applyContext_ok x.normalizedPath x.context a
    simp [hu] at ha
  · simp at h

theorem expandPieces_error {expand : Directive → Recorded Text} {log : List Diagnostic}
    {done : Text} {ps : List (Piece Directive)} {e : Fault}
    (h : (expandPieces expand log done ps).result = .error e) :
    ∃ x ∈ ps.filterMap Piece.value?, (expand x).result = .error e := by
  induction ps generalizing log done with
  | nil => simp [expandPieces] at h
  | cons p ps ih =>
    cases p with
    | plain c =>
      rw [expandPieces] at h
      exact ih h
    | hit source x =>
      rw [Piece.values_hit]
      rw [expandPieces] at h
      split at h
      · next l e' he =>
        refine ⟨x, List.mem_cons_self, ?_⟩
        rw [he]
        exact h
      · obtain ⟨y, hy, hye⟩ := ih h
        exact ⟨y, List.mem_cons_of_mem _ hy, hye⟩

theorem expandText_error [Matcher] {t : Text} {e : Fault}
    (h : (expandText includeFile d folder t).result = .error e) :
    ∃ g ∈ targets d folder t, (includeFile g).result = .error e := by
  obtain ⟨x, hx, hxe⟩ := expandPieces_error h
  obtain ⟨hf, he⟩ := expandDirective_error hxe
  exact ⟨_, mem_targets.2 ⟨x, hx, rfl, hf⟩, he⟩

/-- The fault of a text is the fault of a file that it includes. -/
theorem expandBody_error [Matcher] {t : Text} {e : Fault}
    (h : (expandBody s includeFile d folder t).result = .error e) :
    ∃ g ∈ children s d folder t, (includeFile g).result = .error e := by
  unfold expandBody at h
  unfold children
  split at h
  · next o ho =>
    rcases Recorded.result_andThen_error h with h | ⟨l, -, h⟩
    · rcases Recorded.result_andThen_error h with h | ⟨a, -, h⟩
      · exact ⟨o.layout, List.mem_cons_self, h⟩
      · obtain ⟨u, hu⟩ := applyContext_ok o.layout.text o.context a
        simp [hu] at h
    · rcases Recorded.result_andThen_error h with h | ⟨b, -, h⟩
      · obtain ⟨g, hg, he⟩ := expandText_error h
        exact ⟨g, List.mem_cons_of_mem _ hg, he⟩
      · simp [Recorded.pure] at h
  · exact expandText_error h

end Body

end Expansion

end Pagefold
