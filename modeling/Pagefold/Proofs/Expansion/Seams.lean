import Pagefold.Proofs.Context.Reported
import Pagefold.Proofs.Expansion.Copied
import Pagefold.Proofs.Expansion.Outcome

/-!
# Directives that an expansion leaves

What is put in the place of a directive is not read again. So a directive can be put together from
parts that were copied from several places, and then it is left in the outcome.

* `Trace.Unbroken`: a trace that was copied as a whole;
* `Copied.Inert`: a character at which no directive starts where it was copied from;
* `Expansion.settled_fileTrace`: an expansion that records nothing copies inert characters only;
* `Expansion.resolve_leftover`: so every directive in the outcome runs over a seam.

Values that are lists or objects are inserted as JSON and not searched for directives. Their
characters are left out of this.
-/

namespace Pagefold

open Text

/-- Every character was followed by the next one where it was copied from. -/
def Trace.Unbroken (w : Trace) : Prop := w.IsChain fun x y => x.after = y.char :: y.after

/-- No directive starts at the character where it was copied from, or it was copied from a list or
an object. -/
def Copied.Inert (x : Copied) : Prop :=
  x.nested = true ∨ Directive.read? (x.char :: x.after) = none

variable {w : Trace} {x : Copied} {t : Text} {c : Char}

/-! ## Texts without directives -/

theorem Trace.inert_copy {nested : Bool}
    (ht : nested = true ∨ ∀ u, u <:+ t → Directive.read? u = none) (hx : x ∈ Trace.copy nested t) : x.Inert := by
  obtain ⟨hsuffix, hnested⟩ := Trace.mem_copy hx
  rcases ht with rfl | ht
  · exact .inl hnested
  · exact .inr (ht _ hsuffix)

theorem Context.valueTrace_eq (v : Json) : valueTrace v = Trace.copy v.isNested (valueText v) := by
  cases v <;> rfl

/-- What a value inserts is inert, unless the value is a string with a directive in it. -/
theorem Context.inert_valueTrace {v : Json} (hv : Context.hasDirective v = false)
    (hx : x ∈ Context.valueTrace v) : x.Inert := by
  rw [valueTrace_eq] at hx
  refine Trace.inert_copy ?_ hx
  cases hnested : v.isNested with
  | true => exact .inl rfl
  | false =>
    rw [hasDirective_eq hnested] at hv
    exact .inr (Directive.pattern.occursIn_eq_false_iff.1 hv)

theorem Context.inert_insertionTrace {context : Context} (h : context.keysWithDirectives = [])
    {key : Text} (hx : x ∈ context.insertionTrace key) : x.Inert := by
  unfold insertionTrace at hx
  cases hv : context.lookup key with
  | none =>
    rw [hv] at hx
    cases hx
  | some v =>
    rw [hv] at hx
    refine inert_valueTrace ?_ hx
    rw [keysWithDirectives, List.map_eq_nil_iff, List.filter_eq_nil_iff] at h
    obtain ⟨l, l', hsplit, -⟩ := List.lookup_eq_some_iff.1 hv
    simpa using h (key, v) (by simp [hsplit])

theorem Trace.inert_replace {α : Type} (p : Pattern α) {f : α → Trace}
    (hf : ∀ v, ∀ x ∈ f v, x.Inert) (hw : ∀ x ∈ w, x.Inert) : ∀ x ∈ replace p f 0 w, x.Inert := by
  intro x hx
  rcases mem_replace p f hx with hx | ⟨v, hx⟩
  · exact hw x hx
  · exact hf v x hx

theorem Context.inert_substituteTrace [Matcher] {context : Context}
    (h : context.keysWithDirectives = []) (hw : ∀ x ∈ w, x.Inert) :
    ∀ x ∈ context.substituteTrace w, x.Inert := by
  unfold substituteTrace
  split
  · exact hw
  · split
    · -- One key after the other.
      refine List.foldlRecOn (motive := fun w : Trace => ∀ x ∈ w, x.Inert) _ _ hw ?_
      intro w hw key _
      exact Trace.inert_replace _ (fun _ _ => inert_insertionTrace h) hw
    · exact Trace.inert_replace _ (fun _ _ => inert_insertionTrace h) hw

theorem Starter.mem_withoutTitleTrace {s : StarterSettings} {page : Trace}
    (h : x ∈ withoutTitleTrace s page) : x ∈ page := by
  unfold withoutTitleTrace at h
  split at h
  · exact h
  · split at h
    · exact h
    · exact (List.mem_append.1 h).elim List.mem_of_mem_take List.mem_of_mem_drop

theorem Starter.inert_spliceTrace {s : StarterSettings} {layout page : Trace}
    (hlayout : ∀ x ∈ layout, x.Inert) (hpage : ∀ x ∈ page, x.Inert) :
    ∀ x ∈ spliceTrace s layout page, x.Inert := by
  have hbreak : ∀ x ∈ Trace.copy false ['\n'], x.Inert :=
    fun x hx => Trace.inert_copy (.inr (Directive.read?_of_not_mem (by decide))) hx
  have hbody : ∀ x ∈ if hasTitle s layout.text then withoutTitleTrace s page else page,
      x.Inert := by
    intro x hx
    split at hx
    · exact hpage x (mem_withoutTitleTrace hx)
    · exact hpage x hx
  have hbetween (n : Nat) {page : Trace} (hpage : ∀ x ∈ page, x.Inert) :
      ∀ x ∈ betweenTrace layout page n, x.Inert := by
    intro x hx
    simp only [betweenTrace, List.mem_append] at hx
    rcases hx with ((hx | hx) | hx) | hx
    · exact hlayout x (List.mem_of_mem_take hx)
    · exact hpage x hx
    · exact hbreak x hx
    · exact hlayout x (List.mem_of_mem_drop hx)
  unfold spliceTrace insertTrace
  split
  · exact hbetween _ hbody
  · split
    · exact hbetween _ hbody
    · intro x hx
      simp only [List.mem_append] at hx
      rcases hx with (hx | hx) | hx
      · exact hlayout x hx
      · exact hbreak x hx
      · exact hbody x hx

/-! ## Runs that record nothing -/

/-- When nothing was recorded, all characters of the outcome are inert. -/
def Recorded.Settled (r : Recorded Trace) : Prop :=
  r.log = [] → ∀ w, r.result = .ok w → ∀ x ∈ w, x.Inert

namespace Expansion

theorem settled_andThen {r : Recorded Trace} {f : Trace → Recorded Trace} (hr : r.Settled)
    (hf : ∀ w, (∀ x ∈ w, x.Inert) → (f w).Settled) : (r.andThen f).Settled := by
  obtain ⟨log, result⟩ := r
  cases result with
  | error e =>
    intro _ w hw
    cases hw
  | ok u =>
    intro hlog w hw
    obtain ⟨hlog, hlog'⟩ := List.append_eq_nil_iff.1 hlog
    exact hf u (hr hlog u rfl) hlog' w hw

section Body

variable {s : StarterSettings} {d : Disk} {folder : Path} {copied : Path → Recorded Trace}

theorem settled_contextTrace [Matcher] (label : Text) (raw : Option Text) (hw : ∀ x ∈ w, x.Inert) :
    (contextTrace label raw w).Settled := by
  intro hlog u hu
  unfold contextTrace at hlog hu
  cases hread : Context.read raw with
  | absent =>
    rw [hread] at hu
    cases hu
    exact hw
  | malformed reason =>
    rw [hread] at hlog
    cases hlog
  | parsed context =>
    rw [hread] at hlog hu
    cases hu
    exact Context.inert_substituteTrace (List.map_eq_nil_iff.1 hlog) hw

theorem settled_directiveTrace [Matcher] (h : ∀ q, (copied q).Settled) (x : Directive) :
    (directiveTrace copied d folder x).Settled := by
  simp only [directiveTrace]
  split
  · exact settled_andThen (h _) fun w hw => settled_contextTrace _ _ hw
  · intro hlog
    cases hlog

theorem log_piecesTrace (expand : Directive → Recorded Trace) (log : List Diagnostic) (done : Trace)
    (ps : List (Piece Directive)) : log <+: (piecesTrace expand log done ps).log := by
  induction ps generalizing log done with
  | nil => exact List.prefix_refl log
  | cons piece ps ih =>
    cases piece with
    | plain c => exact ih log _
    | hit source x =>
      rw [piecesTrace]
      split
      · exact List.prefix_append log _
      · exact (List.prefix_append log _).trans (ih _ _)

theorem settled_piecesTrace {expand : Directive → Recorded Trace} (h : ∀ x, (expand x).Settled)
    {ps : List (Piece Directive)}
    (hps : ∀ c qs, (Piece.plain c :: qs) <:+ ps →
      Directive.read? (c :: qs.flatMap Piece.source) = none)
    {log : List Diagnostic} {done : Trace} (hdone : ∀ x ∈ done, x.Inert) :
    (piecesTrace expand log done ps).Settled := by
  induction ps generalizing log done with
  | nil =>
    intro _ w hw x hx
    cases hw
    exact hdone x (List.mem_reverse.1 hx)
  | cons piece ps ih =>
    have hrest : ∀ c qs, (Piece.plain c :: qs) <:+ ps →
        Directive.read? (c :: qs.flatMap Piece.source) = none :=
      fun c qs hqs => hps c qs (hqs.trans (List.suffix_cons _ _))
    cases piece with
    | plain c =>
      refine ih hrest fun x hx => ?_
      rcases List.mem_cons.1 hx with rfl | hx
      · exact .inr (hps c ps (List.suffix_refl _))
      · exact hdone x hx
    | hit source d =>
      intro hlog w hw
      rw [piecesTrace] at hlog hw
      have hd := h d
      generalize expand d = r at hd hlog hw
      obtain ⟨l, result⟩ := r
      cases result with
      | error e => cases hw
      | ok u =>
        -- Nothing was recorded later, so nothing was recorded for this directive.
        have hlater := log_piecesTrace expand (log ++ l) (u.reverse ++ done) ps
        have hnil : log ++ l = [] := List.prefix_nil.1 (hlog ▸ hlater)
        refine ih hrest (fun x hx => ?_) hlog w hw
        rcases List.mem_append.1 hx with hx | hx
        · exact hd (List.append_eq_nil_iff.1 hnil).2 u rfl x (List.mem_reverse.1 hx)
        · exact hdone x hx

theorem settled_textTrace [Matcher] (h : ∀ q, (copied q).Settled) (t : Text) :
    (textTrace copied d folder t).Settled :=
  settled_piecesTrace (settled_directiveTrace h)
    (fun _ _ hps => Directive.pattern.read?_of_plain_suffix hps) (fun _ hx => by cases hx)

theorem settled_bodyTrace [Matcher] (h : ∀ q, (copied q).Settled) (t : Text) :
    (bodyTrace s copied d folder t).Settled := by
  unfold bodyTrace
  split
  · next o _ =>
    refine settled_andThen (settled_andThen (h _) fun w hw => settled_contextTrace _ _ hw) ?_
    intro layout hlayout
    refine settled_andThen (settled_textTrace h o.content) ?_
    intro page hpage _ w hw
    cases hw
    exact Starter.inert_spliceTrace hlayout hpage
  · exact settled_textTrace h t

end Body

theorem settled_fileTrace [Matcher] (s : StarterSettings) (d : Disk) (v : Chain) (p : Path) :
    (fileTrace s d v p).Settled := by
  induction v using Chain.extend_induction d generalizing p with
  | h v ih =>
    rw [fileTrace_eq]
    cases d.absolute p with
    | error why => exact fun _ w hw => by cases hw
    | ok file =>
      simp only
      split
      · exact fun _ w hw => by cases hw
      · next hv =>
        cases ht : d.readText file with
        | error why => exact fun _ w hw => by cases hw
        | ok t => exact settled_bodyTrace (ih file t (by simpa using hv) ht) t

/-! ## What is left -/

/-- What an unbroken trace was copied from starts with the whole of it. -/
theorem exists_source {y : Copied} {part : Trace} (h : Trace.Unbroken (y :: part)) :
    ∃ r, y.char :: y.after = Trace.text (y :: part) ++ r := by
  induction part generalizing y with
  | nil => exact ⟨y.after, rfl⟩
  | cons z part ih =>
    obtain ⟨hyz, hrest⟩ := List.isChain_cons_cons.1 h
    obtain ⟨r, hr⟩ := ih hrest
    exact ⟨r, by rw [hyz, hr]; rfl⟩

theorem fileTrace_of_resolve [Matcher] {s : StarterSettings} {d : Disk} {p : Path}
    {log : List Diagnostic} (h : resolve s d p = ⟨log, .ok t⟩) :
    ∃ w, fileTrace s d [] p = ⟨log, .ok w⟩ ∧ w.text = t := by
  rw [resolve, ← erase_fileTrace] at h
  generalize fileTrace s d [] p = r at h
  obtain ⟨log', result⟩ := r
  cases result with
  | error e => cases h
  | ok w =>
    cases h
    exact ⟨w, rfl, rfl⟩

/-- When a file was expanded and nothing was recorded, no directive that is left in the outcome was
copied as a whole from one file or string: it runs over a seam, unless there is text of a list or an
object in it. -/
theorem resolve_leftover [Matcher] {s : StarterSettings} {d : Disk} {p : Path}
    (h : resolve s d p = ⟨[], .ok t⟩) :
    ∃ w, fileTrace s d [] p = ⟨[], .ok w⟩ ∧ w.text = t ∧
      ∀ before part rest x, w = before ++ part ++ rest →
        Directive.read? (part.text ++ rest.text) = some (x, rest.text) →
        ¬ part.Unbroken ∨ ∃ y ∈ part, y.nested = true := by
  obtain ⟨w, hw, htext⟩ := fileTrace_of_resolve h
  refine ⟨w, hw, htext, ?_⟩
  intro before part rest x hsplit hread
  by_contra hcopied
  rw [not_or, not_not] at hcopied
  obtain ⟨hunbroken, hnested⟩ := hcopied
  have hinert : ∀ y ∈ w, y.Inert := by
    have hsettled := settled_fileTrace s d [] p
    rw [hw] at hsettled
    exact hsettled rfl w rfl
  obtain ⟨m, hm, hextend⟩ := Directive.read?_extend hread
  have hpart := List.append_cancel_right hm
  cases part with
  | nil =>
    have := (Directive.read?_proper hread).2
    simp at this
  | cons y part =>
    -- The directive starts at its first character where that was copied from, too.
    obtain ⟨r, hr⟩ := exists_source hunbroken
    have hsome := hextend r
    rw [← hpart, ← hr] at hsome
    rcases hinert y (by simp [hsplit]) with hy | hy
    · exact hnested ⟨y, List.mem_cons_self, hy⟩
    · rw [hy] at hsome
      cases hsome

/-- A site with a page in which an include puts two parts of a directive together. -/
def seamSite : Disk :=
  ⟨⟨[(["p".toList], .file "@@inc@@include('a')lude('x')".toUTF8), (["a".toList], .file ⟨#[]⟩),
    (["x".toList], .file "X".toUTF8)]⟩, []⟩

theorem resolve_seamSite [Matcher] :
    resolve {} seamSite ⟨"/p".toList⟩ = ⟨[], .ok "@@include('x')".toList⟩ := by
  have hd : seamSite.tree.LinkFree := Tree.linkFree_of_entries (by simp [seamSite])
  rw [resolve, ← iterate_resolveStep hd (fun _ _ => .pure []) (n := 4) (by decide)]
  rfl

section

attribute [local instance] Matcher.unlimited

theorem resolve_leftover_of_seam :
    ∃ w, fileTrace {} seamSite [] ⟨"/p".toList⟩ = ⟨[], .ok w⟩ ∧ w.text = "@@include('x')".toList ∧
      ∀ before part rest x, w = before ++ part ++ rest →
        Directive.read? (part.text ++ rest.text) = some (x, rest.text) →
        ¬ part.Unbroken ∨ ∃ y ∈ part, y.nested = true :=
  resolve_leftover resolve_seamSite

/-- So a directive can be left although nothing is recorded. -/
theorem resolve_leaves_seam :
    ∃ t, resolve {} seamSite ⟨"/p".toList⟩ = ⟨[], .ok t⟩ ∧ Directive.occursIn t = true :=
  ⟨_, resolve_seamSite, by decide⟩

end

end Expansion

end Pagefold
