import Pagefold.Proofs.Starter.Head
import Pagefold.Proofs.Text.Leftmost

/-!
# Which first directives are starter directives

The reader of starter directives looks for a path with a certain ending, in any letter case, and
passes the blanks that follow. Where a scan finds a directive at the first character of a page that
is not blank, the two readers agree on all of it: path, argument and end.

* `Starter.EndsWithFolded`: a text with an ending in some letter case;
* `Starter.read?_of_directive`: what the reader of starter directives reads off a directive;
* `Starter.detect_first`: so the first directive of a page opens it exactly when its path has that
  ending and leads to a file.
-/

namespace Pagefold.Starter

open Text

variable {s : StarterSettings} {d : Disk} {folder : Path} {fileName finish t r : Text}
  {x : Directive} {m : Nat × Nat × Directive}

/-! ## Endings in any letter case -/

def EndsWithFolded (finish t : Text) : Prop :=
  ∃ front name, t = front ++ name ∧ name.map caseKey = finish.map caseKey

theorem endsWithFolded_iff : endsWithFolded finish t = true ↔ EndsWithFolded finish t := by
  rw [endsWithFolded, Bool.and_eq_true, decide_eq_true_eq, sameFolded, beq_iff_eq]
  constructor
  · rintro ⟨-, hfold⟩
    exact ⟨_, _, (List.take_append_drop _ t).symm, hfold.symm⟩
  · rintro ⟨front, name, rfl, hfold⟩
    have hlength : name.length = finish.length := by simpa using congrArg List.length hfold
    have hfront : (front ++ name).length - finish.length = front.length := by
      rw [List.length_append]
      omega
    refine ⟨?_, ?_⟩
    · rw [List.length_append]
      omega
    · rw [hfront, List.drop_left, hfold]

/-! ## Directives in front of a page -/

/-- A directive behind the blanks of a page is read as a starter directive if its path ends like
one, and otherwise none is read. -/
theorem read?_of_directive (hsingle : '\'' ∉ fileName) (hdouble : '"' ∉ fileName)
    (h : Directive.read? (skipBlanks t) = some (x, r)) :
    read? fileName t =
      if endsWithFolded fileName x.path then some (x.path, x.context, skipBlanks r) else none := by
  simp only [Directive.read?, Option.bind_eq_bind, Option.bind_eq_some_iff, Prod.exists] at h
  obtain ⟨t₁, h₁, path, t₂, h₂, context, t₃, h₃, h⟩ := h
  cases h
  have hopen : dropFolded? Directive.opening (skipBlanks t) = some t₁ :=
    dropFolded?_eq_some_iff.2 ⟨_, dropPrefix?_eq_some_iff.1 h₁, rfl⟩
  obtain ⟨q, hq, -, hpath, hquoted⟩ := Directive.quoted?_eq_some_iff.1 h₂
  have hname : q ∉ fileName := by
    rcases hq with rfl | rfl
    · exact hsingle
    · exact hdouble
  -- The path is all up to the quote, so its ending is compared and nothing else.
  have hread : quotedPath? fileName (skipBlanks t₁) =
      if endsWithFolded fileName path then some (path, t₂) else none := by
    rw [hquoted, quotedPath?, if_pos hq, namedPath?_of_not_mem hname, takeWhile_bne hpath,
      dropWhile_bne hpath]
    simp [dropPrefix?]
  simp only [read?, Option.bind_eq_bind, hopen, Option.bind_some, hread]
  split
  · simp [h₃]
  · rfl

theorem read?_of_mem_scan (hm : m ∈ Directive.scan t)
    (hstart : m.1 = byteSize (t.takeWhile isBlank)) : ∃ taken behind, t = taken ++ behind ∧
      m.2.1 = taken.byteSize ∧ Directive.read? (skipBlanks t) = some (m.2.2, behind) := by
  obtain ⟨a, source, behind, ht, hread, hfirst, hstop⟩ :=
    (Directive.pattern.leftmost_located t).stands m hm
  obtain ⟨rfl, hskip⟩ : a = t.takeWhile isBlank ∧ source ++ behind = skipBlanks t :=
    append_inj_byteSize (by rw [← ht, skipBlanks, List.takeWhile_append_dropWhile])
      (hfirst.symm.trans hstart)
  refine ⟨t.takeWhile isBlank ++ source, behind, ?_, ?_, ?_⟩
  · rw [List.append_assoc]
    exact ht
  · rw [hstop, byteSize_append]
  · rw [← hskip]
    exact hread

/-- Where the first directive that a scan finds starts at the first character of a page that is not
blank, it is a starter directive exactly when its path ends with the name of the starter file, in
any letter case, and leads to a file. Then the layout is that file, the context is that of the
directive, and the content starts behind the directive and the blanks that follow it. -/
theorem detect_first (s : StarterSettings) (d : Disk) (folder : Path) (t : Text)
    {m : Nat × Nat × Directive} (hsingle : '\'' ∉ s.fileName) (hdouble : '"' ∉ s.fileName)
    (hfirst : (Directive.scan t).head? = some m)
    (hstart : m.1 = byteSize (t.takeWhile isBlank)) :
    ((detect s d folder t).isSome = true ↔
      EndsWithFolded s.fileName m.2.2.path ∧ d.isFile (folder.included m.2.2.path) = true) ∧
    ∀ o, detect s d folder t = some o →
      o.layout = folder.included m.2.2.path ∧ o.context = m.2.2.context ∧
      ∃ taken behind, t = taken ++ behind ∧ m.2.1 = taken.byteSize ∧
        o.contentStart t = m.2.1 + byteSize (behind.takeWhile isBlank) ∧
        o.content = skipBlanks behind := by
  obtain ⟨taken, behind, ht, hstop, hread⟩ := read?_of_mem_scan (List.mem_of_head? hfirst) hstart
  have hdetect : detect s d folder t =
      if (endsWithFolded s.fileName m.2.2.path && d.isFile (folder.included m.2.2.path)) = true then
        some ⟨folder.included m.2.2.path, m.2.2.context, skipBlanks behind⟩
      else none := by
    rw [detect, read?_of_directive hsingle hdouble hread]
    cases endsWithFolded s.fileName m.2.2.path with
    | true => rfl
    | false => rfl
  rw [hdetect, ← endsWithFolded_iff, ← Bool.and_eq_true]
  constructor
  · split
    · next h => exact iff_of_true rfl h
    · next h => exact iff_of_false Bool.false_ne_true h
  · intro o ho
    split at ho
    · cases ho
      refine ⟨rfl, rfl, taken, behind, ht, hstop, ?_, rfl⟩
      rw [hstop, ht]
      exact contentStart_eq _ _ taken behind
    · cases ho

/-- A name in capitals, a path through a folder above, and an object in an object over two lines. -/
theorem detect_first_of_lines :
    let s : StarterSettings := { fileName := "-STARTER.HTML".toList }
    let page := "\n @@include('x/../pages-starter.html',\n\x7b\"a\": \x7b\x7d\x7d ) \nx".toList
    let x : Directive := ⟨"x/../pages-starter.html".toList, some "\x7b\"a\": \x7b\x7d\x7d".toList⟩
    (Directive.scan page).head? = some (2, 50, x) ∧
    ((detect s layoutSite ⟨['/']⟩ page).isSome = true ↔
      EndsWithFolded s.fileName x.path ∧ layoutSite.isFile (Path.included ⟨['/']⟩ x.path) = true) ∧
    ∀ o, detect s layoutSite ⟨['/']⟩ page = some o →
      o.layout = Path.included ⟨['/']⟩ x.path ∧ o.context = x.context ∧
      ∃ taken behind, page = taken ++ behind ∧ 50 = byteSize taken ∧
        o.contentStart page = 50 + byteSize (behind.takeWhile isBlank) ∧
        o.content = skipBlanks behind := by
  intro s page x
  have hscan : (Directive.scan page).head? = some (2, 50, x) := rfl
  exact ⟨hscan, detect_first s layoutSite ⟨['/']⟩ page (by decide) (by decide) hscan rfl⟩

/-- Its layout is there. -/
example : detect { fileName := "-STARTER.HTML".toList } layoutSite ⟨['/']⟩
    "@@include('x/../pages-starter.html') x".toList
      = some ⟨⟨"/pages-starter.html".toList⟩, none, ['x']⟩ := rfl

end Pagefold.Starter
