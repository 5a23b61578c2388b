import Pagefold.Proofs.Flatten.Assets

/-!
# What a run changes

A run copies the asset folder, checks the document and then writes it, and it can stop at each of
these points. On a disk without links, what it leaves behind is said for all of them.

* `Flatten.outputAt`, `Flatten.copyAt`: where the document and the asset copy go;
* `Flatten.finish_ok_or`, `Flatten.flatten_fault`: how a document comes out, and when there is none;
* `Flatten.flatten_replaced`: a document only costs the place of its asset copy;
* `Flatten.writeOutput_ok`: a document that is written is put at its place, in folders on the way;
* `Flatten.run_changes`: what each outcome of a run means for the disk.
-/

namespace Pagefold.Flatten

open Expansion (folderOf)

variable {s : Settings} {o : Options} {d d' : Disk} {input output page target : Path}

/-! ## Places -/

def outputAt (d : Disk) (output : Path) : Location := Step.leadAll (d.start output) output.walked

def copyAt (s : AssetSettings) (d : Disk) (output : Path) : Location :=
  (outputAt d output).dropLast ++ [s.copyName]

theorem isName_of_mem_here (hd : d.WellFormed) : ∀ n ∈ d.here, IsName n :=
  hd.tree.names d.here _ hd.here

theorem isName_of_mem_outputAt (hd : d.WellFormed) (output : Path) :
    ∀ n ∈ outputAt d output, IsName n := by
  refine Step.isName_of_mem_leadAll ?_ fun n hn => Path.isName_of_down_mem_walked hn
  intro n hn
  unfold Disk.start at hn
  split at hn
  · cases hn
  · exact isName_of_mem_here hd n hn

theorem copyOf_leads (hd : d.WellFormed) (hcopy : IsName s.assets.copyName)
    (htarget : d.absolute output = .ok target) :
    (copyOf s.assets target).parent?.isSome = true ∧ .up ∉ (copyOf s.assets target).walked ∧
      Step.leadAll (d.start (copyOf s.assets target)) (copyOf s.assets target).walked
        = copyAt s.assets d output := by
  have hnames := isName_of_mem_outputAt hd output
  have htop : ∀ n ∈ (outputAt d output).dropLast, IsName n :=
    fun n hn => hnames n (List.dropLast_subset _ hn)
  have hfolder : folderOf target = Disk.pathOf (outputAt d output).dropLast := by
    rw [Disk.absolute_eq (isName_of_mem_here hd) htarget]
    exact Expansion.folderOf_pathOf hnames
  have hwalked : (copyOf s.assets target).walked =
      (copyAt s.assets d output).map .down := by
    rw [copyOf, hfolder, Path.walked_join_name _ hcopy, Path.walked_pathOf htop, copyAt,
      List.map_append]
    rfl
  have hstart : d.start (copyOf s.assets target) = [] := by
    rw [copyOf, hfolder, Disk.start_join d _ hcopy, Disk.start,
      if_pos (Path.isAbsolute_pathOf _)]
  refine ⟨?_, ?_, ?_⟩
  · refine Path.parent?_isSome_of_down_mem (n := s.assets.copyName) ?_
    rw [hwalked, copyAt]
    simp
  · rw [hwalked]
    simp
  · rw [hstart, hwalked, Step.leadAll_map_down, List.nil_append]

/-- The document and the asset copy have different places in one folder, or the output has no name
and is a folder already. -/
theorem outputAt_cases (hd : d.WellFormed) (hup : .up ∉ output.walked)
    (hname : output.fileName? ≠ some s.assets.copyName) :
    (d.tree.at? (outputAt d output) = some .folder) ∨
      ∃ n, n ≠ s.assets.copyName ∧ outputAt d output = (outputAt d output).dropLast ++ [n] := by
  rcases Path.fileName?_cases hup with ⟨j, hwalked⟩ | ⟨ss, n, j, hwalked, hfile⟩
  · left
    rw [outputAt, hwalked, Step.leadAll_replicate_stay, Disk.start]
    split
    · exact Tree.at?_nil _
    · exact hd.here
  · right
    refine ⟨n, fun hn => hname (hn ▸ hfile), ?_⟩
    have hout : outputAt d output = Step.leadAll (d.start output) ss ++ [n] := by
      rw [outputAt, hwalked, Step.leadAll_append, Step.leadAll_cons, Step.leadAll_replicate_stay]
      rfl
    rw [hout, List.dropLast_concat]

/-! ## Documents -/

/-- An expanded page becomes a document, or a name in the settings is too large. The document is
checked on the disk that it leaves behind. -/
theorem finish_ok_or [Matcher] (s : AssetSettings) (o : Options) (d : Disk) (source out : Path)
    (log : List Diagnostic) (t : Text) :
    (finish s o d source out log t).2 = .error .tooLarge ∨
      ∃ f, (finish s o d source out log t).2 = .ok f ∧
        f.report = if o.validate then
          some (Report.check (finish s o d source out log t).1 (rootsFor s source out f.start)
            f.content)
        else none := by
  rcases finish_cases s o d source out log t with h | ⟨u, f, -, h, -, hreport, -⟩
  · exact .inl (by rw [h])
  · rw [h]
    exact .inr ⟨f, rfl, hreport⟩

/-- A page is flattened by its expansion, or it is not and nothing is changed. -/
theorem flatten_cases [Matcher] (s : Settings) (o : Options) (d : Disk) (input output : Path) :
    (∃ e, flatten s o d input output = (d, .error e)) ∨
      ∃ page target log t, d.absolute input = .ok page ∧ d.absolute output = .ok target ∧
        Expansion.resolve s.starter d page = ⟨log, .ok t⟩ ∧
        flatten s o d input output =
          finish s.assets o d (folderOf page) (folderOf target) log t := by
  by_cases h : ∃ page target log t, d.absolute input = .ok page ∧ d.absolute output = .ok target ∧
      Expansion.resolve s.starter d page = ⟨log, .ok t⟩
  · obtain ⟨page, target, log, t, hpage, htarget, ht⟩ := h
    refine .inr ⟨page, target, log, t, hpage, htarget, ht, ?_⟩
    rw [flatten_eq, flattenWith_ok hpage htarget ht]
  · left
    rw [flatten_eq]
    exact flattenWith_error fun page target log t hpage htarget ht =>
      h ⟨page, target, log, t, hpage, htarget, ht⟩

/-- Where there is no document, nothing is changed, or a name in the settings is too large. -/
theorem flatten_fault [Matcher] {e : Fault} (h : flatten s o d input output = (d', .error e)) :
    d' = d ∨ e = .tooLarge := by
  rcases flatten_cases s o d input output with ⟨e', he⟩ | ⟨page, target, log, t, -, -, -, heq⟩
  · rw [he] at h
    cases h
    exact .inl rfl
  · right
    rw [heq] at h
    rcases finish_ok_or s.assets o d (folderOf page) (folderOf target) log t with
      hlarge | ⟨f, hf, -⟩
    · rw [h] at hlarge
      cases hlarge
      rfl
    · rw [h] at hf
      cases hf

theorem flatten_report [Matcher] {f : Flattened} (h : flatten s o d input output = (d', .ok f)) :
    ∃ page target, d.absolute input = .ok page ∧ d.absolute output = .ok target ∧
      f.report = if o.validate then
        some (Report.check d' (rootsFor s.assets (folderOf page) (folderOf target) f.start)
          f.content)
      else none := by
  rcases flatten_cases s o d input output with
    ⟨e, he⟩ | ⟨page, target, log, t, hpage, htarget, -, heq⟩
  · rw [he] at h
    cases h
  · refine ⟨page, target, hpage, htarget, ?_⟩
    rw [heq] at h
    rcases finish_ok_or s.assets o d (folderOf page) (folderOf target) log t with
      hlarge | ⟨f', hf, hreport⟩
    · rw [h] at hlarge
      cases hlarge
    · rw [h] at hf hreport
      cases hf
      exact hreport

/-- A document only costs the place of its asset copy. -/
theorem flatten_replaced [Matcher] (hd : d.WellFormed) (hlinks : d.tree.LinkFree)
    (hcopy : IsName s.assets.copyName) (o : Options) (input output : Path) :
    (flatten s o d input output).1 = d ∨ o.copyAssets = true ∧
      d.Replaced (copyAt s.assets d output) (flatten s o d input output).1 := by
  rcases flatten_disk_cases s o d input output with hsame | ⟨page, target, htarget, ho, hcopied⟩
  · exact .inl hsame
  · obtain ⟨hparent, hup, hleads⟩ := copyOf_leads hd hcopy htarget
    refine .inr ⟨ho, ?_⟩
    rw [hcopied, ← hleads]
    exact Disk.copyTree_replaced hd.tree hlinks hparent hup _

/-! ## Writing -/

theorem makeParent_grows (hd : d.tree.WellFormed) (hup : .up ∉ output.walked) :
    d.Grows (Disk.OnTheWay d output) (makeParent d output).1 := by
  unfold makeParent
  cases hparent : output.parent? with
  | none => exact .refl d
  | some folder =>
    obtain ⟨habs, i, x, j, hwalked⟩ := Path.walked_of_parent? hparent
    have hrest : output.walked = folder.walked ++
        (List.replicate i .stay ++ x :: List.replicate j .stay) := by
      rw [hwalked, List.append_assoc]
    have hupFolder : .up ∉ folder.walked := by
      intro hmem
      rw [hrest] at hup
      exact hup (List.mem_append_left _ hmem)
    have hgrows : d.Grows (Disk.OnTheWay d output) (d.makeFolders folder).1 := by
      refine (Disk.makeFolders_grows hd hupFolder).imp fun m e he => ⟨he.1, fun hlinks => ?_⟩
      have hstart : d.start folder = d.start output := by rw [Disk.start, Disk.start, habs]
      refine (he.2 hlinks).trans ?_
      rw [hrest, Step.leadAll_append, hstart]
      refine Step.prefix_leadAll (fun hmem => hup ?_) _
      rw [hrest]
      exact List.mem_append_right _ hmem
    simp only
    split
    · exact .refl d
    · split <;> next heq => rwa [heq] at hgrows

/-- A document that is written is put at its place, in folders on the way to it. -/
theorem writeOutput_ok {t : Text} (hd : d.tree.WellFormed) (hup : .up ∉ output.walked)
    (h : writeOutput d output t = (d', .ok ())) :
    ∃ d₁, d.Grows (Disk.OnTheWay d output) d₁ ∧ d₁.writeText output t = .ok d' := by
  have hgrows := makeParent_grows hd hup
  unfold writeOutput at h
  split at h
  · cases h
  · next d₁ hmade =>
    rw [hmade] at hgrows
    split at h
    · cases h
    · next d₂ hwrite =>
      cases h
      exact ⟨d₁, hgrows, hwrite⟩

theorem writeOutput_fault {e : Fault} {t : Text} (h : writeOutput d output t = (d', .error e)) :
    ∃ p why, e = .io p why := by
  unfold writeOutput at h
  split at h
  · next d₁ e' hmade =>
    cases h
    unfold makeParent at hmade
    split at hmade
    · cases hmade
    · split at hmade
      · cases hmade
      · split at hmade
        · cases hmade
          exact ⟨_, _, rfl⟩
        · cases hmade
  · split at h
    · cases h
      exact ⟨_, _, rfl⟩
    · cases h

/-! ## Runs -/

variable {r : Except Fault Outcome}

theorem run_of_ok [Matcher] {d₁ : Disk} {f : Flattened}
    (h : flatten s o d input output = (d₁, .ok f)) :
    run s o d input output =
      match f.report.filter (!·.isOk) with
      | some report => (d₁, .ok (.rejected f report))
      | none =>
        match writeOutput d₁ output f.content with
        | (d, .error e) => (d, .error e)
        | (d, .ok ()) => (d, .ok (.written f)) := by
  unfold run
  generalize flatten s o d input output = flat at h
  subst h
  rfl

/-- A run fails because there is no document, or because it cannot be written. -/
theorem run_fault [Matcher] {e : Fault} (h : run s o d input output = (d', .error e)) :
    flatten s o d input output = (d', .error e) ∨ ∃ p why, e = .io p why := by
  generalize hflat : flatten s o d input output = flat
  obtain ⟨d₁, e' | f⟩ := flat
  · left
    unfold run at h
    rw [hflat] at h
    cases h
    rfl
  · right
    rw [run_of_ok hflat] at h
    split at h
    · cases h
    · split at h
      · next d₂ e' hwrite =>
        cases h
        exact writeOutput_fault hwrite
      · cases h

/-- A run is rejected on a finding, with the document it does not write. -/
theorem run_rejected_iff [Matcher] {f : Flattened} {report : Report} :
    run s o d input output = (d', .ok (.rejected f report)) ↔
      flatten s o d input output = (d', .ok f) ∧ f.report = some report ∧
        report.findings ≠ [] := by
  generalize hflat : flatten s o d input output = flat
  obtain ⟨d₁, e | f'⟩ := flat
  · unfold run
    rw [hflat]
    simp
  · rw [run_of_ok hflat]
    constructor
    · intro h
      split at h
      · next report' hreport =>
        cases h
        obtain ⟨hsome, hfound⟩ := Option.filter_eq_some_iff.1 hreport
        refine ⟨rfl, hsome, fun hnil => ?_⟩
        simp [Report.isOk, hnil] at hfound
      · split at h <;> cases h
    · rintro ⟨hsame, hsome, hfound⟩
      cases hsame
      have hreport : f.report.filter (!·.isOk) = some report := by
        refine Option.filter_eq_some_iff.2 ⟨hsome, ?_⟩
        simpa [Report.isOk] using hfound
      rw [hreport]

/-- A run that writes a document has nothing to find in it. -/
theorem run_written [Matcher] {f : Flattened}
    (h : run s o d input output = (d', .ok (.written f))) :
    ∃ d₁, flatten s o d input output = (d₁, .ok f) ∧
      (∀ report, f.report = some report → report.findings = []) ∧
      writeOutput d₁ output f.content = (d', .ok ()) := by
  generalize hflat : flatten s o d input output = flat
  obtain ⟨d₁, e | f'⟩ := flat
  · unfold run at h
    rw [hflat] at h
    cases h
  · rw [run_of_ok hflat] at h
    split at h
    · cases h
    · next hreport =>
      split at h
      · cases h
      · next d₂ hwrite =>
        cases h
        refine ⟨d₁, rfl, fun report hsome => ?_, hwrite⟩
        have hok := Option.filter_eq_none_iff.1 hreport report hsome
        simpa [Report.isOk] using hok

/-- Where a document is written, its place has it, and nothing else changes but that folders are made
on the way to it. -/
theorem writeOutput_changes {t : Text} (hd : d.tree.WellFormed) (hlinks : d.tree.LinkFree)
    (hup : .up ∉ output.walked) (h : writeOutput d output t = (d', .ok ())) :
    d'.readBytes output = .ok (String.ofList t).toUTF8 ∧
      d'.tree.at? (outputAt d output) = some (.file (String.ofList t).toUTF8) ∧
      ∀ m, d'.tree.at? m ≠ d.tree.at? m → m = outputAt d output ∨
        m <+: outputAt d output ∧ d.tree.at? m = none ∧ d'.tree.at? m = some .folder := by
  obtain ⟨d₁, hgrows, hwrite⟩ := writeOutput_ok hd hup h
  obtain ⟨l, -, hadds, hentry⟩ := Disk.writeBytes_ok hwrite
  have hlast := Disk.Grows.of_adds hadds
  have hl : l = outputAt d output := by
    rw [Disk.location_eq (hlast.linkFree (hgrows.linkFree hlinks)) hentry, hlast.start_eq,
      hgrows.start_eq, outputAt]
  subst hl
  refine ⟨Disk.readBytes_ok_iff.2 ⟨_, hentry⟩, (Disk.entry_ok_iff.1 hentry).2, fun m hm => ?_⟩
  by_cases hout : m = outputAt d output
  · exact .inl hout
  right
  rw [hlast.at?_eq fun e he => hout he.1] at hm ⊢
  rcases hgrows.at?_eq_or m with hsame | ⟨x, hx, ⟨rfl, hway⟩, -, hnone | ⟨bytes, bytes', -, hfile⟩⟩
  · exact absurd hsame hm
  · exact ⟨hway hlinks, hnone, hx⟩
  · cases hfile

/-- The asset copy leaves the output as it is. -/
theorem replaced_output (hd : d.WellFormed) (hup : .up ∉ output.walked)
    (hname : output.fileName? ≠ some s.assets.copyName)
    (h : d.Replaced (copyAt s.assets d output) d') :
    (∀ bytes, d'.tree.at? (outputAt d output) = some (.file bytes) ↔
        d.tree.at? (outputAt d output) = some (.file bytes)) ∧
      (d.tree.at? (outputAt d output) = none → d'.tree.at? (outputAt d output) = none) := by
  by_cases hsame : d'.tree.at? (outputAt d output) = d.tree.at? (outputAt d output)
  · rw [hsame]
    exact ⟨fun _ => .rfl, id⟩
  have hlength : (copyAt s.assets d output).length = (outputAt d output).length - 1 + 1 := by
    simp [copyAt]
  rcases outputAt_cases hd hup hname with hfolder | ⟨n, hn, hout⟩
  · -- Only a copy at the output itself changes a folder there, and that is no file either.
    have hcopied : copyAt s.assets d output = outputAt d output := by
      rcases h.changes _ hsame with hpre | ⟨-, hnone, -⟩
      · refine hpre.eq_of_length_le ?_
        omega
      · rw [hfolder] at hnone
        cases hnone
    refine ⟨fun bytes => ⟨fun hfile => ?_, fun hfile => ?_⟩, fun hnone => ?_⟩
    · rw [← hcopied] at hfile ⊢
      exact h.no_file bytes hfile
    · rw [hfolder] at hfile
      cases hfile
    · rw [hfolder] at hnone
      cases hnone
  · -- The places are two names in one folder, so neither is above the other.
    have hlength' : (outputAt d output).length = (outputAt d output).length - 1 + 1 := by
      conv_lhs => rw [hout]
      simp
    have hcopied : copyAt s.assets d output = outputAt d output := by
      rcases h.changes _ hsame with hpre | ⟨hpre, -, -⟩
      · refine hpre.eq_of_length_le ?_
        omega
      · refine (hpre.eq_of_length_le ?_).symm
        omega
    have hnames := List.append_cancel_left (hcopied.trans hout)
    exact absurd (List.singleton_inj.1 hnames).symm hn

/-- A run whose page cannot be expanded changes nothing. -/
theorem run_unexpanded [Matcher] {e : Fault} (h : run s o d input output = (d', .error e))
    (hio : ∀ p why, e ≠ .io p why) (hlarge : e ≠ .tooLarge) : d' = d := by
  rcases run_fault h with hflat | ⟨p, why, he⟩
  · exact (flatten_fault hflat).resolve_right hlarge
  · exact absurd he (hio p why)

theorem run_rejected_changes [Matcher] {f : Flattened} {report : Report} (hd : d.WellFormed)
    (hlinks : d.tree.LinkFree) (hup : .up ∉ output.walked) (hcopy : IsName s.assets.copyName)
    (hname : output.fileName? ≠ some s.assets.copyName)
    (h : run s o d input output = (d', .ok (.rejected f report))) :
    (∀ bytes, d'.tree.at? (outputAt d output) = some (.file bytes) ↔
        d.tree.at? (outputAt d output) = some (.file bytes)) ∧
      (d.tree.at? (outputAt d output) = none → d'.tree.at? (outputAt d output) = none) ∧
      ∀ m, d'.tree.at? m ≠ d.tree.at? m → o.copyAssets = true ∧
        (copyAt s.assets d output <+: m ∨ m <+: copyAt s.assets d output ∧
          d.tree.at? m = none ∧ d'.tree.at? m = some .folder) := by
  obtain ⟨hflat, -, -⟩ := run_rejected_iff.1 h
  have hreplaced := flatten_replaced hd hlinks hcopy o input output
  rw [hflat] at hreplaced
  rcases hreplaced with hsame | ⟨ho, hreplaced⟩
  · obtain rfl : d' = d := hsame
    exact ⟨fun _ => .rfl, id, fun m hm => absurd rfl hm⟩
  · obtain ⟨hfile, hnone⟩ := replaced_output hd hup hname hreplaced
    exact ⟨hfile, hnone, fun m hm => ⟨ho, hreplaced.changes m hm⟩⟩

theorem run_written_changes [Matcher] {f : Flattened} (hd : d.WellFormed) (hlinks : d.tree.LinkFree)
    (hup : .up ∉ output.walked) (hcopy : IsName s.assets.copyName)
    (h : run s o d input output = (d', .ok (.written f))) :
    d'.readBytes output = .ok (String.ofList f.content).toUTF8 ∧
      d'.tree.at? (outputAt d output) = some (.file (String.ofList f.content).toUTF8) ∧
      ∀ m, d'.tree.at? m ≠ d.tree.at? m → m = outputAt d output ∨
        (o.copyAssets = true ∧ copyAt s.assets d output <+: m) ∨
        m <+: outputAt d output ∧ d.tree.at? m = none ∧ d'.tree.at? m = some .folder := by
  obtain ⟨d₁, hflat, -, hwrite⟩ := run_written h
  have hreplaced := flatten_replaced hd hlinks hcopy o input output
  rw [hflat] at hreplaced
  rcases hreplaced with hsame | ⟨ho, hreplaced⟩
  · obtain rfl : d₁ = d := hsame
    obtain ⟨hread, hat, hchanges⟩ := writeOutput_changes hd.tree hlinks hup hwrite
    exact ⟨hread, hat, fun m hm => (hchanges m hm).imp_right .inr⟩
  · obtain ⟨hread, hat, hchanges⟩ :=
      writeOutput_changes hreplaced.wellFormed hreplaced.linkFree hup hwrite
    have hout : outputAt d₁ output = outputAt d output := by
      rw [outputAt, outputAt, Disk.start, Disk.start, hreplaced.here_eq]
    rw [hout] at hat hchanges
    refine ⟨hread, hat, fun m hm => ?_⟩
    by_cases hcopied : copyAt s.assets d output <+: m
    · exact .inr (.inl ⟨ho, hcopied⟩)
    by_cases hlast : d'.tree.at? m = d₁.tree.at? m
    · -- The copy changed it, so it is a folder on the way to the copy, and to the output.
      rw [hlast] at hm ⊢
      obtain ⟨hpre, hnone, hfolder⟩ := (hreplaced.changes m hm).resolve_left hcopied
      refine .inr (.inr ⟨?_, hnone, hfolder⟩)
      have hup' : m <+: (outputAt d output).dropLast := by
        rcases List.prefix_concat_iff.1 hpre with heq | hpre
        · rw [heq] at hcopied
          exact absurd (List.prefix_refl _) hcopied
        · exact hpre
      exact hup'.trans (List.dropLast_prefix _)
    · refine (hchanges m hlast).imp_right ?_
      rintro ⟨hpre, hnone, hfolder⟩
      refine .inr ⟨hpre, ?_, hfolder⟩
      by_cases hsame : d₁.tree.at? m = d.tree.at? m
      · rw [← hsame, hnone]
      · obtain ⟨-, -, hfolder'⟩ := (hreplaced.changes m hsame).resolve_left hcopied
        rw [hnone] at hfolder'
        cases hfolder'

/-- What a run changes on a disk without links: nothing, when its page cannot be expanded; only the
place of the asset copy, when the document is rejected; and the output too, when it is written. -/
theorem run_changes [Matcher] (hd : d.WellFormed) (hlinks : d.tree.LinkFree)
    (hup : .up ∉ output.walked)
    (hcopy : IsName s.assets.copyName) (hname : output.fileName? ≠ some s.assets.copyName)
    (h : run s o d input output = (d', r)) :
    ((∃ p why, r = .error (.fileNotFound p why)) ∨ (∃ p chain, r = .error (.circularInclude p chain))
      → d' = d) ∧
    (∀ f report, r = .ok (.rejected f report) →
      (∀ bytes, d'.tree.at? (outputAt d output) = some (.file bytes) ↔
        d.tree.at? (outputAt d output) = some (.file bytes)) ∧
      (d.tree.at? (outputAt d output) = none → d'.tree.at? (outputAt d output) = none) ∧
      ∀ m, d'.tree.at? m ≠ d.tree.at? m → o.copyAssets = true ∧
        (copyAt s.assets d output <+: m ∨ m <+: copyAt s.assets d output ∧
          d.tree.at? m = none ∧ d'.tree.at? m = some .folder)) ∧
    (∀ f, r = .ok (.written f) →
      d'.readBytes output = .ok (String.ofList f.content).toUTF8 ∧
      d'.tree.at? (outputAt d output) = some (.file (String.ofList f.content).toUTF8) ∧
      (∀ report, f.report = some report → report.findings = []) ∧
      ∀ m, d'.tree.at? m ≠ d.tree.at? m → m = outputAt d output ∨
        (o.copyAssets = true ∧ copyAt s.assets d output <+: m) ∨
        m <+: outputAt d output ∧ d.tree.at? m = none ∧ d'.tree.at? m = some .folder) ∧
    (∀ f report, r = .ok (.rejected f report) ↔
      o.validate = true ∧ flatten s o d input output = (d', .ok f) ∧ f.report = some report ∧
        report.findings ≠ []) := by
  refine ⟨?_, ?_, ?_, ?_⟩
  · rintro (⟨p, why, rfl⟩ | ⟨p, chain, rfl⟩)
    · exact run_unexpanded h (by simp) (by simp)
    · exact run_unexpanded h (by simp) (by simp)
  · rintro f report rfl
    exact run_rejected_changes hd hlinks hup hcopy hname h
  · rintro f rfl
    obtain ⟨hread, hat, hchanges⟩ := run_written_changes hd hlinks hup hcopy h
    obtain ⟨-, -, hreport, -⟩ := run_written h
    exact ⟨hread, hat, hreport, hchanges⟩
  · intro f report
    constructor
    · rintro rfl
      obtain ⟨hflat, hsome, hfound⟩ := run_rejected_iff.1 h
      obtain ⟨_, _, -, -, hreport⟩ := flatten_report hflat
      refine ⟨?_, hflat, hsome, hfound⟩
      by_contra hvalidate
      rw [if_neg hvalidate, hsome] at hreport
      cases hreport
    · rintro ⟨-, hflat, hsome, hfound⟩
      have hrun := run_rejected_iff.2 ⟨hflat, hsome, hfound⟩
      rw [h] at hrun
      exact (Prod.ext_iff.1 hrun).2

def pageSite : Disk :=
  ⟨⟨[(["index".toList], .file "page".toUTF8), (["assets".toList], .folder),
    (["assets".toList, "style".toList], .file "style".toUTF8)]⟩, []⟩

theorem pageSite_linkFree : pageSite.tree.LinkFree :=
  Tree.linkFree_of_entries (by simp [pageSite])

theorem pageSite_wellFormed : pageSite.WellFormed :=
  ⟨Tree.wellFormed_of_entries (by decide), rfl⟩

theorem resolve_pageSite [Matcher] :
    Expansion.resolve {} pageSite ⟨"/index".toList⟩ = ⟨[], .ok "page".toList⟩ := by
  rw [Expansion.resolve, ← Expansion.iterate_resolveStep pageSite_linkFree
    (fun _ _ => .pure []) (n := 3) (by decide)]
  rfl

def pageDocument : Flattened where
  content := "page".toList
  references := []
  start := some "assets/".toList
  report := none
  diagnostics := []

section

attribute [local instance] Matcher.unlimited

theorem flatten_pageSite :
    flatten {} { copyAssets := true } pageSite ⟨"/index".toList⟩ ⟨"/out/page".toList⟩ =
      ((pageSite.copyTree ⟨"/assets".toList⟩ ⟨"/out/assets".toList⟩).1, .ok pageDocument) := by
  have hpage : pageSite.absolute ⟨"/index".toList⟩ = .ok ⟨"/index".toList⟩ := by decide
  have htarget : pageSite.absolute ⟨"/out/page".toList⟩ = .ok ⟨"/out/page".toList⟩ := by decide
  rw [flatten_eq, flattenWith_ok hpage htarget resolve_pageSite]
  rfl

theorem run_pageSite :
    ∃ d', run {} { copyAssets := true } pageSite ⟨"/index".toList⟩ ⟨"/out/page".toList⟩ =
      (d', .ok (.written pageDocument)) := by
  rw [run_of_ok flatten_pageSite]
  exact ⟨_, rfl⟩

theorem run_changes_of_page :
    pageSite.WellFormed ∧ pageSite.tree.LinkFree ∧
    ∃ d', run {} { copyAssets := true } pageSite ⟨"/index".toList⟩ ⟨"/out/page".toList⟩ =
        (d', .ok (.written pageDocument)) ∧
      d'.readBytes ⟨"/out/page".toList⟩ = .ok "page".toUTF8 ∧
      d'.tree.at? ["index".toList] = some (.file "page".toUTF8) := by
  obtain ⟨d', hrun⟩ := run_pageSite
  obtain ⟨-, -, hwritten, -⟩ := run_changes pageSite_wellFormed pageSite_linkFree (by decide)
    (by decide) (by decide) hrun
  obtain ⟨hread, -, -, hchanges⟩ := hwritten pageDocument rfl
  refine ⟨pageSite_wellFormed, pageSite_linkFree, d', hrun, hread, ?_⟩
  have hindex : pageSite.tree.at? ["index".toList] = some (.file "page".toUTF8) := rfl
  rw [← hindex]
  by_contra hm
  rcases hchanges _ hm with hout | ⟨-, hcopied⟩ | ⟨hway, -⟩
  · exact absurd hout (by decide)
  · exact absurd hcopied (by decide)
  · exact absurd hway (by decide)

end

end Pagefold.Flatten
