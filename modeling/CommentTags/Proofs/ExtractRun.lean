import CommentTags.CommandLine.Run
import CommentTags.Proofs.ArtifactRoundTrip
import CommentTags.Proofs.Extraction

/-!
A run over several node files. It makes one extraction after the other, each on the files that the
one before has left, and what it prints and how it ends can be read off these extractions. A node
file that is refused is reported and passed over, and its place in the list has no part in what
becomes of the others. Only a fault ends a run early: one that an extraction meets, or that the
output does not take the line on a tree. No extraction takes away an artifact of an earlier one,
since their names are checked to differ.
-/

namespace CommentTags

namespace CommandLine

def errorLine (message : Text) : Text := text "Error: " ++ message ++ text "\n"

/-- The line on the tree of an extraction. -/
def summary? (e : FileExtraction) : Option Text :=
  e.result.toOption.bind fun o => o.tree.map fun t => summaryLine o.sourceFile t.size

/-- What an extraction adds to the output: the line on its tree, if the output takes it. -/
def printed (output : Output) (e : FileExtraction) : Text :=
  match summary? e with
  | some line => if line.all output.takes then line ++ text "\n" else []
  | none => []

/-- What ends a run at an extraction: the fault that the extraction met, or that of the output. -/
def stop? (output : Output) (e : FileExtraction) : Option Fault :=
  match summary? e with
  | some line => if line.all output.takes then none else some Output.fault
  | none => e.fault?

/-- What an extraction adds to the errors: its log, and a line for each diagnostic or for the
refusal. -/
def complaints (verbose : Bool) (e : FileExtraction) : Text :=
  e.log.flatMap (LogLine.render verbose) ++
  match e.result with
  | .ok o => o.diagnostics.flatMap fun d => errorLine d.message
  | .error (.refused b) => errorLine b.message
  | .error (.fault _) => []

def Session.add (output : Output) (verbose : Bool) (s : Session) (e : FileExtraction) : Session :=
  { fs := e.fs, out := s.out ++ printed output e, err := s.err ++ complaints verbose e }

/-- The files as some extractions leave them, one after the other. -/
def filesAfter (fs : FileSystem) (es : List FileExtraction) : FileSystem :=
  es.foldl (fun _ e => e.fs) fs

def endingOf (output : Output) (failed : Bool) (es : List FileExtraction) : Ending :=
  match es.findSome? (stop? output) with
  | some f => .fault f
  | none => .exit (if failed || es.any (·.failed) then 1 else 0)

section Session

variable {output : Output} {e : FileExtraction}

theorem takes_of_ascii (output : Output) {cs : List Char} (h : ∀ c ∈ cs, c.toNat < 0x80) :
    (cs.map CodePoint.char).all output.takes := by
  rw [List.all_eq_true]
  exact List.forall_mem_map.mpr fun c hc => output.takes_ascii c (h c hc)

/-- All but the source of a tree is ASCII in the line on it. -/
theorem takes_summaryLine (output : Output) (source : Text) (size : Nat) :
    (summaryLine source size).all output.takes = source.all output.takes := by
  have hdigits : (Text.ofNat size).all output.takes := by
    refine takes_of_ascii output fun c hc => ?_
    have hdigit := Nat.isDigit_of_mem_toDigits (by decide) (by decide) hc
    simp only [Char.isDigit, Bool.and_eq_true, decide_eq_true_eq] at hdigit
    exact Nat.lt_of_le_of_lt hdigit.2 (by decide)
  have hcolon : (text ": ").all output.takes := takes_of_ascii output (by simp)
  have hcomments : (text " comment(s)").all output.takes := takes_of_ascii output (by simp)
  rw [summaryLine, List.all_append, List.all_append, List.all_append, hcolon, hdigits, hcomments]
  simp

/-- A run goes on behind an extraction that met no fault, if its line can be printed. -/
theorem stop?_eq_none :
    stop? output e = none ↔
      e.fault? = none ∧ ∀ line, summary? e = some line → line.all output.takes := by
  unfold stop? summary? FileExtraction.fault?
  cases e.result with
  | error failure => simp [Except.toOption]
  | ok o => cases htree : o.tree <;> simp [Except.toOption, htree]

theorem foldl_printError (s : Session) (ds : List Diagnostic) :
    ds.foldl (fun s d => s.printError d.message) s =
      { s with err := s.err ++ ds.flatMap fun d => errorLine d.message } := by
  induction ds generalizing s with
  | nil => simp
  | cons d ds ih =>
    rw [List.foldl_cons, ih]
    simp [Session.printError, errorLine]

theorem reportOutcome_eq {o : Outcome} (h : e.result = .ok o) (s : Session) :
    reportOutcome output s o =
      ({ s with
          out := s.out ++ printed output e
          err := s.err ++ o.diagnostics.flatMap fun d => errorLine d.message },
        stop? output e) := by
  unfold reportOutcome printed stop? summary?
  rw [foldl_printError]
  cases htree : o.tree with
  | none => simp [h, htree, Except.toOption, FileExtraction.fault?]
  | some t =>
    simp only [h, htree, Except.toOption, Option.bind_some, Option.map_some, Session.print]
    split
    · simp
    · simp

theorem foldl_add (output : Output) (verbose : Bool) (s : Session) (es : List FileExtraction) :
    es.foldl (Session.add output verbose) s =
      { fs := filesAfter s.fs es
        out := s.out ++ es.flatMap (printed output)
        err := s.err ++ es.flatMap (complaints verbose) } := by
  induction es generalizing s with
  | nil => simp [filesAfter]
  | cons e es ih =>
    rw [List.foldl_cons, ih]
    simp [Session.add, filesAfter]

end Session

section Run

variable (output : Output) (settings : Settings) (failFast : Bool) (outputDir : Option Path)

/-- The extractions that a run makes of some node files; a fault ends the run. -/
def extractions (fs : FileSystem) : List Text → List FileExtraction
  | [] => []
  | f :: files =>
    let e := extractFile fs settings failFast outputDir (.ofText f)
    e :: if (stop? output e).isSome then [] else extractions e.fs files

theorem extractions_cons_of_stop {fs : FileSystem} {f : Text} {e : FileExtraction} {fault : Fault}
    (he : extractFile fs settings failFast outputDir (.ofText f) = e)
    (h : stop? output e = some fault) (files : List Text) :
    extractions output settings failFast outputDir fs (f :: files) = [e] := by
  simp [extractions, he, h]

theorem extractions_cons_of_no_stop {fs : FileSystem} {f : Text} {e : FileExtraction}
    (he : extractFile fs settings failFast outputDir (.ofText f) = e) (h : stop? output e = none)
    (files : List Text) :
    extractions output settings failFast outputDir fs (f :: files) =
      e :: extractions output settings failFast outputDir e.fs files := by
  simp [extractions, he, h]

/-- **Step.** -/
theorem extractAll_cons (verbose : Bool) (s : Session) (failed : Bool) (f : Text)
    (files : List Text) :
    extractAll output settings verbose failFast outputDir s failed (f :: files) =
      let e := extractFile s.fs settings failFast outputDir (.ofText f)
      match stop? output e with
      | some fault => (s.add output verbose e, .fault fault)
      | none =>
        extractAll output settings verbose failFast outputDir (s.add output verbose e)
          (failed || e.failed) files := by
  rw [extractAll]
  generalize extractFile s.fs settings failFast outputDir (.ofText f) = e
  dsimp only
  cases hresult : e.result with
  | error failure =>
    cases failure with
    | fault fault =>
      simp [stop?, summary?, Except.toOption, FileExtraction.fault?, hresult, Session.add,
        Session.addLog, printed, complaints]
    | refused b =>
      simp [stop?, summary?, Except.toOption, FileExtraction.fault?, FileExtraction.failed, hresult,
        Session.add, Session.addLog, Session.printError, printed, complaints, errorLine]
  | ok o =>
    simp only [reportOutcome_eq hresult]
    cases hstop : stop? output e with
    | some fault => simp [Session.add, Session.addLog, complaints, hresult]
    | none => simp [FileExtraction.failed, Session.add, Session.addLog, complaints, hresult]

/-- **Run.** -/
theorem extractAll_eq (verbose : Bool) (s : Session) (failed : Bool) (files : List Text) :
    extractAll output settings verbose failFast outputDir s failed files =
      let es := extractions output settings failFast outputDir s.fs files
      (es.foldl (Session.add output verbose) s, endingOf output failed es) := by
  induction files generalizing s failed with
  | nil => simp [extractAll, extractions, endingOf]
  | cons f files ih =>
    rw [extractAll_cons]
    generalize he : extractFile s.fs settings failFast outputDir (.ofText f) = e
    cases hstop : stop? output e with
    | some fault => simp [extractions_cons_of_stop _ _ _ _ he hstop, endingOf, hstop]
    | none =>
      have hfs : (s.add output verbose e).fs = e.fs := rfl
      simp [extractions_cons_of_no_stop _ _ _ _ he hstop, ih, endingOf, hstop, hfs,
        Bool.or_assoc]

/-- An extraction of a run is that of its node file, on the files that those before it left. -/
theorem eq_extractFile_of_getElem? {fs : FileSystem} {files : List Text} {i : Nat}
    {e : FileExtraction}
    (h : (extractions output settings failFast outputDir fs files)[i]? = some e) :
    ∃ f, files[i]? = some f ∧
      e = extractFile
        (filesAfter fs ((extractions output settings failFast outputDir fs files).take i))
        settings failFast outputDir (.ofText f) := by
  induction files generalizing fs i with
  | nil => simp [extractions] at h
  | cons f files ih =>
    cases i with
    | zero =>
      refine ⟨f, rfl, ?_⟩
      simpa [extractions, filesAfter] using h.symm
    | succ i =>
      generalize he : extractFile fs settings failFast outputDir (.ofText f) = first at h
      cases hstop : stop? output first with
      | some fault =>
        rw [extractions_cons_of_stop _ _ _ _ he hstop] at h
        simp at h
      | none =>
        rw [extractions_cons_of_no_stop _ _ _ _ he hstop] at h ⊢
        exact ih h

/-- A run comes to the end of its list, or to the first node file that it stops at. -/
theorem length_extractions (fs : FileSystem) (files : List Text) :
    let es := extractions output settings failFast outputDir fs files
    ((∀ e ∈ es, stop? output e = none) ∧ es.length = files.length) ∨
      ∃ done e fault, es = done ++ [e] ∧ (∀ d ∈ done, stop? output d = none) ∧
        stop? output e = some fault := by
  induction files generalizing fs with
  | nil => exact .inl ⟨by simp [extractions], rfl⟩
  | cons f files ih =>
    generalize he : extractFile fs settings failFast outputDir (.ofText f) = first
    cases hstop : stop? output first with
    | some fault =>
      rw [extractions_cons_of_stop _ _ _ _ he hstop]
      exact .inr ⟨[], first, fault, rfl, by simp, hstop⟩
    | none =>
      rw [extractions_cons_of_no_stop _ _ _ _ he hstop]
      rcases ih first.fs with ⟨hnone, hlength⟩ | ⟨done, e, fault, hes, hdone, he⟩
      · exact .inl ⟨by simpa [hstop] using hnone, by simp [hlength]⟩
      · exact .inr ⟨first :: done, e, fault, by simp [hes], by simpa [hstop] using hdone, he⟩

end Run

/-- The name that an artifact takes from its node file. -/
def artifactName (f : Text) : Text := (Path.ofText f).name

/-- There are shared artifacts if and only if two node files have the same name. -/
theorem sharedArtifacts_eq_nil {files : List Text} :
    sharedArtifacts files = [] ↔ (files.map artifactName).Nodup := by
  have hshared : sharedArtifacts files = [] ↔
      ∀ i f, files[i]? = some f → artifactName f ∉ (files.take i).map artifactName := by
    simp only [sharedArtifacts, List.map_eq_nil_iff, List.filter_eq_nil_iff, Prod.forall,
      List.mem_zipIdx_iff_getElem?, List.contains_eq_mem, decide_eq_true_eq]
    exact ⟨fun h i f => h f i, fun h f i => h i f⟩
  rw [hshared, List.Nodup, List.pairwise_iff_getElem]
  constructor
  · intro h i j hi hj hij heq
    rw [List.length_map] at hi hj
    refine h j files[j] (List.getElem?_eq_getElem hj) ?_
    rw [List.getElem_map, List.getElem_map] at heq
    rw [← heq]
    exact List.mem_map_of_mem (List.mem_take_iff_getElem.mpr ⟨i, by omega, rfl⟩)
  · intro h j f hf hmem
    obtain ⟨hj, rfl⟩ := List.getElem?_eq_some_iff.mp hf
    obtain ⟨g, hg, heq⟩ := List.mem_map.mp hmem
    obtain ⟨i, hi, rfl⟩ := List.mem_take_iff_getElem.mp hg
    refine h i j (by simp; omega) (by simpa using hj) (by omega) ?_
    rw [List.getElem_map, List.getElem_map, heq]

section Artifacts

variable {output : Output} {settings : Settings} {failFast : Bool} {dir : Path}

/-- The place of the artifact of a node file. -/
def artifactPlace (fs : FileSystem) (dir : Path) (f : Text) : Place :=
  fs.placeOf (Artifact.pathFor (.ofText f) dir)

theorem artifactPlace_inj {fs : FileSystem} {f g : Text} :
    artifactPlace fs dir f = artifactPlace fs dir g ↔ artifactName f = artifactName g := by
  simp [artifactPlace, Artifact.placeOf_pathFor, artifactName]

/-- A run lets the files grow, by artifacts of its node files. -/
theorem grown_extractions (output : Output) (settings : Settings) (failFast : Bool) (dir : Path)
    (fs : FileSystem) (files : List Text) :
    FileSystem.Grown (fun q => ∃ f ∈ files, q = artifactPlace fs dir f) fs
      (filesAfter fs (extractions output settings failFast (some dir) fs files)) := by
  induction files generalizing fs with
  | nil => exact .refl _ _
  | cons f files ih =>
    have hdone := extracts_extractFile fs settings failFast (some dir) (.ofText f)
    generalize he : extractFile fs settings failFast (some dir) (.ofText f) = e at hdone
    have hfirst : FileSystem.Grown (fun q => ∃ g ∈ f :: files, q = artifactPlace fs dir g) fs
        e.fs := by
      refine hdone.grown fun d hd => ?_
      cases hd
      exact ⟨f, by simp, rfl⟩
    cases hstop : stop? output e with
    | some fault =>
      rw [extractions_cons_of_stop _ _ _ _ he hstop]
      exact hfirst
    | none =>
      rw [extractions_cons_of_no_stop _ _ _ _ he hstop]
      have hrest := ih e.fs
      have hplace (g : Text) : artifactPlace e.fs dir g = artifactPlace fs dir g :=
        FileSystem.placeOf_of_cwd hfirst.cwd _
      simp only [hplace] at hrest
      refine hfirst.trans (hrest.mono fun q hq => ?_)
      obtain ⟨g, hg, hqg⟩ := hq
      exact ⟨g, by simp [hg], hqg⟩

/-- An artifact that was written is there when the run ends, if no two node files share its
name. -/
theorem read_artifact_of_run {fs : FileSystem} {files : List Text}
    (hnodup : (files.map artifactName).Nodup) {i : Nat} {f : Text} {e : FileExtraction}
    {o : Outcome} {tree : TokenTree} (hf : files[i]? = some f)
    (he : (extractions output settings failFast (some dir) fs files)[i]? = some e)
    (ho : e.result = .ok o) (htree : o.tree = some tree) :
    (filesAfter fs (extractions output settings failFast (some dir) fs files)).read
        (Artifact.pathFor (.ofText f) dir) = .ok (o.artifact tree) := by
  induction files generalizing fs i with
  | nil => simp at hf
  | cons g files ih =>
    rw [List.map_cons, List.nodup_cons] at hnodup
    obtain ⟨hfresh, hnodup⟩ := hnodup
    have hdone := extracts_extractFile fs settings failFast (some dir) (.ofText g)
    generalize hg : extractFile fs settings failFast (some dir) (.ofText g) = first at hdone
    cases i with
    | zero =>
      cases hf
      have hfirst : first = e := by simpa [extractions, hg] using he
      subst hfirst
      have hwritten := hdone.read ho htree
      cases hstop : stop? output first with
      | some fault =>
        rw [extractions_cons_of_stop _ _ _ _ hg hstop]
        exact hwritten
      | none =>
        rw [extractions_cons_of_no_stop _ _ _ _ hg hstop]
        refine (grown_extractions output settings failFast dir first.fs files).read ?_ hwritten
        rintro ⟨h, hh, hplace⟩
        rw [← artifactPlace, artifactPlace_inj] at hplace
        exact hfresh (hplace ▸ List.mem_map_of_mem hh)
    | succ i =>
      cases hstop : stop? output first with
      | some fault =>
        rw [extractions_cons_of_stop _ _ _ _ hg hstop] at he
        simp at he
      | none =>
        rw [extractions_cons_of_no_stop _ _ _ _ hg hstop] at he ⊢
        exact ih hnodup hf he

end Artifacts

/-! The command. -/

section Command

variable {output : Output} {fs : FileSystem} {argv : List Text} {common : CommonOptions}
  {files : List Text} {outputDir : Option Path} {dir : Path} {collect : Bool} {settings : Settings}

/-- With settings that load and no shared artifacts, the command is the run over its node files. -/
theorem run_extract (output : Output)
    (hargv : Request.ofArgv argv = .command (.extract common files outputDir collect))
    (hload : loadSettings fs common.config = .ok settings)
    (hshared : outputDir.isSome → sharedArtifacts files = []) :
    let es := extractions output settings (!collect) outputDir fs files
    run fs argv output =
      ({ fs := filesAfter fs es
         out := es.flatMap (printed output)
         err := es.flatMap (complaints common.verbose) }, endingOf output false es) := by
  have hnone : (if outputDir.isSome then sharedArtifacts files else []) = [] := by
    split
    · rename_i h
      exact hshared h
    · rfl
  simp only [run, hargv, runCommand, runExtract, hload, hnone, List.isEmpty_nil, ↓reduceIte,
    extractAll_eq, foldl_add, List.nil_append]

/-- Shared artifacts stop the command before it does anything. -/
theorem run_extract_of_shared (output : Output)
    (hargv : Request.ofArgv argv = .command (.extract common files (some dir) collect))
    (hload : loadSettings fs common.config = .ok settings) (hshared : sharedArtifacts files ≠ []) :
    (run fs argv output).1.fs = fs ∧ (run fs argv output).2 = .exit 1 := by
  have hsome : (sharedArtifacts files).isEmpty = false := by
    rw [← Bool.not_eq_true, List.isEmpty_iff]
    exact hshared
  simp [run, hargv, runCommand, runExtract, hload, hsome, Session.printError]

theorem endingOf_of_no_stop {es : List FileExtraction} (h : ∀ e ∈ es, stop? output e = none)
    (failed : Bool) :
    endingOf output failed es = .exit (if failed || es.any (·.failed) then 1 else 0) := by
  have hnone : es.findSome? (stop? output) = none := List.findSome?_eq_none_iff.mpr h
  rw [endingOf, hnone]

theorem endingOf_of_stop {done : List FileExtraction} {e : FileExtraction} {fault : Fault}
    (hdone : ∀ d ∈ done, stop? output d = none) (he : stop? output e = some fault)
    (failed : Bool) : endingOf output failed (done ++ [e]) = .fault fault := by
  have hnone : done.findSome? (stop? output) = none := List.findSome?_eq_none_iff.mpr hdone
  simp [endingOf, List.findSome?_append, hnone, he]

/-- What ends a run at a node file: a fault that its extraction `e` met, or a code point in the
source of its tree that the output does not take. -/
inductive RunFault (output : Output) (fs : FileSystem) (outputDir : Option Path) (p : Path)
    (e : FileExtraction) : Fault → Prop where
  | extraction {fault : Fault} (h : ExtractionFault fs outputDir p fault) :
      RunFault output fs outputDir p e fault
  | printing {o : Outcome} {tree : TokenTree} {c : CodePoint} (ho : e.result = .ok o)
      (htree : o.tree = some tree) (hc : c ∈ o.sourceFile) (h : output.takes c = false) :
      RunFault output fs outputDir p e Output.fault

/-- A run ends early only for one of the reasons. -/
theorem runFault_of_stop {p : Path} {e : FileExtraction} {failFast : Bool} {fault : Fault}
    (hdone : Extracts fs settings failFast outputDir p e) (h : stop? output e = some fault) :
    RunFault output fs outputDir p e fault := by
  unfold stop? at h
  split at h
  · rename_i line hline
    split at h
    · cases h
    · rename_i htakes
      cases h
      obtain ⟨o, ho, hline⟩ := Option.bind_eq_some_iff.mp hline
      obtain ⟨tree, htree, rfl⟩ := Option.map_eq_some_iff.mp hline
      rw [takes_summaryLine, Bool.not_eq_true, List.all_eq_false] at htakes
      obtain ⟨c, hc, htakes⟩ := htakes
      exact .printing (ok_of_toOption ho) htree hc (by simpa using htakes)
  · exact .extraction (hdone.fault h)

/-- The line on a tree is printed, if the run does not stop there. -/
theorem printed_of_no_stop {e : FileExtraction} {o : Outcome} {tree : TokenTree}
    (h : stop? output e = none) (ho : e.result = .ok o) (htree : o.tree = some tree) :
    printed output e = summaryLine o.sourceFile tree.size ++ text "\n" := by
  have hline : summary? e = some (summaryLine o.sourceFile tree.size) := by
    simp [summary?, ho, htree, Except.toOption]
  have htakes := (stop?_eq_none.mp h).2 _ hline
  simp only [printed, hline, htakes, ↓reduceIte]

/-- A node file that is refused stops nothing: it leaves the files as they are, its error is reported
and the run goes on. Everything printed and written is what the extractions of the node files print
and write, one after the other, and each artifact is there in the end. The command comes to the end
of its list, with the line on every tree printed, and with 1 if there was anything to complain of,
unless a node file meets a fault or has a source that the output does not take. -/
theorem extract_isolates_refusals (output : Output)
    (hargv : Request.ofArgv argv = .command (.extract common files outputDir collect))
    (hload : loadSettings fs common.config = .ok settings)
    (hshared : outputDir.isSome → sharedArtifacts files = []) :
    let es := extractions output settings (!collect) outputDir fs files
    let s := (run fs argv output).1
    let ending := (run fs argv output).2
    s.out = es.flatMap (printed output) ∧ s.err = es.flatMap (complaints common.verbose) ∧
    (∀ i e, es[i]? = some e → ∃ f, files[i]? = some f ∧
      let before := filesAfter fs (es.take i)
      e = extractFile before settings (!collect) outputDir (.ofText f) ∧
      (∀ refusal, e.result = .error (.refused (.nodeFile refusal)) → e.fs = before) ∧
      ∀ dir o tree, outputDir = some dir → e.result = .ok o → o.tree = some tree →
        s.fs.read (Artifact.pathFor (.ofText f) dir) = .ok (o.artifact tree)) ∧
    ((es.length = files.length ∧ ending = .exit (if es.any (·.failed) then 1 else 0) ∧
        ∀ e ∈ es, ∀ o tree, e.result = .ok o → o.tree = some tree →
          printed output e = summaryLine o.sourceFile tree.size ++ text "\n") ∨
      ∃ done e f fault, es = done ++ [e] ∧ files[done.length]? = some f ∧ ending = .fault fault ∧
        RunFault output (filesAfter fs done) outputDir (.ofText f) e fault) := by
  intro es s ending
  have hrun := run_extract output hargv hload hshared
  have hfs : s.fs = filesAfter fs es := by simp only [s, hrun, es]
  refine ⟨?_, ?_, ?_, ?_⟩
  · simp only [s, hrun, es]
  · simp only [s, hrun, es]
  · intro i e he
    obtain ⟨f, hf, heq⟩ := eq_extractFile_of_getElem? output settings (!collect) outputDir he
    have hdone : Extracts (filesAfter fs (es.take i)) settings (!collect) outputDir (.ofText f) e :=
      heq ▸ extracts_extractFile _ _ _ _ _
    refine ⟨f, hf, heq, ?_, ?_⟩
    · intro refusal hrefused
      exact hdone.fs_of_refused hrefused
    · rintro dir o tree rfl ho htree
      have hnodup := sharedArtifacts_eq_nil.mp (hshared rfl)
      rw [hfs]
      exact read_artifact_of_run hnodup hf he ho htree
  · rcases length_extractions output settings (!collect) outputDir fs files with
      ⟨hnone, hlength⟩ | ⟨done, e, fault, hes, hdone, he⟩
    · refine .inl ⟨hlength, ?_, fun e he o tree ho htree => ?_⟩
      · simp only [ending, hrun, endingOf_of_no_stop hnone, Bool.false_or, es]
      · exact printed_of_no_stop (hnone e he) ho htree
    · have hlast : es[done.length]? = some e := by simp [es, hes]
      obtain ⟨f, hf, heq⟩ := eq_extractFile_of_getElem? output settings (!collect) outputDir hlast
      have hbefore : es.take done.length = done := by simp [es, hes]
      rw [hbefore] at heq
      have hlastDone : Extracts (filesAfter fs done) settings (!collect) outputDir (.ofText f) e :=
        heq ▸ extracts_extractFile _ _ _ _ _
      refine .inr ⟨done, e, f, fault, hes, hf, ?_, runFault_of_stop hlastDone he⟩
      simp only [ending, hrun, hes, endingOf_of_stop hdone he]

/-- A missing file, a directory, a file that is no YAML and one that is only a number are passed
over. -/
theorem extract_isolates_refusals_before_good :
    let fs : FileSystem := { entries :=
      [([text "d"], .directory), ([text "yaml"], .file (encodeFile "[")),
       ([text "shape"], .file (encodeFile "7")),
       ([text "good"], .file (encodeFile "[\x7blabel: COMMENT, content: /** hi */\x7d]"))] }
    let files := [text "none", text "d", text "yaml", text "shape", text "good"]
    let es := extractions .utf8 {} true none fs files
    let argv := text "extract" :: files
    (run fs argv .utf8).1.out = es.flatMap (printed .utf8) ∧
      (run fs argv .utf8).1.err = es.flatMap (complaints false) ∧
      run fs argv .utf8 =
        ({ fs := fs
           out := text "good: 1 comment(s)\n"
           err := text "Error: Node file not found: none\n" ++
             text "Error: Cannot read node file: [Errno 21] Is a directory: 'd'\n" ++
             text "Error: Invalid YAML in yaml: <yaml>\n" ++
             text "Error: shape: 'nodes' must be a list\n" }, .exit 1) := by
  intro fs files es argv
  have hargv : Request.ofArgv argv = .command (.extract {} files none false) := by decide +kernel
  have hload : loadSettings fs none = .ok {} := rfl
  obtain ⟨hout, herr, -, -⟩ := extract_isolates_refusals .utf8 hargv hload (by simp)
  exact ⟨hout, herr, by decide +kernel⟩

/-- A file that is not UTF-8 ends the run, without a word on it or on the file behind it; so does
one that names a half as its source. -/
theorem extract_stops_early :
    let fs : FileSystem := { entries :=
      [([text "bad"], .file [0xff]),
       ([text "odd"], .file (encodeFile "\x7bsource: \"\\ud800\"\x7d")),
       ([text "good"], .file (encodeFile "[\x7blabel: COMMENT, content: /** hi */\x7d]"))] }
    run fs [text "extract", text "bad", text "good"] .utf8 = ({ fs := fs }, .fault .undecodable) ∧
      run fs [text "extract", text "odd", text "good"] .utf8 =
        ({ fs := fs }, .fault Output.fault) ∧
      run fs [text "extract", text "good"] .utf8 =
        ({ fs := fs, out := text "good: 1 comment(s)\n" }, .exit 0) := by
  decide +kernel

/-- A run that ends with 0 has extracted each node file, and found nothing to complain of. -/
theorem outcome_of_exit_zero
    (hargv : Request.ofArgv argv = .command (.extract common files outputDir collect))
    (hload : loadSettings fs common.config = .ok settings)
    (hshared : outputDir.isSome → sharedArtifacts files = [])
    (hexit : (run fs argv output).2 = .exit 0) {i : Nat} {f : Text} (hf : files[i]? = some f) :
    ∃ e o tree, (extractions output settings (!collect) outputDir fs files)[i]? = some e ∧
      e.result = .ok o ∧ o.tree = some tree := by
  rw [run_extract output hargv hload hshared] at hexit
  rcases length_extractions output settings (!collect) outputDir fs files with
    ⟨hnone, hlength⟩ | ⟨done, e, fault, hes, hdone, he⟩
  · obtain ⟨hi, -⟩ := List.getElem?_eq_some_iff.mp hf
    have hes := List.getElem?_eq_getElem (hlength ▸ hi)
    generalize (extractions output settings (!collect) outputDir fs files)[i] = e at hes
    have hfailed : e.failed = false := by
      rw [endingOf_of_no_stop hnone] at hexit
      by_contra h
      have hany : (extractions output settings (!collect) outputDir fs files).any (·.failed) := by
        rw [List.any_eq_true]
        exact ⟨e, List.mem_of_getElem? hes, by simpa using h⟩
      simp [hany] at hexit
    obtain ⟨g, -, heq⟩ := eq_extractFile_of_getElem? output settings (!collect) outputDir hes
    have hdone := heq ▸ extracts_extractFile _ settings (!collect) outputDir (.ofText g)
    obtain ⟨o, tree, ho, htree⟩ := hdone.tree_of_not_failed hfailed
    exact ⟨e, o, tree, hes, ho, htree⟩
  · rw [hes, endingOf_of_stop hdone he] at hexit
    cases hexit

/-- No artifact is lost. After a run that ends with 0, the artifact of each node file is there, with
the tree that this run extracted, and the tree is read back from it: with the halves of its texts
joined, which makes no difference to any artifact and none at all if the texts are made of
characters. If two node files have the same name, nothing is written at all. -/
theorem extract_keeps_every_artifact (output : Output)
    (hargv : Request.ofArgv argv = .command (.extract common files (some dir) collect))
    (hload : loadSettings fs common.config = .ok settings) :
    let es := extractions output settings (!collect) (some dir) fs files
    let s := (run fs argv output).1
    ((run fs argv output).2 = .exit 0 → ∀ i f, files[i]? = some f →
      ∃ o tree,
        (extractFile (filesAfter fs (es.take i)) settings (!collect) (some dir) (.ofText f)).result =
          .ok o ∧ o.tree = some tree ∧
        let p := dir.child ((Path.ofText f).name ++ text ".doctag.json")
        s.fs.read p = .ok (encodeFile (Artifact.serialize tree (some o.sourceFile))) ∧
        Artifact.ofFile s.fs p = .ok (tree.mapTexts Text.joinHalves) ∧
        (∀ source, Artifact.serialize (tree.mapTexts Text.joinHalves) source =
          Artifact.serialize tree source) ∧
        (tree.isScalar → Artifact.ofFile s.fs p = .ok tree)) ∧
    ∀ (i j : Nat) (f g : Text), i < j → files[i]? = some f → files[j]? = some g →
      (Path.ofText f).name = (Path.ofText g).name →
        s.fs = fs ∧ (run fs argv output).2 = .exit 1 := by
  intro es s
  by_cases hshared : sharedArtifacts files = []
  · have hnodup := sharedArtifacts_eq_nil.mp hshared
    constructor
    · intro hexit i f hf
      obtain ⟨e, o, tree, he, ho, htree⟩ :=
        outcome_of_exit_zero hargv hload (fun _ => hshared) hexit hf
      obtain ⟨g, hg, heq⟩ := eq_extractFile_of_getElem? output settings (!collect) (some dir) he
      cases hf.symm.trans hg
      have hread := read_artifact_of_run hnodup hf he ho htree
      have hfs : s.fs = filesAfter fs es := by
        simp only [s, run_extract output hargv hload fun _ => hshared, es]
      rw [← hfs] at hread
      have hback := (Artifact.ofFile_of_read hread).trans (Artifact.deserialize_serialize _ _)
      refine ⟨o, tree, heq ▸ ho, htree, hread, hback, Artifact.serialize_joinHalves tree,
        fun hscalar => ?_⟩
      rwa [Artifact.mapTexts_joinHalves_of_isScalar hscalar] at hback
    · intro i j f g hij hf hg hname
      obtain ⟨hi, rfl⟩ := List.getElem?_eq_some_iff.mp hf
      obtain ⟨hj, rfl⟩ := List.getElem?_eq_some_iff.mp hg
      have hne := List.pairwise_iff_getElem.mp hnodup i j (by simpa) (by simpa) hij
      rw [List.getElem_map, List.getElem_map] at hne
      exact absurd hname hne
  · obtain ⟨hfs, hexit⟩ := run_extract_of_shared output hargv hload hshared
    constructor
    · intro hzero
      rw [hexit] at hzero
      cases hzero
    · intro i j f g _ _ _ _
      exact ⟨hfs, hexit⟩

/-- A node file in the directory that the artifacts go to, and one named twice. -/
theorem extract_keeps_every_artifact_beside_nodes :
    let fs : FileSystem := { entries :=
      [([text "a"], .file (encodeFile "[\x7blabel: COMMENT, content: /** hi */\x7d]")),
       ([text "out"], .directory), ([text "out", text "b"], .file (encodeFile "[]"))] }
    let dir : Path := { parts := [text "out"] }
    let argv := [text "extract", text "a", text "out//b", text "--output-dir=out"]
    let twice := [text "extract", text "a", text "./a/", text "--output-dir=out"]
    (run fs argv .utf8).2 = .exit 0 ∧
      (∃ tree,
        Artifact.ofFile (run fs argv .utf8).1.fs (dir.child (text "b.doctag.json")) = .ok tree) ∧
      (run fs twice .utf8).1.fs = fs ∧ (run fs twice .utf8).2 = .exit 1 := by
  intro fs dir argv twice
  have hload : loadSettings fs none = .ok {} := rfl
  have hargv : Request.ofArgv argv =
      .command (.extract {} [text "a", text "out//b"] (some dir) false) := by decide +kernel
  have htwice : Request.ofArgv twice =
      .command (.extract {} [text "a", text "./a/"] (some dir) false) := by decide +kernel
  have hexit : (run fs argv .utf8).2 = .exit 0 := by decide +kernel
  obtain ⟨hkept, -⟩ := extract_keeps_every_artifact .utf8 hargv hload
  obtain ⟨o, tree, -, -, -, hback, -, -⟩ := hkept hexit 1 (text "out//b") rfl
  obtain ⟨-, hshared⟩ := extract_keeps_every_artifact .utf8 htwice hload
  exact ⟨hexit, ⟨_, hback⟩, hshared 0 1 _ _ (by decide) rfl rfl (by decide +kernel)⟩

/-- Two halves that make a character are that character when the artifact is read: the tree that
comes back is not the one that was extracted. -/
theorem extract_joins_halves :
    let fs : FileSystem := { entries := [([text "a"],
      .file (encodeFile "[\x7blabel: COMMENT, content: \"/** \\ud83d\\ude00 */\"\x7d]"))] }
    let dir : Path := { parts := [text "out"] }
    let artifact := dir.child (text "a.doctag.json")
    let described (t : Text) : TokenTree := ⟨[⟨[{ label := text "description", content := t }]⟩]⟩
    let extracted := (extractFile fs {} true (some dir) (.ofText (text "a"))).result.toOption
    let final := run fs [text "extract", text "a", text "--output-dir=out"] .utf8
    final.2 = .exit 0 ∧
      extracted.bind (·.tree) = some (described [.half 0x3D, .half 0x600]) ∧
      Artifact.ofFile final.1.fs artifact = .ok (described (text "😀")) ∧
      Artifact.ofFile final.1.fs artifact ≠ .ok (described [.half 0x3D, .half 0x600]) := by
  intro fs dir artifact described extracted final
  have hexit : final.2 = .exit 0 := by decide +kernel
  have htree : extracted.bind (·.tree) = some (described [.half 0x3D, .half 0x600]) := by
    decide +kernel
  have hback : Artifact.ofFile final.1.fs artifact = .ok (described (text "😀")) :=
    ok_of_toOption (by decide +kernel)
  refine ⟨hexit, htree, hback, fun hsame => ?_⟩
  have hne : described (text "😀") ≠ described [.half 0x3D, .half 0x600] := by decide +kernel
  exact hne (Except.ok.inj (hback.symm.trans hsame))

end Command

end CommandLine
end CommentTags
