import CommentTags.Proofs.DirectoryWrites
import CommentTags.Proofs.ExtractRun
import Mathlib.Data.List.Nodup

/-!
The order of node files. An extraction in a run comes to what it would come to alone, if no node
file is at the place of an artifact and none is reached only by way of a directory that the run
makes. So the order in which the node files are named does not matter for what is written.
-/

namespace CommentTags

open FileSystem (Grown Write Written SameFailure)

/-! Reading. -/

theorem FileSystem.read_of_unusable {p : Path} {e : IoError} (h : FileSystem.unusable? p = some e)
    (fs : FileSystem) : fs.read p = .error ⟨e, p⟩ := by
  have hlocate : fs.locate p = .error e := by rw [FileSystem.locate, h]
  rw [FileSystem.read, hlocate]

theorem NodeFile.refused_of_read {fs : FileSystem} {p : Path} {f : IoFailure}
    (h : fs.read p = .error f) (hp : FileSystem.unusable? p = none) :
    ∃ refusal, ofFile fs p = .error (.refused refusal) := by
  have hf : f.cause.isFault = false := by
    cases hcause : f.cause.isFault with
    | false => rfl
    | true =>
      rw [(FileSystem.read_fault h hcause).1] at hp
      cases hp
  simp only [ofFile, h, Failure.ofIo, hf, Bool.false_eq_true, ↓reduceIte, Except.error.injEq]
  split
  · exact ⟨_, rfl⟩
  · exact ⟨_, rfl⟩

/-- A node file that nothing was written to is read as before, or refused as before. -/
theorem NodeFile.ofFile_grown {targets : Place → Prop} {fs fs' : FileSystem}
    (h : Grown targets fs fs') (htree : fs.IsTree) {p : Path}
    (hup : Path.upward ∈ p.parts → fs.locate p ≠ .error .notFound)
    (hno : ¬ targets (fs.placeOf p)) :
    ofFile fs' p = ofFile fs p ∨
      ∃ refusal refusal', ofFile fs p = .error (.refused refusal) ∧
        ofFile fs' p = .error (.refused refusal') := by
  cases hread : fs.read p with
  | ok bytes =>
    left
    rw [ofFile, ofFile, hread, h.read hno hread]
  | error f =>
    cases hread' : fs'.read p with
    | ok bytes =>
      rw [h.read_back htree hup hno hread'] at hread
      cases hread
    | error f' =>
      cases hp : FileSystem.unusable? p with
      | some e =>
        left
        rw [ofFile, ofFile, FileSystem.read_of_unusable hp, FileSystem.read_of_unusable hp]
      | none =>
        right
        obtain ⟨refusal, hrefusal⟩ := refused_of_read hread hp
        obtain ⟨refusal', hrefusal'⟩ := refused_of_read hread' hp
        exact ⟨refusal, refusal', hrefusal, hrefusal'⟩

/-! One extraction. -/

section Extraction

variable {fs : FileSystem} {settings : Settings} {failFast : Bool} {dir p : Path}
  {e : FileExtraction}

theorem Extracts.of_error (hdone : Extracts fs settings failFast (some dir) p e)
    {failure : Failure NodeFileError} (h : NodeFile.ofFile fs p = .error failure) :
    e.fs = fs ∧ e.result = .error (failure.map .nodeFile) := by
  cases hdone with
  | unloaded hfile =>
    cases h.symm.trans hfile
    exact ⟨rfl, rfl⟩
  | kept log hfile => cases h.symm.trans hfile
  | tried log hfile => cases h.symm.trans hfile

theorem Extracts.of_no_tree (hdone : Extracts fs settings failFast (some dir) p e)
    {file : NodeFile} (h : NodeFile.ofFile fs p = .ok file)
    (htree : (file.outcome settings failFast).tree = none) :
    e.fs = fs ∧ e.result = .ok (file.outcome settings failFast) := by
  cases hdone with
  | unloaded hfile => cases h.symm.trans hfile
  | kept log hfile =>
    cases h.symm.trans hfile
    exact ⟨rfl, rfl⟩
  | tried log hfile hdir htree' =>
    cases h.symm.trans hfile
    cases htree.symm.trans htree'

theorem Extracts.of_tree (hdone : Extracts fs settings failFast (some dir) p e)
    {file : NodeFile} {tree : TokenTree} (h : NodeFile.ofFile fs p = .ok file)
    (htree : (file.outcome settings failFast).tree = some tree) :
    let o := file.outcome settings failFast
    let attempt := fs.writeDeep (Artifact.pathFor p dir) (o.artifact tree)
    e.fs = attempt.fs ∧ e.result = writeResult (Artifact.pathFor p dir) o attempt.failure := by
  cases hdone with
  | unloaded hfile => cases h.symm.trans hfile
  | kept log hfile hnone =>
    cases h.symm.trans hfile
    simp [htree] at hnone
  | tried log hfile hdir htree' hattempt =>
    cases h.symm.trans hfile
    cases hdir
    cases htree.symm.trans htree'
    subst hattempt
    exact ⟨rfl, rfl⟩

/-- What the extraction of a node file writes into the directory for artifacts. -/
def artifactWrite? (fs : FileSystem) (settings : Settings) (failFast : Bool) (p : Path) :
    Option Write :=
  match NodeFile.ofFile fs p with
  | .error _ => none
  | .ok file =>
    let o := file.outcome settings failFast
    o.tree.map fun tree => (p.name ++ Artifact.suffix, o.artifact tree)

theorem place_of_artifactWrite {w : Write} (h : artifactWrite? fs settings failFast p = some w) :
    w.place fs dir = fs.placeOf (Artifact.pathFor p dir) := by
  unfold artifactWrite? at h
  split at h
  · cases h
  · obtain ⟨tree, -, rfl⟩ := Option.map_eq_some_iff.mp h
    rfl

/-- The same outcome, or an error both times, with the same fault if it is one. -/
structure SameResult (e e' : FileExtraction) : Prop where
  outcome : e.result.toOption = e'.result.toOption
  fault : e.fault? = e'.fault?

theorem SameResult.failed {e' : FileExtraction} (h : SameResult e e') : e.failed = e'.failed := by
  have houtcome := h.outcome
  unfold FileExtraction.failed
  cases hresult : e.result with
  | error failure =>
    cases hresult' : e'.result with
    | error failure' => rfl
    | ok o' => simp [hresult, hresult', Except.toOption] at houtcome
  | ok o =>
    cases hresult' : e'.result with
    | error failure' => simp [hresult, hresult', Except.toOption] at houtcome
    | ok o' =>
      simp only [hresult, hresult', Except.toOption, Option.some.injEq] at houtcome
      rw [houtcome]

theorem sameResult_of_eq {e' : FileExtraction} (h : e.result = e'.result) : SameResult e e' :=
  ⟨by rw [h], by rw [FileExtraction.fault?, FileExtraction.fault?, h]⟩

theorem sameResult_of_refused {e' : FileExtraction} {b b' : BuildError}
    (h : e.result = .error (.refused b)) (h' : e'.result = .error (.refused b')) :
    SameResult e e' :=
  ⟨by rw [h, h']; rfl, by rw [FileExtraction.fault?, FileExtraction.fault?, h, h']⟩

theorem sameResult_of_sameFailure {e' : FileExtraction} {target : Path} {o : Outcome}
    {f f' : Option IoFailure} (hf : SameFailure f f') (h : e.result = writeResult target o f)
    (h' : e'.result = writeResult target o f') : SameResult e e' := by
  rcases hf with rfl | ⟨g, g', rfl, rfl, hg, hg'⟩
  · exact sameResult_of_eq (h.trans h'.symm)
  · simp only [writeResult, hg, hg', Bool.false_eq_true, ↓reduceIte] at h h'
    exact sameResult_of_refused h h'

theorem no_fault_of_writeResult {target : Path} {o : Outcome} {failure : Option IoFailure}
    (h : e.result = writeResult target o failure) (hfault : e.fault? = none) {f : IoFailure}
    (hf : failure = some f) : f.cause.isFault = false := by
  cases hcause : f.cause.isFault with
  | false => rfl
  | true =>
    have hsome : e.fault? = some (.io f) := by
      rw [FileExtraction.fault?_eq_some, h, hf, writeResult, if_pos hcause]
    rw [hsome] at hfault
    cases hfault

/-- **Step.** After the artifacts of other node files, an extraction comes to what it would have
come to first, and leaves its own artifact with theirs. -/
theorem extractFile_written (settings : Settings) (failFast : Bool) {fs' : FileSystem}
    {ws : List Write} (h : Written fs dir ws fs')
    (htree : fs.IsTree) (hup : Path.upward ∈ p.parts → fs.locate p ≠ .error .notFound)
    (hclear : ∀ w ∈ ws, fs.placeOf p ≠ w.place fs dir)
    (hfresh : ∀ w ∈ ws, fs.placeOf (Artifact.pathFor p dir) ≠ w.place fs dir) :
    let e := extractFile fs' settings failFast (some dir) p
    SameResult e (extractFile fs settings failFast (some dir) p) ∧
      (e.fault? = none →
        Written fs dir (ws ++ (artifactWrite? fs settings failFast p).toList) e.fs) := by
  intro e
  have hdone : Extracts fs' settings failFast (some dir) p e := extracts_extractFile _ _ _ _ _
  have halone := extracts_extractFile fs settings failFast (some dir) p
  generalize extractFile fs settings failFast (some dir) p = first at halone
  have hno : ¬ ∃ w ∈ ws, fs.placeOf p = w.place fs dir := by
    rintro ⟨w, hw, hplace⟩
    exact hclear w hw hplace
  have hread := NodeFile.ofFile_grown h.grown htree hup hno
  cases hfile : NodeFile.ofFile fs p with
  | error failure =>
    have hwrite : artifactWrite? fs settings failFast p = none := by rw [artifactWrite?, hfile]
    rw [hwrite, Option.toList_none, List.append_nil]
    obtain ⟨-, hfirst⟩ := halone.of_error hfile
    rcases hread with hsame | ⟨refusal, refusal', hrefused, hrefused'⟩
    · obtain ⟨hfs, hresult⟩ := hdone.of_error (hsame.trans hfile)
      rw [hfs]
      exact ⟨sameResult_of_eq (hresult.trans hfirst.symm), fun _ => h⟩
    · obtain ⟨hfs, hresult⟩ := hdone.of_error hrefused'
      cases hfile.symm.trans hrefused
      rw [hfs]
      exact ⟨sameResult_of_refused hresult hfirst, fun _ => h⟩
  | ok file =>
    have hfile' : NodeFile.ofFile fs' p = .ok file := by
      rcases hread with hsame | ⟨refusal, refusal', hrefused, -⟩
      · exact hsame.trans hfile
      · cases hfile.symm.trans hrefused
    cases htree : (file.outcome settings failFast).tree with
    | none =>
      have hwrite : artifactWrite? fs settings failFast p = none := by
        simp [artifactWrite?, hfile, htree]
      rw [hwrite, Option.toList_none, List.append_nil]
      obtain ⟨-, hfirst⟩ := halone.of_no_tree hfile htree
      obtain ⟨hfs, hresult⟩ := hdone.of_no_tree hfile' htree
      rw [hfs]
      exact ⟨sameResult_of_eq (hresult.trans hfirst.symm), fun _ => h⟩
    | some tree =>
      have hwrite : artifactWrite? fs settings failFast p =
          some (p.name ++ Artifact.suffix, (file.outcome settings failFast).artifact tree) := by
        simp [artifactWrite?, hfile, htree]
      rw [hwrite, Option.toList_some]
      obtain ⟨-, hfirst⟩ := halone.of_tree hfile htree
      obtain ⟨hfs, hresult⟩ := hdone.of_tree hfile' htree
      generalize (file.outcome settings failFast).artifact tree = bytes at hfirst hfs hresult ⊢
      obtain ⟨hfailure, hwritten⟩ := h.step (p.name ++ Artifact.suffix, bytes) hfresh
      refine ⟨sameResult_of_sameFailure hfailure hresult hfirst, fun hfault => ?_⟩
      rw [hfs]
      exact hwritten fun f hf => no_fault_of_writeResult hresult hfault hf

end Extraction

namespace CommandLine

/-! A run. -/

/-- Node files that do not get in each other's way: their artifacts have different names, none of
them is at the place of an artifact, and none is named by a path that goes up again from a directory
that is missing. -/
structure Apart (fs : FileSystem) (dir : Path) (files : List Text) : Prop where
  tree : fs.IsTree
  names : (files.map artifactName).Nodup
  clear : ∀ f ∈ files, ∀ g ∈ files, fs.placeOf (.ofText f) ≠ artifactPlace fs dir g
  found : ∀ f ∈ files, Path.upward ∈ (Path.ofText f).parts →
    fs.locate (.ofText f) ≠ .error .notFound

theorem Apart.perm {fs : FileSystem} {dir : Path} {files files' : List Text}
    (h : Apart fs dir files) (hperm : files'.Perm files) : Apart fs dir files' where
  tree := h.tree
  names := (hperm.map artifactName).nodup_iff.mpr h.names
  clear f hf g hg := h.clear f (hperm.mem_iff.mp hf) g (hperm.mem_iff.mp hg)
  found f hf := h.found f (hperm.mem_iff.mp hf)

/-- With the same result, a run goes on behind both or stops at both. -/
theorem stop?_eq_of_sameResult {e e' : FileExtraction} (h : SameResult e e') (output : Output) :
    stop? output e = stop? output e' := by
  have hsummary : summary? e = summary? e' := by rw [summary?, summary?, h.outcome]
  rw [stop?, stop?, hsummary, h.fault]

section Run

variable (fs : FileSystem) (settings : Settings) (failFast : Bool) (dir : Path)

/-- The extraction of a node file from the files at the start. -/
def alone (f : Text) : FileExtraction := extractFile fs settings failFast (some dir) (.ofText f)

/-- What the extraction of some node files writes. -/
def writesOf (files : List Text) : List Write :=
  files.flatMap fun f => (artifactWrite? fs settings failFast (.ofText f)).toList

variable {fs settings failFast dir}

theorem mem_writesOf {files : List Text} {w : Write} :
    w ∈ writesOf fs settings failFast files ↔
      ∃ f ∈ files, artifactWrite? fs settings failFast (.ofText f) = some w := by
  simp [writesOf]

/-- **Run.** If the run is not stopped, each extraction comes to what it comes to alone. -/
theorem extractions_written {output : Output} {done rest : List Text} {fs' : FileSystem}
    (hapart : Apart fs dir (done ++ rest))
    (h : Written fs dir (writesOf fs settings failFast done) fs')
    (hstop : (∀ e ∈ extractions output settings failFast (some dir) fs' rest,
        stop? output e = none) ∨
      ∀ f ∈ rest, stop? output (alone fs settings failFast dir f) = none) :
    List.Forall₂ (fun e f => SameResult e (alone fs settings failFast dir f))
        (extractions output settings failFast (some dir) fs' rest) rest ∧
      Written fs dir (writesOf fs settings failFast (done ++ rest))
        (filesAfter fs' (extractions output settings failFast (some dir) fs' rest)) := by
  -- What is required of the node files is about all of them, so those that are done are kept.
  induction rest generalizing done fs' with
  | nil =>
    rw [List.append_nil]
    exact ⟨.nil, h⟩
  | cons f rest ih =>
    have hf : f ∈ done ++ f :: rest := by simp
    have hclear : ∀ w ∈ writesOf fs settings failFast done,
        fs.placeOf (.ofText f) ≠ w.place fs dir := by
      intro w hw
      obtain ⟨g, hg, hwrite⟩ := mem_writesOf.mp hw
      rw [place_of_artifactWrite hwrite]
      exact hapart.clear f hf g (by simp [hg])
    have hfresh : ∀ w ∈ writesOf fs settings failFast done,
        artifactPlace fs dir f ≠ w.place fs dir := by
      intro w hw heq
      obtain ⟨g, hg, hwrite⟩ := mem_writesOf.mp hw
      rw [place_of_artifactWrite hwrite, ← artifactPlace, artifactPlace_inj] at heq
      have hnames := hapart.names
      rw [List.map_append, List.map_cons, List.nodup_append] at hnames
      exact hnames.2.2 _ (List.mem_map_of_mem hg) _ List.mem_cons_self heq.symm
    obtain ⟨hsame, hwritten⟩ :=
      extractFile_written settings failFast h hapart.tree (hapart.found f hf) hclear hfresh
    have hnone :
        stop? output (extractFile fs' settings failFast (some dir) (.ofText f)) = none := by
      rcases hstop with hrun | halone
      · exact hrun _ (by rw [extractions]; exact List.mem_cons_self)
      · rw [stop?_eq_of_sameResult hsame]
        exact halone f List.mem_cons_self
    rw [extractions_cons_of_no_stop _ _ _ _ rfl hnone] at hstop ⊢
    have happend : done ++ f :: rest = (done ++ [f]) ++ rest := by simp
    have hnext : Written fs dir (writesOf fs settings failFast (done ++ [f]))
        (extractFile fs' settings failFast (some dir) (.ofText f)).fs := by
      rw [writesOf, List.flatMap_append, List.flatMap_singleton]
      exact hwritten (stop?_eq_none.mp hnone).1
    rw [happend] at hapart ⊢
    have hrest := ih hapart hnext (hstop.imp (fun hrun e he => hrun e (by simp [he]))
      fun halone g hg => halone g (by simp [hg]))
    exact ⟨.cons hsame hrest.1, hrest.2⟩

theorem map_stop_eq (output : Output) {es : List FileExtraction} {files : List Text}
    (h : List.Forall₂ (fun e f => SameResult e (alone fs settings failFast dir f)) es files) :
    es.map (stop? output) = files.map fun f => stop? output (alone fs settings failFast dir f) := by
  induction h with
  | nil => rfl
  | cons hsame _ ih => rw [List.map_cons, List.map_cons, stop?_eq_of_sameResult hsame, ih]

theorem any_failed_eq {es : List FileExtraction} {files : List Text}
    (h : List.Forall₂ (fun e f => SameResult e (alone fs settings failFast dir f)) es files) :
    es.any (·.failed) = files.any fun f => (alone fs settings failFast dir f).failed := by
  induction h with
  | nil => rfl
  | cons hsame _ ih => rw [List.any_cons, List.any_cons, hsame.failed, ih]

/-- The artifact of a node file is the one that its extraction writes alone. -/
theorem contents_artifactPlace {files : List Text} {fs' : FileSystem} (hapart : Apart fs dir files)
    (h : Written fs dir (writesOf fs settings failFast files) fs') {f : Text} (hf : f ∈ files)
    (hfault : (alone fs settings failFast dir f).fault? = none) :
    fs'.contents? (artifactPlace fs dir f) =
      (alone fs settings failFast dir f).fs.contents? (artifactPlace fs dir f) := by
  obtain ⟨-, hwritten⟩ := extractFile_written settings failFast (.untouched rfl) hapart.tree
    (hapart.found f hf) (by simp) (by simp)
  have halone := hwritten hfault
  rw [List.nil_append] at halone
  by_cases hw : ∃ w, artifactWrite? fs settings failFast (.ofText f) = some w ∧ w.Succeeds fs dir
  · obtain ⟨w, hw, hsucceeds⟩ := hw
    have hmem : w ∈ writesOf fs settings failFast files := mem_writesOf.mpr ⟨f, hf, hw⟩
    have hplace : artifactPlace fs dir f = w.place fs dir := (place_of_artifactWrite hw).symm
    rw [hplace, h.contents_of_succeeds hmem hsucceeds]
    exact (halone.contents_of_succeeds (by simp [hw]) hsucceeds).symm
  · have hother {g : Text} (hg : g ∈ files) {w : Write}
        (hwg : artifactWrite? fs settings failFast (.ofText g) = some w)
        (hsucceeds : w.Succeeds fs dir) : artifactPlace fs dir f ≠ w.place fs dir := by
      intro heq
      rw [place_of_artifactWrite hwg, ← artifactPlace, artifactPlace_inj] at heq
      obtain rfl := List.inj_on_of_nodup_map hapart.names hf hg heq
      exact hw ⟨w, hwg, hsucceeds⟩
    have hrun : fs'.contents? (artifactPlace fs dir f) = fs.contents? (artifactPlace fs dir f) := by
      refine h.contents_elsewhere fun w hw hsucceeds => ?_
      obtain ⟨g, hg, hwg⟩ := mem_writesOf.mp hw
      exact hother hg hwg hsucceeds
    rw [hrun]
    refine (halone.contents_elsewhere fun w hw hsucceeds => ?_).symm
    exact hother hf (Option.mem_toList.mp hw) hsucceeds

end Run

/-! The command. -/

theorem no_stop_of_exit {output : Output} {failed : Bool} {es : List FileExtraction} {code : Nat}
    (h : endingOf output failed es = .exit code) : ∀ e ∈ es, stop? output e = none := by
  unfold endingOf at h
  split at h
  · cases h
  · rename_i hnone
    exact List.findSome?_eq_none_iff.mp hnone

section Command

variable {output : Output} {fs : FileSystem} {argv argv' : List Text} {common : CommonOptions}
  {files files' : List Text} {dir : Path} {collect : Bool} {settings : Settings}

/-- Settings that do not load stop the command before it does anything. -/
theorem run_extract_of_error (output : Output) {failure : Failure SettingsError}
    {outputDir : Option Path}
    (hargv : Request.ofArgv argv = .command (.extract common files outputDir collect))
    (hload : loadSettings fs common.config = .error failure) :
    (run fs argv output).1.fs = fs ∧
      (run fs argv output).2 =
        match failure with | .fault f => .fault f | .refused _ => .exit 1 := by
  cases failure with
  | fault f => simp [run, hargv, runCommand, runExtract, hload]
  | refused e => simp [run, hargv, runCommand, runExtract, hload, Session.printError]

/-- A run that ends with a code, or over node files that alone would not stop it, ends with the code
that their extractions alone call for, and leaves what they write. -/
theorem run_extract_apart
    (hargv : Request.ofArgv argv = .command (.extract common files (some dir) collect))
    (hload : loadSettings fs common.config = .ok settings) (hapart : Apart fs dir files)
    (hstop : (∃ code, (run fs argv output).2 = .exit code) ∨
      ∀ f ∈ files, stop? output (alone fs settings (!collect) dir f) = none) :
    let es := extractions output settings (!collect) (some dir) fs files
    List.Forall₂ (fun e f => SameResult e (alone fs settings (!collect) dir f)) es files ∧
      Written fs dir (writesOf fs settings (!collect) files) (run fs argv output).1.fs ∧
      (run fs argv output).2 =
        .exit (if files.any fun f => (alone fs settings (!collect) dir f).failed then 1 else 0) ∧
      ∀ f ∈ files, stop? output (alone fs settings (!collect) dir f) = none := by
  intro es
  have hrun := run_extract output hargv hload fun _ => sharedArtifacts_eq_nil.mpr hapart.names
  have hnone : (∀ e ∈ es, stop? output e = none) ∨
      ∀ f ∈ files, stop? output (alone fs settings (!collect) dir f) = none := by
    refine hstop.imp_left ?_
    rintro ⟨code, hcode⟩
    rw [hrun] at hcode
    exact no_stop_of_exit hcode
  have hstart : Apart fs dir ([] ++ files) := hapart
  have huntouched : Written fs dir (writesOf fs settings (!collect) []) fs := .untouched rfl
  obtain ⟨hsame, hwritten⟩ := extractions_written hstart huntouched hnone
  have hstops := map_stop_eq output hsame
  have hruns : ∀ e ∈ es, stop? output e = none := by
    rcases hnone with hruns | halone
    · exact hruns
    · have hmap : ∀ x ∈ es.map (stop? output), x = none := by
        rw [hstops]
        simpa using halone
      simpa using hmap
  have halone : ∀ f ∈ files, stop? output (alone fs settings (!collect) dir f) = none := by
    have hmap : ∀ x ∈ es.map (stop? output), x = none := by simpa using hruns
    rw [hstops] at hmap
    simpa using hmap
  refine ⟨hsame, ?_, ?_, halone⟩
  · rw [hrun]
    exact hwritten
  · rw [hrun, endingOf_of_no_stop hruns, Bool.false_or, any_failed_eq hsame]

/-- **The order of node files does not matter**, if the files are a tree, no two node files share an
artifact, no node file is at the place of an artifact, and none is named by a path that goes up
again from a directory that is missing. Then no node file is changed; and if the command ends with a
code, each node file comes to what it would come to alone, with the same artifact, and the command
ends with this code and leaves the same files if the node files are named in another order. -/
theorem extract_order_independent (output : Output)
    (hargv : Request.ofArgv argv = .command (.extract common files (some dir) collect))
    (htree : fs.IsTree) (hshared : sharedArtifacts files = [])
    (hclear : ∀ f ∈ files, ∀ g ∈ files,
      fs.placeOf (.ofText f) ≠ fs.placeOf (Artifact.pathFor (.ofText g) dir))
    (hfound : ∀ f ∈ files, Path.upward ∈ (Path.ofText f).parts →
      fs.locate (.ofText f) ≠ .error .notFound) :
    let final := (run fs argv output).1.fs
    (∀ f ∈ files,
      final.contents? (fs.placeOf (.ofText f)) = fs.contents? (fs.placeOf (.ofText f))) ∧
    ∀ code, (run fs argv output).2 = .exit code →
      (∀ settings, loadSettings fs common.config = .ok settings →
        let es := extractions output settings (!collect) (some dir) fs files
        ∀ i f, files[i]? = some f →
          let inRun := extractFile (filesAfter fs (es.take i)) settings (!collect) (some dir)
            (.ofText f)
          let alone := extractFile fs settings (!collect) (some dir) (.ofText f)
          let artifact := fs.placeOf (Artifact.pathFor (.ofText f) dir)
          es[i]? = some inRun ∧ inRun.result.toOption = alone.result.toOption ∧
            final.contents? artifact = alone.fs.contents? artifact) ∧
      ∀ argv' files', files'.Perm files →
        Request.ofArgv argv' = .command (.extract common files' (some dir) collect) →
        (run fs argv' output).2 = .exit code ∧
          ∀ q, FileSystem.entry? (run fs argv' output).1.fs q = final.entry? q := by
  intro final
  have hapart : Apart fs dir files := ⟨htree, sharedArtifacts_eq_nil.mp hshared, hclear, hfound⟩
  cases hload : loadSettings fs common.config with
  | error failure =>
    obtain ⟨hfs, hending⟩ := run_extract_of_error output hargv hload
    refine ⟨fun f _ => by simp only [final, hfs], fun code hcode => ⟨by simp, ?_⟩⟩
    intro argv' files' hperm hargv'
    obtain ⟨hfs', hending'⟩ := run_extract_of_error output hargv' hload
    exact ⟨by rw [hending', ← hending, hcode], fun q => by simp only [final, hfs, hfs']⟩
  | ok settings =>
    refine ⟨?_, fun code hcode => ?_⟩
    · intro f hf
      have hgrown := grown_extractions output settings (!collect) dir fs files
      simp only [final, run_extract output hargv hload fun _ => hshared]
      refine hgrown.contents? ?_
      rintro ⟨g, hg, hplace⟩
      exact hclear f hf g hg hplace
    · obtain ⟨hsame, hwritten, hending, halone⟩ :=
        run_extract_apart hargv hload hapart (.inl ⟨code, hcode⟩)
      refine ⟨?_, ?_⟩
      · intro settings' hsettings es i f hf
        cases hsettings
        obtain ⟨hi, hfi⟩ := List.getElem?_eq_some_iff.mp hf
        have hi' : i < es.length := hsame.length_eq ▸ hi
        have he : es[i]? = some es[i] := List.getElem?_eq_getElem hi'
        obtain ⟨g, hg, heq⟩ := eq_extractFile_of_getElem? output settings (!collect) (some dir) he
        cases hf.symm.trans hg
        have hresult : SameResult es[i] (alone fs settings (!collect) dir f) :=
          hfi ▸ hsame.get hi' hi
        have hmem := List.mem_of_getElem? hf
        refine ⟨heq ▸ he, heq ▸ hresult.outcome, ?_⟩
        exact contents_artifactPlace hapart hwritten hmem (stop?_eq_none.mp (halone f hmem)).1
      · intro argv' files' hperm hargv'
        have halone' : ∀ f ∈ files', stop? output (alone fs settings (!collect) dir f) = none :=
          fun f hf => halone f (hperm.mem_iff.mp hf)
        obtain ⟨-, hwritten', hending', -⟩ :=
          run_extract_apart hargv' hload (hapart.perm hperm) (.inr halone')
        refine ⟨?_, hwritten.entry_eq hwritten' fun w => ?_⟩
        · rw [hending', hperm.any_eq, ← hending, hcode]
        · simp only [mem_writesOf, hperm.mem_iff]

/-- A node file named by way of a directory that is there, one in that directory, and one that is
not there. -/
theorem extract_order_independent_swapped :
    let fs : FileSystem := { entries :=
      [([text "a"], .file (encodeFile "[\x7blabel: COMMENT, content: /** hi */\x7d]")),
       ([text "d"], .directory), ([text "d", text "b"], .file (encodeFile "[]"))] }
    let files := [text "d/../a", text "d/b", text "c"]
    let argv := text "extract" :: files ++ [text "--output-dir=d/out"]
    let argv' := text "extract" :: files.reverse ++ [text "--output-dir=d/out"]
    (run fs argv .utf8).2 = .exit 1 ∧ (run fs argv' .utf8).2 = .exit 1 ∧
      (∀ q, FileSystem.entry? (run fs argv' .utf8).1.fs q =
        FileSystem.entry? (run fs argv .utf8).1.fs q) ∧
      (run fs argv .utf8).1.fs ≠ fs := by
  intro fs files argv argv'
  let dir : Path := { parts := [text "d", text "out"] }
  have hargv : Request.ofArgv argv = .command (.extract {} files (some dir) false) := by
    decide +kernel
  have hargv' : Request.ofArgv argv' = .command (.extract {} files.reverse (some dir) false) := by
    decide +kernel
  have htree : fs.IsTree := by decide +kernel
  have hexit : (run fs argv .utf8).2 = .exit 1 := by decide +kernel
  obtain ⟨-, hcode⟩ := extract_order_independent .utf8 hargv htree (by decide +kernel)
    (by decide +kernel) (by decide +kernel)
  obtain ⟨-, hperm⟩ := hcode 1 hexit
  obtain ⟨hexit', hentries⟩ := hperm argv' files.reverse (List.reverse_perm files) hargv'
  exact ⟨hexit, hexit', hentries, by decide +kernel⟩

/-- An artifact can take the place of a node file that is still to be read, and a directory made
for an artifact can open the way to a node file: then the order matters. -/
theorem extract_order_matters :
    (let fs : FileSystem := { entries :=
      [([text "x"], .file (encodeFile "[\x7blabel: COMMENT, content: /** hi */\x7d]")),
       ([text "x.doctag.json"], .file (encodeFile "[]"))] }
     let artifact := [text "x.doctag.json.doctag.json"]
     let run₁ := run fs [text "extract", text "x", text "x.doctag.json", text "--output-dir=."] .utf8
     let run₂ := run fs [text "extract", text "x.doctag.json", text "x", text "--output-dir=."] .utf8
     sharedArtifacts [text "x", text "x.doctag.json"] = [] ∧ run₁.2 = .exit 0 ∧ run₂.2 = .exit 0 ∧
       run₁.1.fs.contents? [text "x.doctag.json"] ≠ fs.contents? [text "x.doctag.json"] ∧
       run₁.1.fs.contents? artifact ≠ run₂.1.fs.contents? artifact) ∧
    (let fs : FileSystem := { entries :=
      [([text "a"], .file (encodeFile "[]")), ([text "b"], .file (encodeFile "[]"))] }
     let artifact := [text "out", text "b.doctag.json"]
     let run₁ := run fs [text "extract", text "a", text "out/../b", text "--output-dir=out"] .utf8
     let run₂ := run fs [text "extract", text "out/../b", text "a", text "--output-dir=out"] .utf8
     sharedArtifacts [text "a", text "out/../b"] = [] ∧ run₁.2 = .exit 0 ∧ run₂.2 = .exit 1 ∧
       run₁.1.fs.contents? artifact ≠ none ∧ run₂.1.fs.contents? artifact = none) := by
  decide +kernel

end Command
end CommandLine
end CommentTags
