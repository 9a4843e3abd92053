import CommentTags.NodeFile.Extraction
import CommentTags.Proofs.Failure
import CommentTags.Proofs.FileGrowth

/-!
One extraction: what it can do to the files, when it ends in a fault, and that the artifact it wrote
is there.
-/

namespace CommentTags

/-- The fault that an extraction met. -/
def FileExtraction.fault? (e : FileExtraction) : Option Fault :=
  match e.result with
  | .error (.fault f) => some f
  | _ => none

theorem FileExtraction.fault?_eq_some {e : FileExtraction} {fault : Fault} :
    e.fault? = some fault ↔ e.result = .error (.fault fault) := by
  unfold FileExtraction.fault?
  split
  · rename_i h
    simp [h]
  · rename_i hno
    constructor
    · intro h
      cases h
    · intro h
      exact absurd h (hno fault)

/-- Is there anything to complain of? -/
def FileExtraction.failed (e : FileExtraction) : Bool :=
  match e.result with
  | .ok o => !o.diagnostics.isEmpty
  | .error _ => true

theorem Run.tree_of_no_diagnostics {r : Run} {nodes : List SourceNode}
    (h : (r.parse nodes).diagnostics = []) : ∃ tree, (r.parse nodes).tree = some tree := by
  unfold Run.parse at h ⊢
  cases hfed : Pairing.feedAll r {} nodes with
  | mk p stop =>
    cases stop with
    | none => exact ⟨p.tree, rfl⟩
    | some d => simp [hfed, Pairing.outcome] at h

/-- The outcome of a run over the nodes of a file. -/
def NodeFile.outcome (settings : Settings) (failFast : Bool) (file : NodeFile) : Outcome :=
  Run.parse { sourceFile := file.source, settings := settings, failFast := failFast } file.nodes

/-- The bytes of the artifact of an outcome. -/
def Outcome.artifact (o : Outcome) (tree : TokenTree) : List UInt8 :=
  encodeFile (Artifact.serialize tree (some o.sourceFile))

/-- The result of an extraction that went on to write. -/
def writeResult (target : Path) (o : Outcome) :
    Option IoFailure → Except (Failure BuildError) Outcome
  | none => .ok o
  | some f => .error (if f.cause.isFault then .fault (.io f) else .refused (.cannotWrite target f))

section WriteResult

variable {target : Path} {o : Outcome} {failure : Option IoFailure}

theorem writeResult_eq_ok {o' : Outcome} (h : writeResult target o failure = .ok o') :
    failure = none ∧ o = o' := by
  cases failure with
  | none =>
    cases h
    exact ⟨rfl, rfl⟩
  | some f => cases h

theorem writeResult_eq_fault {fault : Fault}
    (h : writeResult target o failure = .error (.fault fault)) :
    ∃ f, failure = some f ∧ f.cause.isFault ∧ fault = .io f := by
  cases failure with
  | none => cases h
  | some f =>
    rw [writeResult] at h
    split at h
    · rename_i hf
      cases h
      exact ⟨f, rfl, hf, rfl⟩
    · cases h

theorem writeResult_ne_nodeFile (refusal : NodeFileError) :
    writeResult target o failure ≠ .error (.refused (.nodeFile refusal)) := by
  intro h
  cases failure with
  | none => cases h
  | some f =>
    rw [writeResult] at h
    split at h <;> cases h

end WriteResult

/-- What an extraction can do. -/
inductive Extracts (fs : FileSystem) (settings : Settings) (failFast : Bool)
    (outputDir : Option Path) (p : Path) : FileExtraction → Prop where
  | unloaded {failure : Failure NodeFileError} (hfile : NodeFile.ofFile fs p = .error failure) :
      Extracts fs settings failFast outputDir p
        { fs := fs, result := .error (failure.map .nodeFile) }
  /-- Nothing is to be written. -/
  | kept {file : NodeFile} (log : List LogLine) (hfile : NodeFile.ofFile fs p = .ok file)
      (h : outputDir = none ∨ (file.outcome settings failFast).tree = none) :
      Extracts fs settings failFast outputDir p
        { fs := fs, log := log, result := .ok (file.outcome settings failFast) }
  | tried {file : NodeFile} {dir : Path} {tree : TokenTree} {attempt : FileSystem.Attempt}
      (log : List LogLine) (hfile : NodeFile.ofFile fs p = .ok file) (hdir : outputDir = some dir)
      (htree : (file.outcome settings failFast).tree = some tree)
      (h : fs.writeDeep (Artifact.pathFor p dir) ((file.outcome settings failFast).artifact tree) =
        attempt) :
      Extracts fs settings failFast outputDir p
        { fs := attempt.fs
          log := log
          result := writeResult (Artifact.pathFor p dir) (file.outcome settings failFast)
            attempt.failure }

theorem extracts_extractFile (fs : FileSystem) (settings : Settings) (failFast : Bool)
    (outputDir : Option Path) (p : Path) :
    Extracts fs settings failFast outputDir p (extractFile fs settings failFast outputDir p) := by
  unfold extractFile
  cases hfile : NodeFile.ofFile fs p with
  | error failure => exact .unloaded hfile
  | ok file =>
    dsimp only
    rw [← NodeFile.outcome]
    cases outputDir with
    | none => exact .kept _ hfile (.inl rfl)
    | some dir =>
      cases htree : (file.outcome settings failFast).tree with
      | none => exact .kept _ hfile (.inr htree)
      | some tree =>
        dsimp only [writeOutcome]
        split
        · rename_i h
          exact .tried _ hfile rfl htree h
        · rename_i h
          exact .tried _ hfile rfl htree h

/-- What makes an extraction end in a fault: the system does not take the path of the node file,
the file is not UTF-8, its document has a scalar without a value or goes too deep, or the system does
not take the path of the artifact or would have to make too many directories for it. -/
inductive ExtractionFault (fs : FileSystem) (outputDir : Option Path) (p : Path) :
    Fault → Prop where
  | path {e : IoError} (h : FileSystem.unusable? p = some e) :
      ExtractionFault fs outputDir p (.io ⟨e, p⟩)
  | encoding {bytes : List UInt8} (hread : fs.read p = .ok bytes) (h : decodeFile bytes = none) :
      ExtractionFault fs outputDir p .undecodable
  | scalar {bytes : List UInt8} {t : Text} {b : Yaml.BadScalar} (hread : fs.read p = .ok bytes)
      (ht : decodeFile bytes = some t) (h : Yaml.load t = .error (.badScalar b)) :
      ExtractionFault fs outputDir p (.badScalar b)
  | depth {bytes : List UInt8} {t : Text} (hread : fs.read p = .ok bytes)
      (ht : decodeFile bytes = some t) (h : Yaml.load t = .error .tooDeep) :
      ExtractionFault fs outputDir p .tooDeep
  | artifact {dir : Path} {f : IoFailure} (hdir : outputDir = some dir)
      (h : (fs.writeDeep (Artifact.pathFor p dir) []).failure = some f) (hf : f.cause.isFault) :
      ExtractionFault fs outputDir p (.io f)

/-! Faults. -/

namespace NodeFile

theorem faultless_requiredText (label : Text) (i : Nat) (fields : List (Yaml.Key × Yaml.Value))
    (key : Text) : Faultless (requiredText label i fields key) := by
  unfold requiredText
  split
  · exact faultless_refused _
  · exact faultless_ok _
  · exact faultless_refused _

theorem faultless_readNode (label : Text) (i : Nat) (v : Yaml.Value) :
    Faultless (readNode label i v) := by
  unfold readNode
  split
  · refine (faultless_requiredText _ _ _ _).bind fun kind => ?_
    refine (faultless_requiredText _ _ _ _).bind fun content => ?_
    exact faultless_ok _
  · exact faultless_refused _

theorem faultless_readNodes (label : Text) (i : Nat) (vs : List Yaml.Value) :
    Faultless (readNodes label i vs) := by
  induction vs generalizing i with
  | nil => exact faultless_ok _
  | cons v vs ih =>
    rw [readNodes]
    refine (faultless_readNode _ _ _).bind fun n => ?_
    refine (ih _).bind fun ns => ?_
    exact faultless_ok _

theorem faultless_ofList (label source : Text) (v : Yaml.Value) :
    Faultless (ofList label source v) := by
  unfold ofList
  split
  · exact (faultless_readNodes _ _ _).bind fun ns => faultless_ok _
  · exact faultless_refused _

/-- A document that loads is refused or taken. -/
theorem faultless_ofValue (label : Text) (v : Yaml.Value) : Faultless (ofValue label v) := by
  unfold ofValue
  split
  · exact faultless_ok _
  · refine Faultless.bind ?_ fun source => faultless_ofList _ _ _
    unfold readSource
    split
    · exact faultless_ok _
    · exact faultless_ok _
    · exact faultless_refused _
  · exact faultless_ofList _ _ _

theorem fault_of_ofFile {fs : FileSystem} {p : Path} {fault : Fault}
    (h : ofFile fs p = .error (.fault fault)) (outputDir : Option Path) :
    ExtractionFault fs outputDir p fault := by
  unfold ofFile at h
  cases hread : fs.read p with
  | error f =>
    simp only [hread, Failure.ofIo, Except.error.injEq] at h
    split at h
    · cases h
    · split at h
      · rename_i hf
        obtain ⟨hp, rfl⟩ := FileSystem.read_fault hread hf
        cases h
        exact .path hp
      · cases h
  | ok bytes =>
    simp only [hread] at h
    cases ht : decodeFile bytes with
    | none =>
      simp only [ht, Except.error.injEq, Failure.fault.injEq] at h
      subst h
      exact .encoding hread ht
    | some t =>
      simp only [ht, ofDocument] at h
      cases hload : Yaml.load t with
      | ok v =>
        rw [hload] at h
        exact absurd h (faultless_ofValue _ _ _)
      | error e =>
        simp only [hload, Except.error.injEq] at h
        cases e with
        | malformed => cases h
        | badScalar b =>
          cases h
          exact .scalar hread ht hload
        | tooDeep =>
          cases h
          exact .depth hread ht hload

end NodeFile

theorem Artifact.placeOf_pathFor (fs : FileSystem) (p dir : Path) :
    fs.placeOf (Artifact.pathFor p dir) = fs.placeOf dir ++ [p.name ++ Artifact.suffix] := by
  refine FileSystem.placeOf_child fs dir fun h => ?_
  have hlength := congrArg List.length h
  have hup : Path.upward.length = 2 := by decide
  have hsuffix : Artifact.suffix.length = 12 := by decide
  rw [List.length_append] at hlength
  omega

/-! What an extraction comes to. -/

namespace Extracts

variable {fs : FileSystem} {settings : Settings} {failFast : Bool} {outputDir : Option Path}
  {dir p : Path} {e : FileExtraction}

/-- An extraction meets a fault only for one of the reasons. -/
theorem fault (hdone : Extracts fs settings failFast outputDir p e) {fault : Fault}
    (h : e.fault? = some fault) : ExtractionFault fs outputDir p fault := by
  rw [FileExtraction.fault?_eq_some] at h
  cases hdone with
  | @unloaded failure hfile =>
    cases failure with
    | refused e => cases h
    | fault f =>
      cases h
      exact NodeFile.fault_of_ofFile hfile outputDir
  | kept => cases h
  | tried log hfile hdir htree hwrite =>
    obtain ⟨f, hfailure, hf, rfl⟩ := writeResult_eq_fault h
    refine .artifact hdir ?_ hf
    rw [FileSystem.failure_writeDeep, hwrite, hfailure]

theorem grown (hdone : Extracts fs settings failFast outputDir p e) {targets : Place → Prop}
    (htarget : ∀ dir, outputDir = some dir → targets (fs.placeOf (Artifact.pathFor p dir))) :
    FileSystem.Grown targets fs e.fs := by
  cases hdone with
  | unloaded => exact .refl _ _
  | kept => exact .refl _ _
  | tried log hfile hdir htree hwrite =>
    subst hwrite
    exact FileSystem.grown_writeDeep (htarget _ hdir) _

/-- A node file that is refused changes nothing. -/
theorem fs_of_refused (hdone : Extracts fs settings failFast outputDir p e)
    {refusal : NodeFileError} (h : e.result = .error (.refused (.nodeFile refusal))) :
    e.fs = fs := by
  cases hdone with
  | unloaded => rfl
  | kept => rfl
  | tried => exact absurd h (writeResult_ne_nodeFile refusal)

/-- Where there is nothing to complain of, there is a tree. -/
theorem tree_of_not_failed (hdone : Extracts fs settings failFast outputDir p e)
    (h : e.failed = false) : ∃ o tree, e.result = .ok o ∧ o.tree = some tree := by
  cases hresult : e.result with
  | error failure => simp [FileExtraction.failed, hresult] at h
  | ok o =>
    have hnone : o.diagnostics = [] := by simpa [FileExtraction.failed, hresult] using h
    have htree : ∃ tree, o.tree = some tree := by
      cases hdone with
      | unloaded => cases hresult
      | kept =>
        cases hresult
        exact Run.tree_of_no_diagnostics hnone
      | tried log hfile hdir htree =>
        obtain ⟨-, rfl⟩ := writeResult_eq_ok hresult
        exact ⟨_, htree⟩
    obtain ⟨tree, htree⟩ := htree
    exact ⟨o, tree, rfl, htree⟩

/-- The artifact of a tree was written. -/
theorem read (hdone : Extracts fs settings failFast (some dir) p e) {o : Outcome}
    {tree : TokenTree} (h : e.result = .ok o) (htree : o.tree = some tree) :
    e.fs.read (Artifact.pathFor p dir) = .ok (o.artifact tree) := by
  cases hdone with
  | unloaded => cases h
  | kept log hfile hnone =>
    cases h
    simp [htree] at hnone
  | tried log hfile hdir htree' hwrite =>
    obtain ⟨hfailure, rfl⟩ := writeResult_eq_ok h
    cases hdir
    cases htree.symm.trans htree'
    subst hwrite
    exact FileSystem.read_of_writeDeep hfailure

end Extracts
end CommentTags
