import CommentTags.Artifact
import CommentTags.Pairing.Journal
import CommentTags.NodeFile

/-!
Extraction of a node file: load it, run over its nodes, and write the artifact if a directory for it
is given and there is a tree.
-/

namespace CommentTags

inductive BuildError where
  | nodeFile (e : NodeFileError)
  | cannotWrite (target : Path) (f : IoFailure)
  deriving DecidableEq, Repr

def BuildError.message : BuildError → Text
  | nodeFile e => e.message
  | cannotWrite target f =>
    text "Cannot write artifact '" ++ target.toText ++ text "': " ++ f.message

/-- The file system and the log after an extraction, and its outcome. -/
structure FileExtraction where
  fs : FileSystem
  log : List LogLine := []
  result : Except (Failure BuildError) Outcome

def wrote (target : Path) : LogLine := ⟨.info, .build, text "Wrote " ++ target.toText⟩

/-- Writes the artifact of a finished run. -/
def writeOutcome (fs : FileSystem) (log : List LogLine) (nodeFile directory : Path) (o : Outcome)
    (tree : TokenTree) : FileExtraction :=
  let target := Artifact.pathFor nodeFile directory
  match Artifact.write fs target tree (some o.sourceFile) with
  | ⟨fs, none⟩ => { fs := fs, log := log ++ [wrote target], result := .ok o }
  | ⟨fs, some f⟩ =>
    let failure : Failure BuildError :=
      if f.cause.isFault then .fault (.io f) else .refused (.cannotWrite target f)
    { fs := fs, log := log, result := .error failure }

def extractFile (fs : FileSystem) (settings : Settings) (failFast : Bool) (directory : Option Path)
    (nodeFile : Path) : FileExtraction :=
  match NodeFile.ofFile fs nodeFile with
  | .error e => { fs := fs, result := .error (e.map .nodeFile) }
  | .ok file =>
    let r : Run := { sourceFile := file.source, settings := settings, failFast := failFast }
    let o := r.parse file.nodes
    let log := r.log file.nodes
    match directory, o.tree with
    | some directory, some tree => writeOutcome fs log nodeFile directory o tree
    | _, _ => { fs := fs, log := log, result := .ok o }

end CommentTags
