import CommentTags.CommandLine.Command
import CommentTags.NodeFile.Extraction
import CommentTags.Listing
import CommentTags.Settings.Document

/-!
Running the program: from a file system and arguments to what is printed, how it ends, and the file
system afterwards.
-/

namespace CommentTags
namespace CommandLine

inductive Ending where
  | exit (code : Nat)
  /-- A fault that the program does not handle. -/
  | fault (f : Fault)
  deriving DecidableEq, Repr

/-- Where the program prints, by the code points that can be printed there: ASCII at least. -/
structure Output where
  takes : CodePoint → Bool
  takes_ascii : ∀ c : Char, c.toNat < 0x80 → takes (.char c) = true

namespace Output

/-- Bytes in UTF-8, which has none for a half. -/
def utf8 : Output where
  takes
    | .char _ => true
    | .half _ => false
  takes_ascii _ _ := rfl

/-- A text that is kept as it is. -/
def kept : Output where
  takes _ := true
  takes_ascii _ _ := rfl

/-- The output, by the path that the system has for it. -/
def path : Path := { slashes := 1, parts := [text "dev", text "stdout"] }

/-- The output does not take what is to be printed. -/
def fault : Fault := .io ⟨.unencodable, path⟩

end Output

/-- What the program has printed, and the files as it leaves them. Errors are printed apart, where
nothing is refused: what cannot be printed there is written as an escape. -/
structure Session where
  fs : FileSystem
  out : Text := []
  err : Text := []
  deriving DecidableEq, Repr

namespace Session

/-- Prints a line; a line that the output does not take is a fault, and nothing of it is printed. -/
def print (s : Session) (output : Output) (line : Text) : Session × Option Fault :=
  if line.all output.takes then ({ s with out := s.out ++ line ++ text "\n" }, none)
  else (s, some Output.fault)

/-- Prints the line that is the last thing to do. -/
def printLast (s : Session) (output : Output) (line : Text) : Session × Ending :=
  match s.print output line with
  | (s, none) => (s, .exit 0)
  | (s, some f) => (s, .fault f)

def printError (s : Session) (message : Text) : Session :=
  { s with err := s.err ++ text "Error: " ++ message ++ text "\n" }

def addLog (s : Session) (verbose : Bool) (lines : List LogLine) : Session :=
  { s with err := s.err ++ lines.flatMap (LogLine.render verbose) }

end Session

def cwdPath (fs : FileSystem) : Path := { slashes := 1, parts := fs.cwd }

/-- The settings of the file that is named, else of the file in the current directory if there is
one, else the defaults. -/
def loadSettings (fs : FileSystem) (named : Option Path) : Settings.Read Settings :=
  match named with
  | some p => Settings.ofFile fs p
  | none =>
    let localFile := (cwdPath fs).child Settings.fileName
    match fs.pathExists localFile with
    | .error f => .error (.fault (.io f))
    | .ok true => Settings.ofFile fs localFile
    | .ok false => .ok {}

/-- Writes the default settings into a directory that has none. -/
def initDirectory (output : Output) (s : Session) (directory : Path) : Session × Ending :=
  let file := directory.child Settings.fileName
  match s.fs.pathExists directory, s.fs.pathExists file with
  | .error f, _ => (s, .fault (.io f))
  | .ok false, _ =>
    (s.printError (text "directory '" ++ directory.toText ++ text "' does not exist."), .exit 1)
  | .ok true, .error f => (s, .fault (.io f))
  | .ok true, .ok true =>
    (s.printError (text "configuration already exists at '" ++ file.toText ++ text "'."), .exit 1)
  | .ok true, .ok false =>
    match s.fs.write file (encodeFile Settings.defaultDocument.toString) with
    | .error f => (s, .fault (.io f))
    | .ok fs =>
      { s with fs := fs }.printLast output
        (text "Wrote default configuration to '" ++ file.toText ++ text "'.")

def runInit (output : Output) (s : Session) (directory : Text) : Session × Ending :=
  let p := Path.ofText directory
  match FileSystem.unusable? p with
  | some e => (s, .fault (.io ⟨e, p⟩))
  | none => initDirectory output s (Path.resolve (cwdPath s.fs) p)

/-- The node files whose artifact has the name of an earlier one. -/
def sharedArtifacts (nodeFiles : List Text) : List Text :=
  let artifact (t : Text) : Text := (Path.ofText t).name
  (nodeFiles.zipIdx.filter fun (f, i) => ((nodeFiles.take i).map artifact).contains (artifact f)).map
    (·.1)

/-- The line on the tree of a node file. -/
def summaryLine (source : Text) (size : Nat) : Text :=
  source ++ text ": " ++ Text.ofNat size ++ text " comment(s)"

/-- Prints the outcome of a node file: its diagnostics, and then the line on its tree. -/
def reportOutcome (output : Output) (s : Session) (o : Outcome) : Session × Option Fault :=
  let s := o.diagnostics.foldl (fun s d => s.printError d.message) s
  match o.tree with
  | some t => s.print output (summaryLine o.sourceFile t.size)
  | none => (s, none)

/-- Extracts node files one after the other. A file that is refused is reported and passed over. -/
def extractAll (output : Output) (settings : Settings) (verbose failFast : Bool)
    (outputDir : Option Path) (s : Session) (failed : Bool) : List Text → Session × Ending
  | [] => (s, .exit (if failed then 1 else 0))
  | f :: fs =>
    let e := extractFile s.fs settings failFast outputDir (.ofText f)
    let s := { s with fs := e.fs }.addLog verbose e.log
    match e.result with
    | .error (.fault fault) => (s, .fault fault)
    | .error (.refused error) =>
      extractAll output settings verbose failFast outputDir (s.printError error.message) true fs
    | .ok o =>
      match reportOutcome output s o with
      | (s, some fault) => (s, .fault fault)
      | (s, none) =>
        extractAll output settings verbose failFast outputDir s
          (failed || !o.diagnostics.isEmpty) fs

def runExtract (output : Output) (s : Session) (common : CommonOptions) (nodeFiles : List Text)
    (outputDir : Option Path) (collect : Bool) : Session × Ending :=
  match loadSettings s.fs common.config with
  | .error (.fault f) => (s, .fault f)
  | .error (.refused e) => (s.printError e.message, .exit 1)
  | .ok settings =>
    let shared := if outputDir.isSome then sharedArtifacts nodeFiles else []
    if shared.isEmpty then
      extractAll output settings common.verbose (!collect) outputDir s false nodeFiles
    else
      (s.printError (text "node files would overwrite each other's artifacts: " ++
        Text.joinWith (text ", ") shared), .exit 1)

def runShow (output : Output) (s : Session) (common : CommonOptions) (nodeFile : Text) :
    Session × Ending :=
  match loadSettings s.fs common.config with
  | .error (.fault f) => (s, .fault f)
  | .error (.refused e) => (s.printError e.message, .exit 1)
  | .ok settings =>
    let e := extractFile s.fs settings true none (.ofText nodeFile)
    let s := s.addLog common.verbose e.log
    match e.result with
    | .error (.fault f) => (s, .fault f)
    | .error (.refused error) => (s.printError error.message, .exit 1)
    | .ok o =>
      match o.tree with
      | none => (o.diagnostics.foldl (fun s d => s.printError d.message) s, .exit 1)
      | some t => s.printLast output t.listing

def runCommand (output : Output) (s : Session) : Command → Session × Ending
  | .init directory => runInit output s directory
  | .extract common nodeFiles outputDir collect =>
    runExtract output s common nodeFiles outputDir collect
  | .list common nodeFile => runShow output s common nodeFile

/-- The program, without its own name among the arguments. What it prints is kept, unless there is
another output for it. -/
def run (fs : FileSystem) (argv : List Text) (output : Output := .kept) : Session × Ending :=
  let s : Session := { fs := fs }
  match Request.ofArgv argv with
  | .help page => ({ s with out := page }, .exit 0)
  | .misuse line => ({ s with err := line ++ text "\n" }, .exit 2)
  | .command c => runCommand output s c

end CommandLine
end CommentTags
