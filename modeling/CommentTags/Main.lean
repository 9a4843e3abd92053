import CommentTags.CommandLine.Footprint

/-!
The program: it takes a picture of the files that it may look at, runs on the picture, and then
writes what has changed.
-/

namespace CommentTags
namespace CommandLine

def placeName (p : Place) : String :=
  (Path.toText { slashes := 1, parts := p }).toString

/-- What is at a place on the disk; a place that cannot be read counts as missing. -/
def probe (p : Place) : IO (Option FileEntry) := do
  try
    return some (.file (← IO.FS.readBinFile (placeName p)).toList)
  catch e =>
    match e with
    | .inappropriateType _ 21 _ => return some .directory
    | _ => return none

def snapshot (cwd : Place) (places : List Place) : IO FileSystem :=
  places.foldlM (fun fs p => do
    match ← probe p with
    | some e => return fs.put p e
    | none => return fs) { cwd := cwd }

/-- Writes the entries that are new or changed, in the order in which they were made. -/
def commit (before after : FileSystem) : IO Unit :=
  after.entries.forM fun (p, e) => do
    if before.entry? p ≠ some e then
      match e with
      | .directory => IO.FS.createDirAll (placeName p)
      | .file bytes => IO.FS.writeBinFile (placeName p) ⟨bytes.toArray⟩

/-- A text as the output for errors shows it, with a half as an escape. -/
def shownError (t : Text) : String :=
  Text.toString <| t.flatMap fun
    | .half k => Text.hexEscape (CodePoint.half k).toNat
    | c => [c]

end CommandLine
end CommentTags

open CommentTags CommandLine in
def main (args : List String) : IO UInt32 := do
  let argv := args.map text
  let cwd := (Path.ofText (text (← IO.currentDir).toString)).parts
  let before ← snapshot cwd (footprint cwd argv)
  let (s, ending) := run before argv .utf8
  commit before s.fs
  IO.print s.out.toString
  IO.eprint (shownError s.err)
  match ending with
  | .exit code => return code.toUInt32
  | .fault _ => return 1
