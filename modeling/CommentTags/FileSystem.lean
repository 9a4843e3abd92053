import CommentTags.Path
import CommentTags.Text.Quoted

/-!
A file system without links: directories and files at absolute places, and a current directory.
-/

namespace CommentTags

inductive IoError where
  | notFound
  | alreadyExists
  | notDirectory
  | isDirectory
  | nameTooLong
  /-- A name holds the character U+0000, which the system does not take. -/
  | nullName
  /-- A name or a line to be printed holds a code point that has no bytes there, as a half. -/
  | unencodable
  /-- More directories are to be made at once than can be kept track of. -/
  | tooDeep
  deriving DecidableEq, Repr

/-- An operation on a path that failed. -/
structure IoFailure where
  cause : IoError
  path : Path
  deriving DecidableEq, Repr

namespace IoError

def number : IoError → Nat
  | notFound => 2
  | alreadyExists => 17
  | notDirectory => 20
  | isDirectory => 21
  | nameTooLong => 36
  | nullName | unencodable | tooDeep => 0

def wording : IoError → Text
  | notFound => text "No such file or directory"
  | alreadyExists => text "File exists"
  | notDirectory => text "Not a directory"
  | isDirectory => text "Is a directory"
  | nameTooLong => text "File name too long"
  | nullName | unencodable | tooDeep => []

/-- Does this arise before the system is asked? -/
def isFault : IoError → Bool
  | nullName | unencodable | tooDeep => true
  | _ => false

end IoError

def IoFailure.message (f : IoFailure) : Text :=
  text "[Errno " ++ Text.ofNat f.cause.number ++ text "] " ++ f.cause.wording ++ text ": " ++
    f.path.toText.quoted

inductive FileEntry where
  | directory
  | file (bytes : List UInt8)
  deriving DecidableEq, Repr

/-- The names from the root down to a place. -/
abbrev Place := List Text

structure FileSystem where
  cwd : Place := []
  entries : List (Place × FileEntry) := []
  deriving DecidableEq, Repr

namespace FileSystem

/-- How many bytes a code point takes in a name, if it can stand in one: the halves U+DC80 to U+DCFF
stand for single bytes. -/
def byteSize? : CodePoint → Option Nat
  | .char c => some c.utf8Size
  | .half k => if 0x480 ≤ k.val ∧ k.val < 0x500 then some 1 else none

/-- The number of bytes of a name. -/
def byteSize (t : Text) : Nat := t.foldl (fun n c => n + (byteSize? c).getD 0) 0

/-- Why a path cannot be handed to the system, if it cannot. -/
def unusable? (p : Path) : Option IoError :=
  if p.parts.any (·.any fun c => (byteSize? c).isNone) then some .unencodable
  else if p.parts.any (·.contains (.char '\x00')) then some .nullName
  else none

/-- What is at a place. The root and the directories down to the current one are always there. -/
def entry? (fs : FileSystem) (p : Place) : Option FileEntry :=
  if p.isPrefixOf fs.cwd then some .directory else fs.entries.lookup p

/-- Puts an entry at a place; the order of the entries is that of their first appearance. -/
def put (fs : FileSystem) (p : Place) (e : FileEntry) : FileSystem :=
  if (fs.entries.lookup p).isSome then
    { fs with entries := fs.entries.map fun q => if q.1 = p then (p, e) else q }
  else { fs with entries := fs.entries ++ [(p, e)] }

/-- Goes down from a place name by name; every place that is left must be a directory. -/
def walk (fs : FileSystem) (here : Place) : List Text → Except IoError Place
  | [] => .ok here
  | name :: names =>
    match fs.entry? here with
    | none => .error .notFound
    | some (.file _) => .error .notDirectory
    | some .directory =>
      if name = Path.upward then fs.walk here.dropLast names
      else if 255 < byteSize name then .error .nameTooLong
      else fs.walk (here ++ [name]) names

/-- The place that a path names; its last name need not be there. A path has at most 4095 bytes. -/
def locate (fs : FileSystem) (p : Path) : Except IoError Place :=
  match unusable? p with
  | some e => .error e
  | none =>
    if 4095 < byteSize p.toText then .error .nameTooLong
    else fs.walk (if p.isAbsolute then [] else fs.cwd) p.parts

/-- What a path names. -/
def find? (fs : FileSystem) (p : Path) : Option FileEntry :=
  match fs.locate p with
  | .ok place => fs.entry? place
  | .error _ => none

/-- Is there anything at a path? Only a name that is too long keeps the question from an answer. -/
def pathExists (fs : FileSystem) (p : Path) : Except IoFailure Bool :=
  match fs.locate p with
  | .ok place => .ok (fs.entry? place).isSome
  | .error .nameTooLong => .error ⟨.nameTooLong, p⟩
  | .error _ => .ok false

def isDirectory (fs : FileSystem) (p : Path) : Bool := fs.find? p = some .directory

def read (fs : FileSystem) (p : Path) : Except IoFailure (List UInt8) :=
  match fs.locate p with
  | .error e => .error ⟨e, p⟩
  | .ok place =>
    match fs.entry? place with
    | none => .error ⟨.notFound, p⟩
    | some .directory => .error ⟨.isDirectory, p⟩
    | some (.file bytes) => .ok bytes

def write (fs : FileSystem) (p : Path) (bytes : List UInt8) : Except IoFailure FileSystem :=
  match fs.locate p with
  | .error e => .error ⟨e, p⟩
  | .ok place =>
    match fs.entry? place with
    | some .directory => .error ⟨.isDirectory, p⟩
    | _ => .ok (fs.put place (.file bytes))

def makeDirectory (fs : FileSystem) (p : Path) : Except IoFailure FileSystem :=
  match fs.locate p with
  | .error e => .error ⟨e, p⟩
  | .ok place =>
    match fs.entry? place with
    | some _ => .error ⟨.alreadyExists, p⟩
    | none => .ok (fs.put place .directory)

/-- Makes a directory unless it is there. -/
def ensureDirectory (fs : FileSystem) (p : Path) : Except IoFailure FileSystem :=
  match fs.makeDirectory p with
  | .ok fs => .ok fs
  | .error f =>
    if f.cause ≠ .notFound ∧ !f.cause.isFault ∧ fs.isDirectory p then .ok fs else .error f

/-- A file system as an operation of several steps leaves it: what was done before a failure stays
done. -/
structure Attempt where
  fs : FileSystem
  failure : Option IoFailure := none
  deriving DecidableEq, Repr

namespace Attempt

/-- One step as an attempt. -/
def ofStep (fs : FileSystem) : Except IoFailure FileSystem → Attempt
  | .ok fs => { fs := fs }
  | .error f => { fs := fs, failure := some f }

/-- Takes a further step unless there was a failure. -/
def andThen (a : Attempt) (step : FileSystem → Except IoFailure FileSystem) : Attempt :=
  match a.failure with
  | none => ofStep a.fs (step a.fs)
  | some _ => a

end Attempt

/-- How many directories may be made above one another. Each is made by a call within the call for
the one below it, so the number depends on the limit on nested calls, here 1000, and on how many are
open where the first directory is asked for, here those of a run over node files. -/
def maxLevels : Nat := 987

/-- Makes a directory and those above it, as far up as they are missing. -/
def ensureDirectories (fs : FileSystem) : (levels : Nat) → Path → Attempt
  | 0, p => { fs := fs, failure := some ⟨.tooDeep, p⟩ }
  | n + 1, p =>
    match fs.ensureDirectory p with
    | .ok fs => { fs := fs }
    | .error f =>
      if f.cause = .notFound ∧ p.parts ≠ [] then
        (fs.ensureDirectories n p.parent).andThen (·.ensureDirectory p)
      else { fs := fs, failure := some f }

/-- Writes a file after making the directories above it. -/
def writeDeep (fs : FileSystem) (p : Path) (bytes : List UInt8) : Attempt :=
  (fs.ensureDirectories maxLevels p.parent).andThen (·.write p bytes)

end FileSystem
end CommentTags
