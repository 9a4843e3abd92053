import CommentTags.Text.Basic

/-!
Paths: names between slashes. Empty names and single dots are dropped, two dots stay.
-/

namespace CommentTags

/-- A path has no slash, one slash or two slashes in front. -/
structure Path where
  slashes : Nat := 0
  parts : List Text := []
  deriving DecidableEq, Repr

namespace Path

def upward : Text := text ".."

/-- Two leading slashes are kept; more count as one. -/
def ofText (t : Text) : Path :=
  let n := (t.takeWhile (· = .char '/')).length
  { slashes := if n ≤ 2 then n else 1
    parts := (Text.splitOn (.char '/') t).filter fun p => p ≠ [] ∧ p ≠ text "." }

/-- The path without names is a dot or its slashes. -/
def toText (p : Path) : Text :=
  if p.slashes = 0 ∧ p.parts = [] then text "."
  else List.replicate p.slashes (.char '/') ++ Text.joinWith [.char '/'] p.parts

def isAbsolute (p : Path) : Bool := p.slashes != 0

/-- The last name, if there is one. -/
def name (p : Path) : Text := p.parts.getLast?.getD []

def parent (p : Path) : Path := { p with parts := p.parts.dropLast }

def child (p : Path) (name : Text) : Path := { p with parts := p.parts ++ [name] }

/-- Two dots take back the name before them. -/
def normalize (parts : List Text) : List Text :=
  parts.foldl (fun done p => if p = upward then done.dropLast else done ++ [p]) []

/-- The same place as a path with one slash in front and without two dots. -/
def resolve (cwd p : Path) : Path :=
  { slashes := 1, parts := normalize (if p.isAbsolute then p.parts else cwd.parts ++ p.parts) }

end Path
end CommentTags
