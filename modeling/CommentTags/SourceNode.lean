import CommentTags.Text.Blank

/-!
Labelled nodes: the pieces of a source in order, each with its kind and its raw text.
-/

namespace CommentTags

inductive NodeKind where
  | comment
  | dataType
  | proto
  | other
  deriving DecidableEq, Repr

namespace NodeKind

def name : NodeKind → Text
  | comment => text "COMMENT"
  | dataType => text "DATA_TYPE"
  | proto => text "PROTO"
  | other => text "OTHER"

/-- Upper case, with an underscore for a hyphen. ASCII letters are enough: no other character has a
letter of a label as its upper case. -/
def canonical : CodePoint → CodePoint
  | .char '-' => .char '_'
  | .char c => .char c.toUpper
  | .half k => .half k

/-- The kind that a label names; blanks around it, case and the choice of hyphen or underscore do
not matter. -/
def ofLabel (label : Text) : NodeKind :=
  let l := label.trim.map canonical
  if l = text "COMMENT" then comment
  else if l = text "DATA_TYPE" ∨ l = text "DATATYPE" then dataType
  else if l = text "PROTO" ∨ l = text "PROTOTYPE" then proto
  else other

end NodeKind

structure SourceNode where
  kind : NodeKind
  content : Text
  deriving DecidableEq, Repr

end CommentTags
