import CommentTags.Text.Basic
import CommentTags.Yaml.Error

/-!
The lexemes of a YAML text. Indentation has already been turned into the starts and ends of blocks.
-/

namespace CommentTags
namespace Yaml

inductive Directive where
  | version (major minor : Nat)
  /-- A tag handle and what it stands for. -/
  | handle (name uri : String)
  | unknown
  deriving DecidableEq, Repr

inductive Lexeme where
  | directive (d : Directive)
  | documentStart
  | documentEnd
  | streamEnd
  | blockSequence
  | blockMapping
  | blockEnd
  | openSequence
  | closeSequence
  | openMapping
  | closeMapping
  | blockEntry
  | flowEntry
  | key
  | value
  | alias (name : String)
  | anchor (name : String)
  | tag (handle : Option String) (suffix : String)
  /-- A scalar, and whether it was written without quotes on the line. -/
  | scalar (t : Text) (plain : Bool)
  /-- From here on the text cannot be read. -/
  | unreadable (e : Error)
  deriving DecidableEq, Repr

end Yaml
end CommentTags
