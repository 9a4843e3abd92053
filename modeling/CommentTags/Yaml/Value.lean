import CommentTags.Yaml.Graph.Build
import CommentTags.Yaml.Graph.Settle
import CommentTags.Yaml.Lexeme.Layout

/-!
The value of a YAML document, as deep as its readers look.
-/

namespace CommentTags
namespace Yaml

inductive Key where
  | text (t : Text)
  /-- A key that is no text. -/
  | other
  deriving DecidableEq, Repr

inductive Value where
  | null
  | text (t : Text)
  | list (items : List Value)
  /-- A mapping; no key occurs twice. -/
  | mapping (fields : List (Key × Value))
  /-- A truth value, a number, a point in time, bytes, a set or a pair, and all that lies deeper
  than the value was unfolded. -/
  | other

namespace Value

/-- A key that is set again keeps its place and takes the new value. -/
def setField (k : Key) (v : Value) : List (Key × Value) → List (Key × Value)
  | [] => [(k, v)]
  | (k', w) :: rest => if k' = k then (k, v) :: rest else (k', w) :: setField k v rest

def get? (key : Text) (fields : List (Key × Value)) : Option Value := fields.lookup (.text key)

end Value

namespace Graph

def keyAt (g : Graph) (i : Nat) : Key :=
  match g.tagOf i, g.contentOf i with
  | .str, .scalar t => .text t
  | _, _ => .other

/-- The value of a node in a settled graph, unfolded to a depth: a collection may contain itself. -/
def unfold (g : Graph) : (depth : Nat) → Nat → Value
  | 0, _ => .other
  | d + 1, i =>
    match g.tagOf i, g.contentOf i with
    | .null, _ => .null
    | .str, .scalar t => .text t
    | .seq, .sequence items => .list (items.map (g.unfold d))
    | .pairs, .sequence items => .list (items.map fun _ => .other)
    | .map, .mapping ps =>
      .mapping (ps.foldl (fun fs p => Value.setField (g.keyAt p.1) (g.unfold d p.2) fs) [])
    | _, _ => .other

end Graph

/-- No reader looks more than three levels below the root. -/
def readingDepth : Nat := 4

/-- The value of a text with at most one document; without one it is null. -/
def load (t : Text) : Except Error Value := do
  match ← Graph.ofLexemes (lexemes t) with
  | (_, none) => return .null
  | (g, some root) => return (← g.settle root).unfold readingDepth root

end Yaml
end CommentTags
