import CommentTags.Yaml.Tag

/-!
A document as a graph: an alias is one more edge to the node of its anchor, so a collection may
contain itself.
-/

namespace CommentTags
namespace Yaml

/-- What a node holds; other nodes are named by their index. -/
inductive Content where
  | scalar (t : Text)
  | sequence (items : List Nat)
  | mapping (pairs : List (Nat × Nat))
  deriving DecidableEq, Repr

structure Node where
  tag : Tag
  content : Content
  deriving DecidableEq, Repr

instance : Inhabited Node := ⟨⟨.null, .scalar []⟩⟩

abbrev Graph := Array Node

namespace Graph

def node (g : Graph) (i : Nat) : Node := g.getD i default

def tagOf (g : Graph) (i : Nat) : Tag := (g.node i).tag

def contentOf (g : Graph) (i : Nat) : Content := (g.node i).content

/-- The pairs of a mapping. -/
def pairsOf (g : Graph) (i : Nat) : List (Nat × Nat) :=
  match g.contentOf i with
  | .mapping ps => ps
  | _ => []

def setContent (g : Graph) (i : Nat) (c : Content) : Graph := g.modify i ({ · with content := c })

def setTag (g : Graph) (i : Nat) (t : Tag) : Graph := g.modify i ({ · with tag := t })

/-- How many links from one mapping to another are followed. Each is followed by a call within the
call for the one before it, so the number depends on the limit on nested calls, here 1000, and on
how many are open where the first link is met. -/
def maxLinks : Nat := 985

/-- The text of a node as a scalar; a mapping lends the text of its value key. -/
def scalarText (g : Graph) : (links : Nat) → Nat → Except Error Text
  | 0, _ => .error .tooDeep
  | n + 1, i =>
    match g.contentOf i with
    | .scalar t => .ok t
    | .sequence _ => .error .malformed
    | .mapping ps =>
      match ps.find? fun p => g.tagOf p.1 = .value with
      | some (_, v) => g.scalarText n v
      | none => .error .malformed

end Graph
end Yaml
end CommentTags
