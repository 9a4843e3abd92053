import CommentTags.Failure
import CommentTags.FileText
import CommentTags.SourceNode
import CommentTags.Yaml.Value

/-!
Node files: a YAML list of nodes, or a mapping that holds one and may name the source.
-/

namespace CommentTags

inductive NodeFileError where
  | notFound (path : Path)
  | unreadable (f : IoFailure)
  | invalidYaml (label : Text)
  | sourceNotText (label : Text)
  | nodesNotList (label : Text)
  | notMapping (label : Text) (index : Nat)
  | missingField (label : Text) (index : Nat) (key : Text)
  | notText (label : Text) (index : Nat) (key : Text)
  deriving DecidableEq, Repr

namespace NodeFileError

def location (label : Text) (index : Nat) : Text :=
  label ++ text ": nodes[" ++ Text.ofNat index ++ text "]"

def message : NodeFileError → Text
  | notFound p => text "Node file not found: " ++ p.toText
  | unreadable f => text "Cannot read node file: " ++ f.message
  | invalidYaml label => text "Invalid YAML in " ++ label ++ text ": <yaml>"
  | sourceNotText label => label ++ text ": 'source' must be a string"
  | nodesNotList label => label ++ text ": 'nodes' must be a list"
  | notMapping label i => location label i ++ text " must be a mapping"
  | missingField label i key =>
    location label i ++ text ": missing required field '" ++ key ++ text "'"
  | notText label i key => location label i ++ text ": '" ++ key ++ text "' must be a string"

end NodeFileError

/-- The nodes of a source and its name. -/
structure NodeFile where
  source : Text
  nodes : List SourceNode
  deriving DecidableEq, Repr

namespace NodeFile

open Yaml (Value Key)

abbrev Read (α : Type) := Except (Failure NodeFileError) α

def requiredText (label : Text) (index : Nat) (fields : List (Key × Value)) (key : Text) : Read Text :=
  match Value.get? key fields with
  | none => .error (.refused (.missingField label index key))
  | some (.text t) => .ok t
  | some _ => .error (.refused (.notText label index key))

def readNode (label : Text) (index : Nat) : Value → Read SourceNode
  | .mapping fields => do
    let kind ← requiredText label index fields (text "label")
    let content ← requiredText label index fields (text "content")
    return { kind := .ofLabel kind, content := content }
  | _ => .error (.refused (.notMapping label index))

/-- The nodes of a list, numbered from `i`. -/
def readNodes (label : Text) (i : Nat) : List Value → Read (List SourceNode)
  | [] => .ok []
  | v :: vs => do
    let n ← readNode label i v
    return n :: (← readNodes label (i + 1) vs)

def readSource (label : Text) (fields : List (Key × Value)) : Read Text :=
  match Value.get? (text "source") fields with
  | none => .ok label
  | some (.text t) => .ok t
  | some _ => .error (.refused (.sourceNotText label))

def ofList (label source : Text) : Value → Read NodeFile
  | .list vs => do return { source := source, nodes := ← readNodes label 0 vs }
  | _ => .error (.refused (.nodesNotList label))

/-- An empty document has no nodes. A source that is not named goes by the label. -/
def ofValue (label : Text) : Value → Read NodeFile
  | .null => .ok { source := label, nodes := [] }
  | .mapping fields => do
    let source ← readSource label fields
    ofList label source ((Value.get? (text "nodes") fields).getD (.list []))
  | v => ofList label label v

def ofDocument (label t : Text) : Read NodeFile :=
  match Yaml.load t with
  | .ok v => ofValue label v
  | .error e => .error (.ofYaml (.invalidYaml label) e)

def ofFile (fs : FileSystem) (p : Path) : Read NodeFile :=
  match fs.read p with
  | .error f => .error (.ofIo (.notFound p) .unreadable f)
  | .ok bytes =>
    match decodeFile bytes with
    | none => .error (.fault .undecodable)
    | some t => ofDocument p.toText t

end NodeFile
end CommentTags
