import CommentTags.Yaml.Graph
import CommentTags.Yaml.Lexeme

/-!
From lexemes to the graph of a document.
-/

namespace CommentTags
namespace Yaml

/-- The lexemes that are left, the nodes so far, and the names in force. -/
structure Build where
  rest : List Lexeme
  graph : Graph := #[]
  anchors : List (String × Nat) := []
  handles : List (String × String) := []
  /-- How many collections are open. -/
  depth : Nat := 0

/-- How many collections may be open at a time. Each is read by two calls within those for the one
around it, so the number depends on the limit on nested calls, here 1000, and on how many are open
where the document is handed to the reader. -/
def maxDepth : Nat := 490

abbrev Builder := StateT Build (Except Error)

namespace Builder

def peek : Builder Lexeme := do return (← get).rest.headD .streamEnd

def skip : Builder Unit := modify fun b => { b with rest := b.rest.tail }

/-- The lexeme at hand does not belong here. -/
def refuse {α : Type} : Builder α := do
  match ← peek with
  | .unreadable e => throw e
  | _ => throw .malformed

def expect (x : Lexeme) : Builder Unit := do
  if (← peek) = x then skip else refuse

def add (n : Node) : Builder Nat := do
  let b ← get
  set { b with graph := b.graph.push n }
  return b.graph.size

def addNull : Builder Nat := add ⟨.null, .scalar []⟩

def fill (i : Nat) (c : Content) : Builder Unit :=
  modify fun b => { b with graph := b.graph.setContent i c }

/-- Reads one level deeper. -/
def nested {α : Type} (read : Builder α) : Builder α := do
  let depth := (← get).depth
  if maxDepth ≤ depth then throw .tooDeep
  modify fun b => { b with depth := depth + 1 }
  let a ← read
  modify fun b => { b with depth := depth }
  return a

def resolveAlias (name : String) : Builder Nat := do
  match (← get).anchors.lookup name with
  | some i => return i
  | none => throw .malformed

/-- Anchors are unique in a document. -/
def addAnchor (name : Option String) (i : Nat) : Builder Unit := do
  match name with
  | none => return
  | some name =>
    let b ← get
    if (b.anchors.lookup name).isSome then throw .malformed
    set { b with anchors := (name, i) :: b.anchors }

/-- The full name of a tag. -/
def tagName (handle : Option String) (suffix : String) : Builder String := do
  match handle with
  | none => return suffix
  | some h =>
    match (← get).handles.lookup h with
    | some uri => return uri ++ suffix
    | none => throw .malformed

def optionalAnchor : Builder (Option String) := do
  match ← peek with
  | .anchor name => skip; return some name
  | _ => return none

def optionalTag : Builder (Option (Option String × String)) := do
  match ← peek with
  | .tag handle suffix => skip; return some (handle, suffix)
  | _ => return none

/-- The anchor and the tag before a node, in either order. -/
def properties : Builder (Option String × Option String) := do
  let (anchor, tag) ←
    match ← optionalAnchor with
    | some a => pure (some a, ← optionalTag)
    | none =>
      let tag ← optionalTag
      match tag with
      | some _ => pure (← optionalAnchor, tag)
      | none => pure (none, none)
  match tag with
  | none => return (anchor, none)
  | some (handle, suffix) => return (anchor, some (← tagName handle suffix))

/-- The tag of a scalar. Without a name it is implied by the text, if that is plain; the name `!`
asks for the implied tag in any case. -/
def scalarTag (name : Option String) (t : Text) (plain : Bool) : Tag :=
  match name with
  | none => if plain then impliedTag t else .str
  | some "!" => impliedTag t
  | some name => Tag.ofName name

def collectionTag (name : Option String) (standard : Tag) : Tag :=
  match name with
  | none => standard
  | some "!" => standard
  | some name => Tag.ofName name

def closesEntry : Lexeme → Bool
  | .blockEntry | .blockEnd => true
  | _ => false

def closesPart : Lexeme → Bool
  | .key | .value | .blockEnd => true
  | _ => false

mutual

/-- A node. Blocks may start only in block context, and a sequence without indentation only as the
key or value of a block mapping. -/
def readNode : Nat → (block loose : Bool) → Builder Nat
  | 0, _, _ => throw .malformed
  | n + 1, block, loose => do
    match ← peek with
    | .alias name => skip; resolveAlias name
    | _ =>
      let (anchor, name) ← properties
      let collection (tag : Tag) (read : Builder Content) : Builder Nat := do
        let i ← add ⟨collectionTag name tag, .scalar []⟩
        addAnchor anchor i
        fill i (← nested read)
        return i
      match ← peek with
      | .scalar t plain =>
        skip
        let i ← add ⟨scalarTag name t plain, .scalar t⟩
        addAnchor anchor i
        return i
      | .openSequence => skip; collection .seq (do return .sequence (← readFlowItems n true))
      | .openMapping => skip; collection .map (do return .mapping (← readFlowPairs n true))
      | x =>
        if x = .blockEntry && loose then collection .seq (do return .sequence (← readLooseItems n))
        else if x = .blockSequence && block then
          skip; collection .seq (do return .sequence (← readBlockItems n))
        else if x = .blockMapping && block then
          skip; collection .map (do return .mapping (← readBlockPairs n))
        else if anchor.isSome || name.isSome then
          let i ← add ⟨scalarTag name [] true, .scalar []⟩
          addAnchor anchor i
          return i
        else refuse

/-- The items of a block sequence, through its end. -/
def readBlockItems : Nat → Builder (List Nat)
  | 0 => throw .malformed
  | n + 1 => do
    match ← peek with
    | .blockEntry =>
      skip
      let i ← if closesEntry (← peek) then addNull else readNode n true false
      return i :: (← readBlockItems n)
    | _ => expect .blockEnd; return []

/-- The items of a sequence that is not indented, up to the first lexeme that is no entry. -/
def readLooseItems : Nat → Builder (List Nat)
  | 0 => throw .malformed
  | n + 1 => do
    match ← peek with
    | .blockEntry =>
      skip
      let next ← peek
      let i ← if next = .blockEntry || closesPart next then addNull else readNode n true false
      return i :: (← readLooseItems n)
    | _ => return []

/-- The pairs of a block mapping, through its end. A key or a value that is not there is null. -/
def readBlockPairs : Nat → Builder (List (Nat × Nat))
  | 0 => throw .malformed
  | n + 1 => do
    match ← peek with
    | .key =>
      skip
      let k ← if closesPart (← peek) then addNull else readNode n true true
      let v ← readBlockValue n
      return (k, v) :: (← readBlockPairs n)
    | _ => expect .blockEnd; return []

def readBlockValue : Nat → Builder Nat
  | 0 => throw .malformed
  | n + 1 => do
    match ← peek with
    | .value =>
      skip
      if closesPart (← peek) then addNull else readNode n true true
    | _ => addNull

/-- The items of a flow sequence, through its bracket. A pair among them is a mapping of its own. -/
def readFlowItems : Nat → (first : Bool) → Builder (List Nat)
  | 0, _ => throw .malformed
  | n + 1, first => do
    if (← peek) = .closeSequence then skip; return []
    if !first then expect .flowEntry
    match ← peek with
    | .closeSequence => skip; return []
    | .key =>
      skip
      let i ← add ⟨.map, .mapping []⟩
      let pair ← nested do
        let next ← peek
        let k ← if next = .value || next = .flowEntry || next = .closeSequence then addNull
          else readNode n false false
        let v ← readFlowValue n .closeSequence
        return (k, v)
      fill i (.mapping [pair])
      return i :: (← readFlowItems n false)
    | _ =>
      let i ← readNode n false false
      return i :: (← readFlowItems n false)

def readFlowValue : Nat → (close : Lexeme) → Builder Nat
  | 0, _ => throw .malformed
  | n + 1, close => do
    match ← peek with
    | .value =>
      skip
      let next ← peek
      if next = .flowEntry || next = close then addNull else readNode n false false
    | _ => addNull

/-- The pairs of a flow mapping, through its brace. -/
def readFlowPairs : Nat → (first : Bool) → Builder (List (Nat × Nat))
  | 0, _ => throw .malformed
  | n + 1, first => do
    if (← peek) = .closeMapping then skip; return []
    if !first then expect .flowEntry
    match ← peek with
    | .closeMapping => skip; return []
    | .key =>
      skip
      let next ← peek
      let k ← if next = .value || next = .flowEntry || next = .closeMapping then addNull
        else readNode n false false
      let v ← readFlowValue n .closeMapping
      return (k, v) :: (← readFlowPairs n false)
    | _ =>
      let k ← readNode n false false
      let v ← addNull
      return (k, v) :: (← readFlowPairs n false)

end

def standardHandles : List (String × String) := [("!", "!"), ("!!", "tag:yaml.org,2002:")]

/-- The directives before a document: one version, which must be 1, and handles without repetition. -/
def readDirectives : Nat → (versionSeen : Bool) → List (String × String) →
    Builder (List (String × String))
  | 0, _, _ => throw .malformed
  | n + 1, versionSeen, handles => do
    match ← peek with
    | .directive d =>
      skip
      match d with
      | .version major _ =>
        if versionSeen || major ≠ 1 then throw .malformed
        readDirectives n true handles
      | .handle name uri =>
        if (handles.lookup name).isSome then throw .malformed
        readDirectives n versionSeen ((name, uri) :: handles)
      | .unknown => readDirectives n versionSeen handles
    | _ => return handles ++ standardHandles

def skipDocumentEnds : Nat → Builder Unit
  | 0 => return
  | n + 1 => do
    if (← peek) = .documentEnd then
      skip
      skipDocumentEnds n

/-- A stream holds one document. If another one starts, its beginning is still read. -/
def refuseDocument (n : Nat) : Builder Unit := do
  if (← peek) = .streamEnd then return
  let _ ← readDirectives n false []
  expect .documentStart
  throw .malformed

/-- The root of the only document of a stream; an empty stream has none. -/
def readDocument : Builder (Option Nat) := do
  let n := 4 * (← get).rest.length + 8
  let root ←
    match ← peek with
    | .streamEnd => return none
    | .directive _ | .documentStart =>
      let handles ← readDirectives n false []
      modify fun b => { b with handles := handles }
      expect .documentStart
      match ← peek with
      | .directive _ | .documentStart | .documentEnd | .streamEnd => addNull
      | _ => readNode n true false
    | _ =>
      modify fun b => { b with handles := standardHandles }
      readNode n true false
  skipDocumentEnds n
  refuseDocument n
  return some root

end Builder

/-- The graph of a document and its root, if it has one. -/
def Graph.ofLexemes (xs : List Lexeme) : Except Error (Graph × Option Nat) := do
  let (root, b) ← Builder.readDocument.run { rest := xs }
  return (b.graph, root)

end Yaml
end CommentTags
