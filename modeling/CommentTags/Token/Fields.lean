import CommentTags.Json.Basic
import CommentTags.Token

/-!
Tokens from loose fields. Nothing is converted: a number is no text and a text is no list.
-/

namespace CommentTags

inductive DefectKind where
  | missing
  | notText
  | notList
  deriving DecidableEq, Repr

/-- A field, or an item of a list field, that does not fit. -/
structure Defect where
  field : Text
  item : Option Nat := none
  kind : DefectKind
  deriving DecidableEq, Repr

/-- The fields of a token before they are checked; `none` is a field that was not given. The last
field goes by the key under which it was found. -/
structure LooseToken where
  label : Option Json
  content : Option Json
  description : Option Json := none
  types : Option Json := none
  names : Option Json := none
  argName : Option Json := none
  argNameKey : Text := text "arg_name"

namespace LooseToken

/-- A checked field, or its defects. -/
abbrev Checked (α : Type) := Except (List Defect) α

def required (field : Text) : Option Json → Checked Text
  | none => .error [{ field := field, kind := .missing }]
  | some (.str t) => .ok t
  | some _ => .error [{ field := field, kind := .notText }]

def optional (field : Text) : Option Json → Checked (Option Text)
  | none => .ok none
  | some .null => .ok none
  | some (.str t) => .ok (some t)
  | some _ => .error [{ field := field, kind := .notText }]

/-- The texts of a list, numbered from `i`; every item that is none is a defect. -/
def items (field : Text) (i : Nat) : List Json → Checked (List Text)
  | [] => .ok []
  | v :: vs =>
    match v, items field (i + 1) vs with
    | .str t, .ok ts => .ok (t :: ts)
    | .str _, .error ds => .error ds
    | _, .ok _ => .error [{ field := field, item := some i, kind := .notText }]
    | _, .error ds => .error ({ field := field, item := some i, kind := .notText } :: ds)

def optionalList (field : Text) : Option Json → Checked (Option (List Text))
  | none => .ok none
  | some .null => .ok none
  | some (.array vs) => (items field 0 vs).map some
  | some _ => .error [{ field := field, kind := .notList }]

def defects {α : Type} : Checked α → List Defect
  | .ok _ => []
  | .error ds => ds

/-- The token, or the defects of all fields in order. -/
def check (l : LooseToken) : Except (List Defect) Token :=
  let label := required (text "label") l.label
  let content := required (text "content") l.content
  let description := optional (text "description") l.description
  let types := optionalList (text "type") l.types
  let names := optionalList (text "name") l.names
  let argName := optional l.argNameKey l.argName
  match label, content, description, types, names, argName with
  | .ok label, .ok content, .ok description, .ok types, .ok names, .ok argName =>
    .ok { label, content, description, types, names, argName }
  | _, _, _, _, _, _ =>
    .error (defects label ++ defects content ++ defects description ++ defects types ++
      defects names ++ defects argName)

/-- The fields of an object by their keys. The last field may be spelled in two ways, of which
`argName` goes first. -/
def ofFields (fs : List (Text × Json)) : LooseToken :=
  let get (key : String) := Json.lookup (text key) fs
  { label := get "label"
    content := get "content"
    description := get "description"
    types := get "type"
    names := get "name"
    argName := get "argName" <|> get "arg_name"
    argNameKey := if (get "argName").isSome then text "argName" else text "arg_name" }

end LooseToken

def Token.ofFields (fs : List (Text × Json)) : Except (List Defect) Token :=
  (LooseToken.ofFields fs).check

end CommentTags
