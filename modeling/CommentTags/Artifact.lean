import CommentTags.Failure
import CommentTags.FileText
import CommentTags.Json.Printer
import CommentTags.Json.Reader
import CommentTags.Token.Fields
import CommentTags.TokenTree

/-!
Artifacts: a token tree as versioned, compact JSON text.
-/

namespace CommentTags

/-- The fields of a token that are set. -/
def Token.toFields (t : Token) : List (Text × Json) :=
  [(text "label", .str t.label), (text "content", .str t.content)] ++
  (t.description.map fun d => (text "description", Json.str d)).toList ++
  (t.types.map fun ts => (text "type", Json.array (ts.map .str))).toList ++
  (t.names.map fun ns => (text "name", Json.array (ns.map .str))).toList ++
  (t.argName.map fun a => (text "argName", Json.str a)).toList

namespace Artifact

def version : Text := text "1"

def suffix : Text := text ".doctag.json"

def toJson (tree : TokenTree) (source : Option Text) : Json :=
  .object <|
    [(text "v", .str version)] ++ (source.map fun s => (text "source", Json.str s)).toList ++
    [(text "comments",
      .array (tree.comments.map fun c => .array (c.children.map fun t => .object t.toFields)))]

def serialize (tree : TokenTree) (source : Option Text) : String :=
  String.ofList (toJson tree source).render

inductive Error where
  | malformedJson
  | notObject
  | unsupportedVersion (v : Json)
  /-- A value has the wrong shape to hold comments or tokens. -/
  | wrongShape
  | missingField (key : Text)
  | badFields (defects : List Defect)

abbrev Read (α : Type) := Except (Failure Error) α

/-- What a value yields when it is gone through one by one: the items of an array, the code points
of a text, the keys of an object. -/
def elements : Json → Read (List Json)
  | .array vs => .ok vs
  | .str t => .ok (t.map fun c => .str [c])
  | .object fs => .ok (fs.map fun f => .str f.1)
  | _ => .error (.refused .wrongShape)

/-- The token of an object. A missing label or content is found before any field is checked. -/
def readToken : Json → Read Token
  | .object fs =>
    let get (key : String) := Json.lookup (text key) fs
    match get "label", get "content" with
    | none, _ => .error (.refused (.missingField (text "label")))
    | _, none => .error (.refused (.missingField (text "content")))
    | label, content =>
      let loose : LooseToken :=
        { label, content, description := get "description", types := get "type"
          names := get "name", argName := get "argName" }
      match loose.check with
      | .ok t => .ok t
      | .error ds => .error (.refused (.badFields ds))
  | _ => .error (.refused .wrongShape)

def readComment (v : Json) : Read Comment := do
  let vs ← elements v
  let tokens ← vs.mapM readToken
  .ok ⟨tokens⟩

def ofJson : Json → Read TokenTree
  | .object fs =>
    match Json.lookup (text "v") fs with
    | some (.str v) =>
      if v = version then do
        let vs ← elements ((Json.lookup (text "comments") fs).getD (.array []))
        let comments ← vs.mapM readComment
        .ok ⟨comments⟩
      else .error (.refused (.unsupportedVersion (.str v)))
    | v => .error (.refused (.unsupportedVersion (v.getD .null)))
  | _ => .error (.refused .notObject)

def deserialize (t : Text) : Read TokenTree :=
  match Json.read t with
  | .ok v => ofJson v
  | .error .malformed => .error (.refused .malformedJson)
  | .error .oversized => .error (.fault .oversizedInteger)
  | .error .tooDeep => .error (.fault .tooDeep)

/-- The path of the artifact of a source file inside a directory. The whole file name is kept, so
files that differ in a suffix have different artifacts. -/
def pathFor (sourceFile directory : Path) : Path := directory.child (sourceFile.name ++ suffix)

def write (fs : FileSystem) (p : Path) (tree : TokenTree) (source : Option Text) :
    FileSystem.Attempt :=
  fs.writeDeep p (encodeFile (serialize tree source))

def ofFile (fs : FileSystem) (p : Path) : Read TokenTree :=
  match fs.read p with
  | .error f => .error (.fault (.io f))
  | .ok bytes =>
    match decodeFile bytes with
    | none => .error (.fault .undecodable)
    | some t => deserialize t

namespace Error

/-- What the message says of a token with bad fields is left to the reader of its defects. -/
def message : Error → Text
  | malformedJson => text "Invalid artifact JSON: <json>"
  | notObject => text "Artifact must be a JSON object"
  | unsupportedVersion v => text "Unsupported artifact format version: " ++ v.quoted
  | wrongShape => text "Malformed artifact token: TypeError"
  | missingField key => text "Malformed artifact token: KeyError(" ++ key.quoted ++ text ")"
  | badFields _ => text "Malformed artifact token: ValidationError"

end Error
end Artifact
end CommentTags
