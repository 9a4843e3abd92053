import CommentTags.Failure
import CommentTags.FileText
import CommentTags.Settings
import CommentTags.Text.Blank
import CommentTags.Text.Quoted
import CommentTags.Text.Word
import CommentTags.Yaml.Value

/-!
Settings from a YAML document: a mapping with any of four fields.
-/

namespace CommentTags

/-- Why a document holds no settings; most causes name the document by its label. -/
inductive SettingsError where
  | notFound (path : Path)
  | unreadable (f : IoFailure)
  | invalidYaml (label : Text)
  | notMapping (label : Text)
  | unknownFields (label : Text) (keys : List Text)
  | badMarker (label marker : Text)
  | notText (label key : Text)
  | notTextList (label key : Text)
  deriving DecidableEq, Repr

def SettingsError.message : SettingsError → Text
  | notFound p => text "Config file not found: " ++ p.toText
  | unreadable f => text "Cannot read config file: " ++ f.message
  | invalidYaml label => text "Invalid YAML in " ++ label ++ text ": <yaml>"
  | notMapping label => label ++ text ": config must be a YAML mapping"
  | unknownFields label keys =>
    label ++ text ": unknown field(s): " ++ Text.joinWith (text ", ") keys
  | badMarker label marker =>
    label ++ text ": 'marker' must be a single punctuation character, got " ++ marker.quoted
  | notText label key => label ++ text ": '" ++ key ++ text "' must be a non-empty string"
  | notTextList label key => label ++ text ": '" ++ key ++ text "' must be a list of strings"

namespace Settings

open Yaml (Value Key)

def markerKey : Text := text "marker"
def placeholderKey : Text := text "description-placeholder"
def defaultTypeKey : Text := text "default-type"
def requiredTagsKey : Text := text "required-tags"

def knownKeys : List Text := [markerKey, placeholderKey, defaultTypeKey, requiredTagsKey]

def unknownKeys (fields : List (Key × Value)) : List Key :=
  (fields.map (·.1)).filter fun
    | .text t => !knownKeys.contains t
    | .other => true

/-- The texts of some keys, if all of them are texts. -/
def keyTexts : List Key → Option (List Text)
  | [] => some []
  | .text t :: ks => (keyTexts ks).map (t :: ·)
  | .other :: _ => none

abbrev Read (α : Type) := Except (Failure SettingsError) α

/-- A field that holds a nonempty text, or the default. -/
def textField (label : Text) (fields : List (Key × Value)) (key default : Text) : Read Text :=
  match Value.get? key fields with
  | none => .ok default
  | some (.text (c :: t)) => .ok (c :: t)
  | some _ => .error (.refused (.notText label key))

def texts : List Value → Option (List Text)
  | [] => some []
  | .text t :: vs => (texts vs).map (t :: ·)
  | _ :: _ => none

/-- A field that holds a set of texts as a list, or the default. -/
def textSetField (label : Text) (fields : List (Key × Value)) (key : Text) (default : List Text) :
    Read (List Text) :=
  match Value.get? key fields with
  | none => .ok default
  | some (.list vs) =>
    match texts vs with
    | some ts => .ok ts.eraseDups
    | none => .error (.refused (.notTextList label key))
  | some _ => .error (.refused (.notTextList label key))

/-- A marker is one code point that is no letter or numeral, not blank, and means nothing else in a
comment. -/
def isMarker : Text → Bool
  | [c] =>
    !c.isAlphanumeric && !c.isBlank && !(c = .char '{' || c = .char '}' || c = .char '*' || c = .char '/')
  | _ => false

def ofFields (label : Text) (fields : List (Key × Value)) : Read Settings :=
  match unknownKeys fields with
  | [] => do
    let defaults : Settings := {}
    let marker ← textField label fields markerKey defaults.marker
    if !isMarker marker then throw (.refused (.badMarker label marker))
    let placeholder ← textField label fields placeholderKey defaults.placeholder
    let defaultType ← textField label fields defaultTypeKey defaults.defaultType
    let requiredTags ← textSetField label fields requiredTagsKey defaults.requiredTags
    return { marker, placeholder, defaultType, requiredTags }
  | ks =>
    match keyTexts ks with
    | some keys => .error (.refused (.unknownFields label (Text.sort keys)))
    | none => .error (.fault .unnamedSetting)

/-- An empty document leaves every default. -/
def ofValue (label : Text) : Value → Read Settings
  | .null => .ok {}
  | .mapping fields => ofFields label fields
  | _ => .error (.refused (.notMapping label))

def ofDocument (label t : Text) : Read Settings :=
  match Yaml.load t with
  | .ok v => ofValue label v
  | .error e => .error (.ofYaml (.invalidYaml label) e)

def ofFile (fs : FileSystem) (p : Path) : Read Settings :=
  match fs.read p with
  | .error f => .error (.ofIo (.notFound p) .unreadable f)
  | .ok bytes =>
    match decodeFile bytes with
    | none => .error (.fault .undecodable)
    | some t => ofDocument p.toText t

def fileName : Text := text ".doctag.yaml"

/-- A document that holds every default. -/
def defaultDocument : Text :=
  let s : Settings := {}
  text "# doctag configuration\n" ++
  markerKey ++ text ": \"" ++ s.marker ++ text "\"\n" ++
  placeholderKey ++ text ": \"" ++ s.placeholder ++ text "\"\n" ++
  defaultTypeKey ++ text ": " ++ s.defaultType ++ text "\n" ++
  requiredTagsKey ++ text ": [" ++ Text.joinWith (text ", ") (Text.sort s.requiredTags) ++ text "]\n"

end Settings
end CommentTags
