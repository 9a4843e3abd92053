import CommentTags.Decimal.Shortest
import CommentTags.Text.Quoted

/-!
JSON values. The fields of an object keep their order.
-/

namespace CommentTags

inductive Json where
  | null
  | bool (b : Bool)
  | int (n : Int)
  | float (x : Binary64)
  | str (t : Text)
  | array (items : List Json)
  | object (fields : List (Text × Json))
  deriving Inhabited

namespace Json

/-- The value of a field. -/
def lookup (key : Text) (fields : List (Text × Json)) : Option Json := List.lookup key fields

/-- A field that is set again keeps its place and takes the new value. -/
def setField (key : Text) (v : Json) : List (Text × Json) → List (Text × Json)
  | [] => [(key, v)]
  | (k, w) :: rest => if k = key then (k, v) :: rest else (k, w) :: setField key v rest

mutual

/-- A value as it is quoted in a message. -/
def quoted : Json → Text
  | null => text "None"
  | bool b => if b then text "True" else text "False"
  | int n => Text.ofInt n
  | float x => x.spelling.map .char
  | str t => t.quoted
  | array items => text "[" ++ Text.joinWith (text ", ") (quotedItems items) ++ text "]"
  | object fields =>
    text "\x7b" ++ Text.joinWith (text ", ") (quotedFields fields) ++ text "\x7d"

def quotedItems : List Json → List Text
  | [] => []
  | v :: vs => quoted v :: quotedItems vs

def quotedFields : List (Text × Json) → List Text
  | [] => []
  | (k, v) :: fs => (k.quoted ++ text ": " ++ quoted v) :: quotedFields fs

end

end Json
end CommentTags
