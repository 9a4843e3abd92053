import CommentTags.Text.Basic

/-!
The text of a file: UTF-8, with every line break read as a line feed.
-/

namespace CommentTags

/-- A carriage return, alone or with a line feed behind it, is a line feed. -/
def unifyBreaks : List Char → List Char
  | [] => []
  | '\r' :: '\n' :: r => '\n' :: unifyBreaks r
  | '\r' :: r => '\n' :: unifyBreaks r
  | c :: r => c :: unifyBreaks r

def decodeFile (bytes : List UInt8) : Option Text :=
  (String.fromUTF8? ⟨bytes.toArray⟩).map fun s => (unifyBreaks s.toList).map .char

def encodeFile (s : String) : List UInt8 := s.toUTF8.data.toList

end CommentTags
