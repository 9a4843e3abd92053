import CommentTags.Text.Quoted
import CommentTags.TokenTree

/-!
The listing of a token tree: a numbered line for each comment and an indented line for each of its
tokens.
-/

namespace CommentTags

/-- The label and content, then the fields that are set. -/
def Token.line (t : Token) : Text :=
  Text.joinWith (text "  ") <|
    [text "  " ++ t.label ++ text ": " ++ t.content] ++
    (t.types.map fun ts => text "type=" ++ Text.joinWith (text "|") ts).toList ++
    (t.names.map fun ns => text "name=" ++ Text.joinWith (text ",") ns).toList ++
    (t.description.map fun d => text "description=" ++ d.quoted).toList

def Comment.lines (number : Nat) (c : Comment) : List Text :=
  (text "comment " ++ Text.ofNat number) :: c.children.map Token.line

def TokenTree.listing (t : TokenTree) : Text :=
  Text.joinWith [.char '\n'] (t.comments.zipIdx.flatMap fun (c, i) => c.lines (i + 1))

end CommentTags
