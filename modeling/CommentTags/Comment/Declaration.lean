import CommentTags.Grammar.Field
import CommentTags.Grammar.Parameter
import CommentTags.SourceNode
import CommentTags.TokenTree

/-!
From the text of a declaration to its tokens, one for each field or parameter.
-/

namespace CommentTags

def Token.ofEntry (e : Entry) : Token := { label := e.name, content := e.value }

/-- The entries of a declaration; nodes of other kinds have none. -/
def declarationEntries : NodeKind → Text → List Entry
  | .dataType, t => fields t
  | .proto, t => parameters t
  | _, _ => []

def declarationTokens (k : NodeKind) (t : Text) : List Token :=
  (declarationEntries k t).map Token.ofEntry

end CommentTags
