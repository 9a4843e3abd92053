import CommentTags.Text.Basic

/-!
Tokens: the structured pieces of documentation comments and declarations.
-/

namespace CommentTags

/-- A tag, a leading description or an entry of a declaration. A field that was not found is
`none`, which is not the same as empty. -/
structure Token where
  label : Text
  content : Text
  /-- Free text behind the type and the name. -/
  description : Option Text := none
  /-- The types of the annotations. -/
  types : Option (List Text) := none
  /-- The names behind the annotations. -/
  names : Option (List Text) := none
  /-- The first name that was found together with a type. -/
  argName : Option Text := none
  deriving DecidableEq, Repr

namespace Token

def addType (t : Token) (type : Text) : Token := { t with types := some (t.types.getD [] ++ [type]) }

def addName (t : Token) (name : Text) : Token := { t with names := some (t.names.getD [] ++ [name]) }

end Token

/-- The label of the token that leads every comment. -/
def descriptionLabel : Text := text "description"

end CommentTags
