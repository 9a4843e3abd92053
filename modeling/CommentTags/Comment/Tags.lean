import CommentTags.Grammar.Annotation
import CommentTags.Grammar.Description
import CommentTags.Settings
import CommentTags.TokenTree

/-!
The comment that a documentation text holds: its description and its tags as tokens.
-/

namespace CommentTags

/-- The token of a tag. An empty annotation has the default type. -/
def Token.ofTag (s : Settings) (tag : RawTag) : Token :=
  let content := tag.content.clean
  let found := annotations content
  { label := Text.remove s.marker tag.label
    content := content
    description := trailingText content
    types := if found.isEmpty then none
      else some (found.map fun a => (nonempty? a.type).getD s.defaultType)
    names := if (followingNames content).isEmpty then none else some (followingNames content)
    argName := found.findSome? (·.name) }

def tagTokens (s : Settings) (t : Text) : List Token := (tags s.marker t).map (Token.ofTag s)

def descriptionToken (s : Settings) (t : Text) : Token :=
  { label := descriptionLabel, content := (description s.marker t).getD s.placeholder }

/-- A required tag without a type annotation. -/
def Token.lacksType (s : Settings) (t : Token) : Bool := t.types.isNone && s.requires t.label

namespace Comment

/-- The description and every tag of a comment. -/
def ofText (s : Settings) (t : Text) : Comment := ⟨descriptionToken s t :: tagTokens s t⟩

/-- The tags of a comment that lack their type, in order. -/
def missing (s : Settings) (t : Text) : List Token := (tagTokens s t).filter (Token.lacksType s)

/-- What is extracted before the first tag that lacks its type. -/
def beforeMissing (s : Settings) (t : Text) : Comment :=
  ⟨descriptionToken s t :: (tagTokens s t).takeWhile (!·.lacksType s)⟩

end Comment
end CommentTags
