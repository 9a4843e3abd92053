import CommentTags.Text.Basic

/-!
The settings of the comment grammar.
-/

namespace CommentTags

structure Settings where
  /-- Starts a tag. -/
  marker : Text := text "@"
  /-- Stands for the description of a comment that has none. -/
  placeholder : Text := text "_no description provided_"
  /-- Stands for the type of an empty annotation. -/
  defaultType : Text := text "any"
  /-- The labels of the tags that must carry a type annotation, as a set. -/
  requiredTags : List Text := [text "param", text "property", text "return"]
  deriving DecidableEq, Repr

namespace Settings

def requires (s : Settings) (label : Text) : Bool := s.requiredTags.contains label

end Settings
end CommentTags
