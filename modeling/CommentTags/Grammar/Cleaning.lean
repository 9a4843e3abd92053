import CommentTags.Text.Blank

/-!
Cleaned text: comment delimiters and bullets taken out, blanks folded.
-/

namespace CommentTags

/-- Removes `/**`, then `*/`, then every star, and folds what is left. Line breaks fold too, so the
lines of a tag join. -/
def Text.clean (t : Text) : Text :=
  fold (remove (text "*") (remove (text "*/") (remove (text "/**") t)))

end CommentTags
