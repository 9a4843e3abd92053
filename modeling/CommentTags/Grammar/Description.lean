import CommentTags.Grammar.Cleaning
import CommentTags.Grammar.Tag

/-!
The leading description of a comment.
-/

namespace CommentTags

/-- Cuts off the leading blanks and, if a slash and stars come next, those too. -/
def cutOpener (t : Text) : Text × Text :=
  let blanks := t.takeWhile CodePoint.isBlank
  match t.dropWhile CodePoint.isBlank with
  | .char '/' :: .char '*' :: r =>
    (blanks ++ .char '/' :: .char '*' :: r.takeWhile (· = .char '*'),
      r.dropWhile (· = .char '*'))
  | r => (blanks, r)

/-- The description ends at the first tag start or comment end. -/
def endsDescription (marker : Text) (prev : Option CodePoint) (t : Text) : Bool :=
  isTagStart marker prev t || (text "*/").isPrefixOf t

def rawDescription (marker t : Text) : Text :=
  let (opener, rest) := cutOpener t
  (cutAt (endsDescription marker) opener.getLast? rest).1

/-- The cleaned text between the opener and the first tag, if anything is left of it. -/
def description (marker t : Text) : Option Text :=
  match (rawDescription marker t).clean with
  | [] => none
  | d => some d

end CommentTags
