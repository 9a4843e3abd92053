import CommentTags.Text.Word

/-!
Identifiers of a declaration: an ASCII letter, underscore or dollar sign, then word characters and
dollar signs.
-/

namespace CommentTags

namespace CodePoint

def isIdentifierStart : CodePoint → Bool
  | .half _ => false
  | .char c => c.isAlpha || c = '_' || c = '$'

def isIdentifierPart (c : CodePoint) : Bool := c.isWord || c = .char '$'

end CodePoint

/-- The identifier at the beginning of a text, and the rest. -/
def cutIdentifier : Text → Option (Text × Text)
  | [] => none
  | c :: r =>
    if c.isIdentifierStart then
      some (c :: r.takeWhile CodePoint.isIdentifierPart, r.dropWhile CodePoint.isIdentifierPart)
    else none

theorem length_cutIdentifier_lt {t name rest : Text} (h : cutIdentifier t = some (name, rest)) :
    rest.length < t.length := by
  cases t with
  | nil => simp [cutIdentifier] at h
  | cons c r =>
    simp only [cutIdentifier] at h
    split at h
    · have := Text.length_dropWhile_le CodePoint.isIdentifierPart r
      simp only [Option.some.injEq, Prod.mk.injEq] at h
      rw [← h.2, List.length_cons]
      omega
    · simp at h

/-- A name and a value found in a declaration. -/
structure Entry where
  name : Text
  value : Text
  deriving DecidableEq, Repr

end CommentTags
