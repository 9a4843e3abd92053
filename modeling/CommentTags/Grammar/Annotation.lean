import CommentTags.Text.Blank

/-!
Type annotations: the segments between an opening brace and the closing brace that is the next
brace after it. A name may follow an annotation, and free text may follow the name.
-/

namespace CommentTags

namespace CodePoint

def isBrace (c : CodePoint) : Bool := c = .char '{' || c = .char '}'

/-- A name holds no blanks and no braces. -/
def isName (c : CodePoint) : Bool := !c.isBlank && !c.isBrace

end CodePoint

/-- The name at the beginning of a text, after any blanks; empty if there is none. -/
def leadingName (t : Text) : Text := t.trimLeft.takeWhile CodePoint.isName

/-- What stands before and after the closing brace of a segment that is already open. -/
def cutSegment (t : Text) : Option (Text × Text) :=
  match t.dropWhile (!·.isBrace) with
  | .char '}' :: after => some (t.takeWhile (!·.isBrace), after)
  | _ => none

theorem length_cutSegment_lt {t inner after : Text} (h : cutSegment t = some (inner, after)) :
    after.length < t.length := by
  unfold cutSegment at h
  split at h
  · rename_i rest heq
    have := Text.length_dropWhile_le (!·.isBrace) t
    simp only [Option.some.injEq, Prod.mk.injEq] at h
    rw [heq, h.2] at this
    simp only [List.length_cons] at this
    omega
  · simp at h

structure Annotation where
  type : Text
  name : Option Text
  deriving DecidableEq, Repr

def nonempty? (t : Text) : Option Text := if t.isEmpty then none else some t

def annotations : Text → List Annotation
  | [] => []
  | c :: r =>
    if c = .char '{' then
      match cutSegment r with
      | some (inner, after) => ⟨Text.trim inner, nonempty? (leadingName after)⟩ :: annotations r
      | none => annotations r
    else annotations r

/-- The names that follow a closing brace. -/
def followingNames : Text → List Text
  | [] => []
  | c :: r =>
    if c = .char '}' then (nonempty? (leadingName r)).toList ++ followingNames r
    else followingNames r

/-- A text after its leading annotations and the blanks behind each. -/
def afterAnnotations (t : Text) : Text :=
  match t with
  | .char '{' :: r =>
    match _h : cutSegment r with
    | some (_, after) => afterAnnotations (Text.trimLeft after)
    | none => t
  | _ => t
termination_by t.length
decreasing_by
  have h1 := length_cutSegment_lt _h
  have h2 := Text.length_dropWhile_le CodePoint.isBlank after
  simp only [Text.trimLeft, List.length_cons]
  omega

/-- A text without its first word, if blanks and then something other than a brace follow it. -/
def afterName (t : Text) : Text :=
  let rest := t.dropWhile CodePoint.isName
  match Text.trimLeft rest with
  | c :: r =>
    if rest.length = (c :: r).length || c.isBrace then t else c :: r
  | [] => t

/-- The free text behind the leading annotations and, if there were any, the name behind them. -/
def trailingText (t : Text) : Option Text :=
  match afterAnnotations t with
  | [] => none
  | c :: r =>
    if !c.isName then none
    else if (c :: r).length < t.length then some (Text.trim (afterName (c :: r)))
    else some (Text.trim (c :: r))

end CommentTags
