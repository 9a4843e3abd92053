import CommentTags.Text.Blank
import CommentTags.Text.Word

/-!
Tags of a comment. A tag starts at a marker that is directly followed by a word character and
stands at the beginning of the text or after a blank or a star, so that an address such as
`user@example.com` is no tag. It runs to the next tag start or to the end.
-/

namespace CommentTags

/-- May a tag start after this code point? -/
def opensFragment : Option CodePoint → Bool
  | none => true
  | some c => c.isBlank || c = .char '*'

/-- Does a tag start at the beginning of `t`, which stands after `prev`? -/
def isTagStart (marker : Text) (prev : Option CodePoint) (t : Text) : Bool :=
  opensFragment prev && marker.isPrefixOf t && ((t.drop marker.length).head?.any CodePoint.isWord)

/-- Cuts `t`, which stands after `prev`, at the first place where `stop` holds. -/
def cutAt (stop : Option CodePoint → Text → Bool) : Option CodePoint → Text → Text × Text
  | _, [] => ([], [])
  | prev, c :: r =>
    if stop prev (c :: r) then ([], c :: r)
    else
      let (front, rest) := cutAt stop (some c) r
      (c :: front, rest)

theorem cutAt_append (stop : Option CodePoint → Text → Bool) (prev : Option CodePoint) (t : Text) :
    (cutAt stop prev t).1 ++ (cutAt stop prev t).2 = t := by
  induction t generalizing prev with
  | nil => rfl
  | cons c r ih =>
    simp only [cutAt]
    split
    · rfl
    · simp [ih]

theorem length_cutAt_le (stop : Option CodePoint → Text → Bool) (prev : Option CodePoint)
    (t : Text) : (cutAt stop prev t).2.length ≤ t.length := by
  have h := congrArg List.length (cutAt_append stop prev t)
  simp only [List.length_append] at h
  omega

/-- A tag as written: its label with the marker, and all that follows it. -/
structure RawTag where
  label : Text
  content : Text
  deriving DecidableEq, Repr

def CodePoint.isLabel (c : CodePoint) : Bool := c.isWord || c = .char '.' || c = .char '-'

/-- The tags of a text that is empty or begins with a tag start. -/
def tagsFrom (marker : Text) (t : Text) : List RawTag :=
  let body := t.drop marker.length
  let run := body.takeWhile CodePoint.isLabel
  if run.isEmpty then []
  else
    let rest := body.dropWhile CodePoint.isLabel
    let cut := cutAt (isTagStart marker) run.getLast? rest
    ⟨marker ++ run, cut.1⟩ :: tagsFrom marker cut.2
termination_by t.length
decreasing_by
  rename_i h
  have h1 := length_cutAt_le (isTagStart marker) run.getLast? rest
  have h2 := congrArg List.length
    (List.takeWhile_append_dropWhile (l := body) (p := CodePoint.isLabel))
  have h3 : 0 < run.length := by
    cases hr : run with
    | nil => simp [hr] at h
    | cons => simp
  have h4 : body.length ≤ t.length := by simp [body]
  simp only [List.length_append] at h2
  show cut.2.length < t.length
  have h5 : run.length + rest.length = body.length := h2
  have h6 : cut.2.length ≤ rest.length := h1
  omega

def tags (marker t : Text) : List RawTag :=
  tagsFrom marker (cutAt (isTagStart marker) none t).2

end CommentTags
