import CommentTags.Grammar.Identifier
import CommentTags.Text.Blank

/-!
Fields of a data type: `key: value` with the key bare or in quotes and perhaps marked optional. A
value runs to the next comma, semicolon, brace or line break.
-/

namespace CommentTags

namespace CodePoint

def isQuoteMark (c : CodePoint) : Bool := c = .char '\x27' || c = .char '\x22'

def endsValue (c : CodePoint) : Bool :=
  c = .char ',' || c = .char ';' || c = .char '\n' || c = .char '{' || c = .char '}'

end CodePoint

/-- The key at the beginning of a text, bare or between two equal quotes, and the rest. -/
def cutKey (t : Text) : Option (Text × Text) :=
  match t with
  | [] => none
  | q :: r =>
    if q.isQuoteMark then
      match cutIdentifier r with
      | some (key, q' :: rest) => if q' = q then some (key, rest) else none
      | _ => none
    else cutIdentifier t

/-- A text after an optional question mark, blanks, a colon and blanks. -/
def afterColon (t : Text) : Option Text :=
  let r := match t with
    | .char '?' :: r => r
    | r => r
  match Text.trimLeft r with
  | .char ':' :: value => some (Text.trimLeft value)
  | _ => none

/-- The field at the beginning of a text, and the rest. -/
def cutField (t : Text) : Option (Entry × Text) :=
  match cutKey t with
  | none => none
  | some (key, r) =>
    match afterColon r with
    | some (c :: v) =>
      if c.endsValue then none
      else some (⟨key, Text.trim (c :: v.takeWhile (!·.endsValue))⟩, v.dropWhile (!·.endsValue))
    | _ => none

theorem length_cutKey_lt {t key rest : Text} (h : cutKey t = some (key, rest)) :
    rest.length < t.length := by
  cases t with
  | nil => simp [cutKey] at h
  | cons q r =>
    simp only [cutKey] at h
    split at h
    · split at h
      · rename_i heq
        have := length_cutIdentifier_lt heq
        split at h
        · simp only [Option.some.injEq, Prod.mk.injEq] at h
          rw [h.2] at this
          simp only [List.length_cons] at this ⊢
          omega
        · simp at h
      · simp at h
    · exact length_cutIdentifier_lt h

theorem length_afterColon_le {t value : Text} (h : afterColon t = some value) :
    value.length ≤ t.length := by
  have key : ∀ r v : Text, Text.trimLeft r = .char ':' :: v → (Text.trimLeft v).length ≤ r.length := by
    intro r v hv
    have h1 := Text.length_dropWhile_le CodePoint.isBlank r
    have h2 := Text.length_dropWhile_le CodePoint.isBlank v
    simp only [Text.trimLeft] at hv ⊢
    rw [hv] at h1
    simp only [List.length_cons] at h1
    omega
  simp only [afterColon] at h
  split at h
  · rename_i v hv
    simp only [Option.some.injEq] at h
    subst h
    split at hv
    · have := key _ _ hv
      simp only [List.length_cons]
      omega
    · exact key _ _ hv
  · simp at h

theorem length_cutField_lt {t rest : Text} {e : Entry} (h : cutField t = some (e, rest)) :
    rest.length < t.length := by
  simp only [cutField] at h
  split at h
  · simp at h
  · rename_i heq
    have h1 := length_cutKey_lt heq
    split at h
    · rename_i c v hv
      have h2 := length_afterColon_le hv
      split at h
      · simp at h
      · simp only [Option.some.injEq, Prod.mk.injEq] at h
        have h3 := Text.length_dropWhile_le (!·.endsValue) v
        rw [h.2] at h3
        simp only [List.length_cons] at h2
        omega
    · simp at h

/-- The fields of a data type, from left to right and without overlap. -/
def fields (t : Text) : List Entry :=
  match _h : cutField t with
  | some (e, rest) => e :: fields rest
  | none =>
    match t with
    | [] => []
    | _ :: r => fields r
termination_by t.length
decreasing_by
  · exact length_cutField_lt _h
  · simp

end CommentTags
