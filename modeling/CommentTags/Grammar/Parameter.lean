import CommentTags.Grammar.Identifier
import CommentTags.Text.Blank

/-!
Parameters of a function prototype: the pieces of its first parenthesised list between the commas
that stand in no bracket and no quoted string.
-/

namespace CommentTags

namespace CodePoint

/-- The bracket that closes this one. -/
def closer? : CodePoint → Option CodePoint
  | .char '(' => some (.char ')')
  | .char '[' => some (.char ']')
  | .char '{' => some (.char '}')
  | .char '<' => some (.char '>')
  | _ => none

def opensString (c : CodePoint) : Bool :=
  c = .char '\x27' || c = .char '\x22' || c = .char '\x60'

end CodePoint

/-- Where the scan of a parameter list stands. -/
structure ListScan where
  /-- The code point just read. -/
  prev : CodePoint
  /-- The quote of the string that is open. -/
  quote : Option CodePoint := none
  /-- The brackets that are to be closed, innermost first. -/
  closers : List CodePoint := []
  /-- The piece read so far, last code point first. -/
  piece : Text := []
  deriving DecidableEq, Repr

/-- What one code point does to the scan. -/
inductive ListStep where
  | within (next : ListScan)
  | comma
  | done
  deriving DecidableEq, Repr

/-- A quote after a backslash does not end its string, and the `>` of an arrow closes no bracket. -/
def ListScan.step (s : ListScan) (c : CodePoint) : ListStep :=
  let s' := { s with prev := c, piece := c :: s.piece }
  match s.quote with
  | some q => .within { s' with quote := if c = q ∧ s.prev ≠ .char '\\' then none else some q }
  | none =>
    if c.opensString then .within { s' with quote := some c }
    else match c.closer? with
      | some k => .within { s' with closers := k :: s.closers }
      | none =>
        match s.closers with
        | k :: ks =>
          if c = k ∧ ¬ (c = .char '>' ∧ s.prev = .char '=') then .within { s' with closers := ks }
          else .within s'
        | [] =>
          if c = .char ',' then .comma
          else if c = .char ')' then .done
          else .within s'

/-- The pieces of a list that is already open, up to the parenthesis that closes it. -/
def splitList (s : ListScan) : Text → Option (List Text)
  | [] => none
  | c :: r =>
    match s.step c with
    | .within s' => splitList s' r
    | .comma => (splitList { prev := c } r).map (s.piece.reverse :: ·)
    | .done => some [s.piece.reverse]

/-- The nonblank pieces of the first parenthesised list, if the text holds a complete one. -/
def splitParameters (t : Text) : Option (List Text) :=
  match t.dropWhile (· ≠ .char '(') with
  | [] => none
  | p :: r => (splitList { prev := p } r).map (·.filter (!·.all CodePoint.isBlank))

/-- A parameter is named by the identifier that leads it, after three dots if they are there. -/
def parameterName (piece : Text) : Option Text :=
  let t := piece.trimLeft
  let t := if (text "...").isPrefixOf t then t.drop 3 else t
  (cutIdentifier t).map (·.1)

def parameters (t : Text) : List Entry :=
  ((splitParameters t).getD []).filterMap fun piece =>
    (parameterName piece).map (⟨·, piece.trim⟩)

end CommentTags
