import CommentTags.TokenTree

/-!
Diagnostics, and the outcome of a run over the nodes of a source.
-/

namespace CommentTags

/-- A required tag that carries no type annotation. -/
structure Diagnostic where
  sourceFile : Text
  tag : Text
  /-- Index of the comment that holds the tag, from 0. -/
  commentIndex : Int
  content : Text := []
  deriving DecidableEq, Repr

def Diagnostic.message (d : Diagnostic) : Text :=
  text "Missing argument type or argument description for a parameter in " ++ d.sourceFile ++
    text " (tag '" ++ d.tag ++ text "' in comment " ++ Text.ofInt (d.commentIndex + 1) ++ text ")"

/-- The tree of a run, which an aborted run does not have, and what it reported. -/
structure Outcome where
  sourceFile : Text
  tree : Option TokenTree := none
  diagnostics : List Diagnostic := []
  deriving DecidableEq, Repr

/-- Why an outcome has no tree to offer. -/
inductive OutcomeError where
  | missingType (d : Diagnostic)
  | noTree (sourceFile : Text)
  deriving DecidableEq, Repr

def OutcomeError.message : OutcomeError → Text
  | missingType d => d.message
  | noTree source => text "No token tree was produced for " ++ source

namespace Outcome

def ok (o : Outcome) : Bool := o.tree.isSome && o.diagnostics.isEmpty

/-- The tree of an outcome without diagnostics. -/
def unwrap (o : Outcome) : Except OutcomeError TokenTree :=
  match o.diagnostics, o.tree with
  | d :: _, _ => .error (.missingType d)
  | [], none => .error (.noTree o.sourceFile)
  | [], some t => .ok t

end Outcome
end CommentTags
