import CommentTags.Diagnostic
import CommentTags.Comment.Tags
import CommentTags.Comment.Declaration

/-!
Pairing of comments with declarations. A comment always opens a new comment of the tree; the first
declaration after it adds its tokens to it, and after that another comment must come before the
next declaration counts. Every other node is ignored.
-/

namespace CommentTags

inductive Phase where
  | starting
  | foundComment
  | lookingForComment
  deriving DecidableEq, Repr

def Phase.accepts : Phase → NodeKind → Bool
  | _, .comment => true
  | .foundComment, .dataType => true
  | .foundComment, .proto => true
  | _, _ => false

/-- What stays fixed during a run. -/
structure Run where
  sourceFile : Text := text "<string>"
  settings : Settings := {}
  /-- Stop at the first tag that lacks its type. -/
  failFast : Bool := true
  deriving DecidableEq, Repr

structure Pairing where
  phase : Phase := .starting
  tree : TokenTree := {}
  /-- Index of the comment that a declaration would claim. -/
  current : Option Nat := none
  diagnostics : List Diagnostic := []
  deriving DecidableEq, Repr

namespace Pairing

def diagnostic (r : Run) (p : Pairing) (t : Token) : Diagnostic :=
  { sourceFile := r.sourceFile, tag := t.label, commentIndex := p.tree.size, content := t.content }

/-- Takes in a comment. If the run fails fast and a tag lacks its type, the comment is left with
what stands before that tag, and nothing else changes. -/
def feedComment (r : Run) (p : Pairing) (content : Text) : Pairing × Option Diagnostic :=
  let reports := (Comment.missing r.settings content).map (p.diagnostic r)
  match r.failFast, reports with
  | true, d :: _ => ({ p with tree := p.tree.push (Comment.beforeMissing r.settings content) }, some d)
  | _, _ =>
    ({ phase := .foundComment
       tree := p.tree.push (Comment.ofText r.settings content)
       current := some p.tree.size
       diagnostics := p.diagnostics ++ reports }, none)

/-- Takes in a declaration for the current comment. -/
def feedDeclaration (p : Pairing) (n : SourceNode) : Pairing :=
  match p.current with
  | none => p
  | some i =>
    { p with
      tree := p.tree.appendAt i (declarationTokens n.kind n.content)
      phase := .lookingForComment }

/-- Takes in one node; the second component is the diagnostic that stops the run. -/
def feed (r : Run) (p : Pairing) (n : SourceNode) : Pairing × Option Diagnostic :=
  if p.phase.accepts n.kind then
    match n.kind with
    | .comment => p.feedComment r n.content
    | _ => (p.feedDeclaration n, none)
  else (p, none)

def feedAll (r : Run) (p : Pairing) : List SourceNode → Pairing × Option Diagnostic
  | [] => (p, none)
  | n :: ns =>
    match p.feed r n with
    | (q, none) => q.feedAll r ns
    | (q, some d) => (q, some d)

/-- The outcome of feeding some nodes: a run that was stopped has no tree and one diagnostic. -/
def outcome (r : Run) : Pairing × Option Diagnostic → Outcome
  | (_, some d) => { sourceFile := r.sourceFile, diagnostics := [d] }
  | (p, none) => { sourceFile := r.sourceFile, tree := some p.tree, diagnostics := p.diagnostics }

end Pairing

/-- A run over the nodes of a source. -/
def Run.parse (r : Run) (nodes : List SourceNode) : Outcome :=
  Pairing.outcome r (Pairing.feedAll r {} nodes)

/-- The tree of a source, unless a required tag lacks its type. -/
def Run.generate (r : Run) (nodes : List SourceNode) : Except OutcomeError TokenTree :=
  (Run.parse { r with failFast := true } nodes).unwrap

end CommentTags
