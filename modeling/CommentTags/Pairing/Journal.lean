import CommentTags.Log
import CommentTags.Pairing

/-!
The log of a run. It is read off the nodes and the states between them, and takes no part in the
run.
-/

namespace CommentTags

def Phase.name : Phase → Text
  | starting => text "STARTING"
  | foundComment => text "FOUND_A_COMMENT"
  | lookingForComment => text "LOOKING_FOR_COMMENT"

namespace Pairing

def transition (a b : Phase) : LogLine :=
  ⟨.debug, .pairing, text "State " ++ a.name ++ text " -> " ++ b.name⟩

def ignored (k : NodeKind) (p : Phase) : LogLine :=
  ⟨.debug, .pairing, text "Ignoring " ++ k.name ++ text " node in state " ++ p.name⟩

def extracted (index tags : Nat) : LogLine :=
  ⟨.debug, .comment,
    text "Extracted comment " ++ Text.ofNat index ++ text " with " ++ Text.ofNat tags ++ text " tag(s)"⟩

/-- The log of a comment: nothing if it stops the run. -/
def commentLog (r : Run) (p : Pairing) (content : Text) : List LogLine :=
  let reports := (Comment.missing r.settings content).map (p.diagnostic r)
  if r.failFast && !reports.isEmpty then []
  else
    reports.map (⟨.warning, .pairing, ·.message⟩) ++
    [extracted p.tree.size (tagTokens r.settings content).length, transition p.phase .foundComment]

/-- The log of one node. -/
def log (r : Run) (p : Pairing) (n : SourceNode) : List LogLine :=
  if p.phase.accepts n.kind then
    match n.kind, p.current with
    | .comment, _ => p.commentLog r n.content
    | _, some _ => [transition p.phase .lookingForComment]
    | _, none => []
  else [ignored n.kind p.phase]

def logAll (r : Run) (p : Pairing) : List SourceNode → List LogLine
  | [] => []
  | n :: ns =>
    p.log r n ++
    match p.feed r n with
    | (q, none) => q.logAll r ns
    | (_, some _) => []

/-- The line that closes the log of a run. -/
def closing (r : Run) : Pairing × Option Diagnostic → LogLine
  | (_, some d) => ⟨.info, .pairing, text "Aborted " ++ r.sourceFile ++ text ": " ++ d.message⟩
  | (p, none) =>
    ⟨.info, .pairing,
      text "Extracted " ++ Text.ofNat p.tree.size ++ text " comment(s) from " ++ r.sourceFile ++
      text " with " ++ Text.ofNat p.diagnostics.length ++ text " diagnostic(s)"⟩

end Pairing

/-- The log of a run over the nodes of a source. -/
def Run.log (r : Run) (nodes : List SourceNode) : List LogLine :=
  Pairing.logAll r {} nodes ++ [Pairing.closing r (Pairing.feedAll r {} nodes)]

end CommentTags
