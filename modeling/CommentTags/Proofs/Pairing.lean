import CommentTags.Pairing

/-!
What a whole run makes of its nodes. Each comment of the tree belongs to one comment node, and
holds the tokens of the first declaration before the next comment node. The machine is compared
with this rule by what it would still do to its tree: `claimedBy` gives a state the tokens that
the coming nodes owe to its current comment.
-/

namespace CommentTags

namespace SourceNode

def isComment (n : SourceNode) : Bool := n.kind = .comment

/-- Can this node claim a comment? -/
def isDeclaration (n : SourceNode) : Bool := n.kind = .dataType || n.kind = .proto

end SourceNode

/-- The tokens that a comment gets from the nodes `ns` after it: those of the first declaration
before the next comment. -/
def claimedTokens (ns : List SourceNode) : List Token :=
  match (ns.takeWhile (!·.isComment)).find? (·.isDeclaration) with
  | some n => declarationTokens n.kind n.content
  | none => []

/-- The comments of a list of nodes, each with the tokens that it claims. -/
def pairedComments (s : Settings) : List SourceNode → List Comment
  | [] => []
  | n :: ns =>
    if n.isComment then
      (Comment.ofText s n.content).append (claimedTokens ns) :: pairedComments s ns
    else pairedComments s ns

@[simp]
theorem claimedTokens_nil : claimedTokens [] = [] := rfl

theorem claimedTokens_cons (n : SourceNode) (ns : List SourceNode) :
    claimedTokens (n :: ns) =
      if n.isComment then []
      else if n.isDeclaration then declarationTokens n.kind n.content
      else claimedTokens ns := by
  cases hc : n.isComment with
  | true => simp [claimedTokens, hc]
  | false => cases hd : n.isDeclaration <;> simp [claimedTokens, hc, hd]

theorem pairedComments_cons_of_not_isComment {n : SourceNode} (h : n.isComment = false)
    (s : Settings) (ns : List SourceNode) : pairedComments s (n :: ns) = pairedComments s ns := by
  simp [pairedComments, h]

theorem length_pairedComments (s : Settings) (ns : List SourceNode) :
    (pairedComments s ns).length = ns.countP (·.isComment) := by
  induction ns with
  | nil => rfl
  | cons n ns ih =>
    cases h : n.isComment with
    | true => simp [pairedComments, h, ih]
    | false => simp [pairedComments, h, ih]

/-- The comment of the node behind `before`, by the number of comments in `before`. -/
theorem getElem?_pairedComments (s : Settings) (before : List SourceNode) (t : Text)
    (after : List SourceNode) :
    (pairedComments s (before ++ ⟨.comment, t⟩ :: after))[before.countP (·.isComment)]? =
      some ((Comment.ofText s t).append (claimedTokens after)) := by
  induction before with
  | nil => rfl
  | cons n before ih =>
    cases h : n.isComment with
    | true => simpa [pairedComments, h] using ih
    | false => simpa [pairedComments, h] using ih

/-- The settings of required tags have no part in what is extracted. -/
theorem pairedComments_requiredTags (s : Settings) (required : List Text) (ns : List SourceNode) :
    pairedComments { s with requiredTags := required } ns = pairedComments s ns := by
  induction ns with
  | nil => rfl
  | cons n ns ih =>
    simp only [pairedComments, ih]
    rfl

namespace TokenTree

@[simp]
theorem appendAt_nil (t : TokenTree) (i : Nat) : t.appendAt i [] = t := by
  have h : (Comment.append · []) = id := by
    funext c
    simp [Comment.append]
  simp [appendAt, h]

theorem appendAt_push_size (t : TokenTree) (c : Comment) (tokens : List Token) :
    (t.push c).appendAt t.size tokens = t.push (c.append tokens) := by
  simp [appendAt, push, size, List.modify_eq_take_drop]

end TokenTree

namespace Pairing

theorem feed_of_isComment {n : SourceNode} (h : n.isComment) (r : Run) (p : Pairing) :
    p.feed r n = p.feedComment r n.content := by
  have hk : n.kind = .comment := by simpa [SourceNode.isComment] using h
  simp [feed, Phase.accepts, hk]

/-- A node that is no comment counts only if it is a declaration and a comment waits for one. -/
theorem feed_of_not_isComment {n : SourceNode} (h : n.isComment = false) (r : Run)
    (p : Pairing) :
    p.feed r n =
      (if n.isDeclaration ∧ p.phase = .foundComment then p.feedDeclaration n else p, none) := by
  obtain ⟨k, t⟩ := n
  cases k with
  | comment => cases h
  | other => simp [feed, Phase.accepts, SourceNode.isDeclaration]
  | dataType => cases hp : p.phase <;> simp [feed, Phase.accepts, SourceNode.isDeclaration, hp]
  | proto => cases hp : p.phase <;> simp [feed, Phase.accepts, SourceNode.isDeclaration, hp]

/-- The state after a comment that does not stop the run. -/
def withComment (r : Run) (p : Pairing) (t : Text) : Pairing :=
  { phase := .foundComment
    tree := p.tree.push (Comment.ofText r.settings t)
    current := some p.tree.size
    diagnostics := p.diagnostics ++ (Comment.missing r.settings t).map (p.diagnostic r) }

theorem feedComment_goes_on {r : Run} {t : Text}
    (h : r.failFast = false ∨ Comment.missing r.settings t = []) (p : Pairing) :
    p.feedComment r t = (p.withComment r t, none) := by
  rcases h with h | h <;> simp [feedComment, withComment, h]

/-- The tree of a state once the nodes `ns` have been heard for its current comment. -/
def claimedBy (p : Pairing) (ns : List SourceNode) : TokenTree :=
  match p.phase, p.current with
  | .foundComment, some i => p.tree.appendAt i (claimedTokens ns)
  | _, _ => p.tree

theorem claimedBy_of_no_tokens {p : Pairing} {ns : List SourceNode} (h : claimedTokens ns = []) :
    p.claimedBy ns = p.tree := by
  unfold claimedBy
  split
  · rw [h, TokenTree.appendAt_nil]
  · rfl

theorem claimedBy_withComment (r : Run) (p : Pairing) (t : Text) (ns : List SourceNode) :
    (p.withComment r t).claimedBy ns =
      p.tree.push ((Comment.ofText r.settings t).append (claimedTokens ns)) :=
  TokenTree.appendAt_push_size _ _ _

theorem claimedBy_feed_of_not_isComment {n : SourceNode} (h : n.isComment = false) (r : Run)
    (p : Pairing) (ns : List SourceNode) :
    (p.feed r n).1.claimedBy ns = p.claimedBy (n :: ns) := by
  rw [feed_of_not_isComment h]
  by_cases hp : p.phase = .foundComment
  · cases hc : p.current with
    | none => simp [claimedBy, feedDeclaration, hp, hc]
    | some i =>
      cases hd : n.isDeclaration <;>
        simp [claimedBy, feedDeclaration, hp, hc, claimedTokens_cons, h, hd]
  · simp only [hp, and_false, ↓reduceIte, claimedBy]
    split
    · contradiction
    · rfl

/-- **Step.** A node moves from the nodes to come into the tree without changing what the whole
amounts to. -/
theorem feed_claimedBy {r : Run} (hr : r.failFast = false) (p : Pairing) (n : SourceNode)
    (ns : List SourceNode) :
    ((p.feed r n).1.claimedBy ns).comments ++ pairedComments r.settings ns =
      (p.claimedBy (n :: ns)).comments ++ pairedComments r.settings (n :: ns) := by
  cases hn : n.isComment with
  | true =>
    have hnone : claimedTokens (n :: ns) = [] := by simp [claimedTokens_cons, hn]
    rw [feed_of_isComment hn, feedComment_goes_on (.inl hr), claimedBy_withComment,
      claimedBy_of_no_tokens hnone]
    simp [pairedComments, hn]
  | false =>
    rw [claimedBy_feed_of_not_isComment hn, pairedComments_cons_of_not_isComment hn]

theorem feed_collecting_goes_on {r : Run} (hr : r.failFast = false) (p : Pairing)
    (n : SourceNode) : (p.feed r n).2 = none := by
  cases hn : n.isComment with
  | true => rw [feed_of_isComment hn, feedComment_goes_on (.inl hr)]
  | false => rw [feed_of_not_isComment hn]

theorem feedAll_cons_of_goes_on {r : Run} {p : Pairing} {n : SourceNode}
    (h : (p.feed r n).2 = none) (ns : List SourceNode) :
    p.feedAll r (n :: ns) = (p.feed r n).1.feedAll r ns := by
  rw [feedAll]
  split
  · rename_i q hq
    rw [hq]
  · rename_i q d hq
    simp [hq] at h

/-- **Run.** A collecting run reaches the end of its nodes, and its tree is what the state it
started from and the nodes amount to. -/
theorem feedAll_collecting {r : Run} (hr : r.failFast = false) (p : Pairing)
    (ns : List SourceNode) :
    (p.feedAll r ns).2 = none ∧
      (p.feedAll r ns).1.tree.comments =
        (p.claimedBy ns).comments ++ pairedComments r.settings ns := by
  induction ns generalizing p with
  | nil =>
    rw [claimedBy_of_no_tokens claimedTokens_nil]
    simp [feedAll, pairedComments]
  | cons n ns ih =>
    rw [feedAll_cons_of_goes_on (feed_collecting_goes_on hr p n), ← feed_claimedBy hr]
    exact ih _

end Pairing

theorem Run.tree_parse_collecting {r : Run} (hr : r.failFast = false) (nodes : List SourceNode) :
    (r.parse nodes).tree = some ⟨pairedComments r.settings nodes⟩ := by
  obtain ⟨hgo, htree⟩ := Pairing.feedAll_collecting hr {} nodes
  have hstart : (Pairing.claimedBy {} nodes).comments = [] := rfl
  rw [hstart, List.nil_append] at htree
  unfold Run.parse
  generalize Pairing.feedAll r {} nodes = final at hgo htree
  obtain ⟨p, stop⟩ := final
  cases hgo
  simp [Pairing.outcome, ← htree]

/-- A collecting run gives a tree with one comment for each comment node, in order. The comment of
the node with text `t` holds the description and the tags of `t`, then the tokens of the first
declaration among the nodes after it, if that comes before the next comment. -/
theorem Run.parse_pairs_first_declaration (sourceFile : Text) (s : Settings)
    (nodes : List SourceNode) :
    ∃ tree,
      (Run.parse { sourceFile := sourceFile, settings := s, failFast := false } nodes).tree =
        some tree ∧
      tree.size = nodes.countP (·.isComment) ∧
      ∀ before t after, nodes = before ++ ⟨.comment, t⟩ :: after →
        tree.comments[before.countP (·.isComment)]? =
          some ⟨descriptionToken s t :: (tagTokens s t ++ claimedTokens after)⟩ := by
  refine ⟨⟨pairedComments s nodes⟩, Run.tree_parse_collecting rfl nodes,
    length_pairedComments s nodes, ?_⟩
  rintro before t after rfl
  exact getElem?_pairedComments s before t after

end CommentTags
