import CommentTags.Proofs.Pairing

/-!
What a run reports. The diagnostics of a run are read off its nodes by `reports`; a collecting
run keeps all of them, and a run that fails fast is the collecting run unless there is a first one,
which stops it.
-/

namespace CommentTags

/-- The diagnostic for a token of the comment with index `i`. -/
def Diagnostic.ofToken (file : Text) (i : Nat) (t : Token) : Diagnostic :=
  { sourceFile := file, tag := t.label, commentIndex := i, content := t.content }

/-- What is reported of a node before which there were `i` comments. -/
def nodeReports (file : Text) (s : Settings) (i : Nat) (n : SourceNode) : List Diagnostic :=
  if n.isComment then (Comment.missing s n.content).map (.ofToken file i) else []

/-- What is reported of some nodes before which there were `i` comments. -/
def reports (file : Text) (s : Settings) : Nat → List SourceNode → List Diagnostic
  | _, [] => []
  | i, n :: ns =>
    nodeReports file s i n ++ reports file s (if n.isComment then i + 1 else i) ns

namespace Pairing

/-- A declaration goes into a comment that is there and is not reported. -/
theorem feedDeclaration_keeps (p : Pairing) (n : SourceNode) :
    (p.feedDeclaration n).tree.size = p.tree.size ∧
      (p.feedDeclaration n).diagnostics = p.diagnostics := by
  unfold feedDeclaration
  split <;> simp

theorem size_feed_collecting {r : Run} (hr : r.failFast = false) (p : Pairing) (n : SourceNode) :
    (p.feed r n).1.tree.size = if n.isComment then p.tree.size + 1 else p.tree.size := by
  cases hn : n.isComment with
  | true =>
    rw [feed_of_isComment hn, feedComment_goes_on (.inl hr)]
    exact TokenTree.size_push _ _
  | false =>
    rw [feed_of_not_isComment hn]
    split <;> simp [feedDeclaration_keeps]

/-- **Step.** A collecting run adds what is reported of the node. -/
theorem diagnostics_feed_collecting {r : Run} (hr : r.failFast = false) (p : Pairing)
    (n : SourceNode) :
    (p.feed r n).1.diagnostics =
      p.diagnostics ++ nodeReports r.sourceFile r.settings p.tree.size n := by
  cases hn : n.isComment with
  | true =>
    rw [feed_of_isComment hn, feedComment_goes_on (.inl hr), nodeReports, if_pos hn]
    rfl
  | false =>
    have hnone : nodeReports r.sourceFile r.settings p.tree.size n = [] := by
      simp [nodeReports, hn]
    rw [feed_of_not_isComment hn, hnone, List.append_nil]
    split <;> simp [feedDeclaration_keeps]

/-- **Run.** A collecting run adds what is reported of its nodes. -/
theorem diagnostics_feedAll_collecting {r : Run} (hr : r.failFast = false) (p : Pairing)
    (ns : List SourceNode) :
    (p.feedAll r ns).1.diagnostics =
      p.diagnostics ++ reports r.sourceFile r.settings p.tree.size ns := by
  induction ns generalizing p with
  | nil => simp [feedAll, reports]
  | cons n ns ih =>
    rw [feedAll_cons_of_goes_on (feed_collecting_goes_on hr p n), ih,
      diagnostics_feed_collecting hr, size_feed_collecting hr, List.append_assoc]
    rfl

/-- **Step.** Failing fast makes no difference to a node of which nothing is reported. -/
theorem feed_failFast_of_no_reports {r : Run} {p : Pairing} {n : SourceNode}
    (h : nodeReports r.sourceFile r.settings p.tree.size n = []) :
    p.feed { r with failFast := true } n = p.feed { r with failFast := false } n := by
  cases hn : n.isComment with
  | true =>
    have hm : Comment.missing r.settings n.content = [] := by simpa [nodeReports, hn] using h
    rw [feed_of_isComment hn, feed_of_isComment hn,
      feedComment_goes_on (r := { r with failFast := true }) (.inr hm),
      feedComment_goes_on (.inl rfl)]
    rfl
  | false => rw [feed_of_not_isComment hn, feed_of_not_isComment hn]

/-- **Step.** The first report of a node stops a run that fails fast. -/
theorem feed_failFast_of_reports {r : Run} {p : Pairing} {n : SourceNode} {d : Diagnostic}
    {ds : List Diagnostic} (h : nodeReports r.sourceFile r.settings p.tree.size n = d :: ds) :
    (p.feed { r with failFast := true } n).2 = some d := by
  cases hn : n.isComment with
  | true =>
    rw [nodeReports, if_pos hn, List.map_eq_cons_iff] at h
    obtain ⟨m, ms, hm, rfl, -⟩ := h
    simp only [feed_of_isComment hn, feedComment, hm, List.map_cons]
    rfl
  | false => simp [nodeReports, hn] at h

theorem feedAll_cons_of_stops {r : Run} {p : Pairing} {n : SourceNode} {d : Diagnostic}
    (h : (p.feed r n).2 = some d) (ns : List SourceNode) : (p.feedAll r (n :: ns)).2 = some d := by
  rw [feedAll]
  split
  · rename_i q hq
    simp [hq] at h
  · rename_i q e hq
    simpa [hq] using h

/-- **Run.** As long as nothing is reported, both runs are in the same state, so the first report
of the one is what stops the other. -/
theorem feedAll_failFast (r : Run) (p : Pairing) (ns : List SourceNode) :
    match reports r.sourceFile r.settings p.tree.size ns with
    | [] => p.feedAll { r with failFast := true } ns = p.feedAll { r with failFast := false } ns
    | d :: _ => (p.feedAll { r with failFast := true } ns).2 = some d := by
  induction ns generalizing p with
  | nil => rfl
  | cons n ns ih =>
    rw [reports]
    cases hn : nodeReports r.sourceFile r.settings p.tree.size n with
    | cons d ds => exact feedAll_cons_of_stops (feed_failFast_of_reports hn) ns
    | nil =>
      have hgo := feed_collecting_goes_on (r := { r with failFast := false }) rfl p n
      have hsame := feed_failFast_of_no_reports hn
      rw [feedAll_cons_of_goes_on (hsame ▸ hgo), feedAll_cons_of_goes_on hgo, hsame,
        List.nil_append, ← size_feed_collecting (r := { r with failFast := false }) rfl]
      exact ih _

end Pairing

theorem Run.diagnostics_parse_collecting {r : Run} (hr : r.failFast = false)
    (nodes : List SourceNode) :
    (r.parse nodes).diagnostics = reports r.sourceFile r.settings 0 nodes := by
  have hgo := (Pairing.feedAll_collecting hr {} nodes).1
  have hds := Pairing.diagnostics_feedAll_collecting hr {} nodes
  unfold Run.parse
  generalize Pairing.feedAll r {} nodes = final at hgo hds
  obtain ⟨p, stop⟩ := final
  cases hgo
  exact hds

/-- A run that fails fast is the collecting run if that has no diagnostics; otherwise it has no
tree and the first diagnostic alone, and generating the tree fails with it. -/
theorem Run.parse_failFast_refines_collecting (r : Run) (nodes : List SourceNode) :
    let collected := Run.parse { r with failFast := false } nodes
    let fast := Run.parse { r with failFast := true } nodes
    (collected.diagnostics = [] →
      fast = collected ∧ ∃ tree, collected.tree = some tree ∧ r.generate nodes = .ok tree) ∧
    ∀ d ds, collected.diagnostics = d :: ds →
      fast.tree = none ∧ fast.diagnostics = [d] ∧ r.generate nodes = .error (.missingType d) := by
  intro collected fast
  have hrun := Pairing.feedAll_failFast r {} nodes
  have hreports : collected.diagnostics = reports r.sourceFile r.settings 0 nodes :=
    Run.diagnostics_parse_collecting rfl nodes
  have htree : collected.tree = some ⟨pairedComments r.settings nodes⟩ :=
    Run.tree_parse_collecting rfl nodes
  have hstart : (Pairing.tree {}).size = 0 := rfl
  rw [hstart, ← hreports] at hrun
  constructor
  · intro hnone
    rw [hnone] at hrun
    have hsame : fast = collected := by
      simp only [fast, collected, Run.parse, hrun]
      rfl
    refine ⟨hsame, _, htree, ?_⟩
    change fast.unwrap = _
    rw [hsame, Outcome.unwrap, hnone, htree]
  · intro d ds hcons
    rw [hcons] at hrun
    have hfast : fast = { sourceFile := r.sourceFile, diagnostics := [d] } := by
      simp only [fast, Run.parse]
      generalize Pairing.feedAll { r with failFast := true } {} nodes = final at hrun
      obtain ⟨p, stop⟩ := final
      cases hrun
      rfl
    refine ⟨by rw [hfast], by rw [hfast], ?_⟩
    change fast.unwrap = _
    rw [hfast]
    rfl

/-! The same diagnostics, read off the tree. -/

/-- The texts of the comments among some nodes. -/
def commentTexts (ns : List SourceNode) : List Text := (ns.filter (·.isComment)).map (·.content)

/-- The tags among the tokens of a comment with text `t`: the description stands before them, and
the entries of a declaration after them. -/
def Comment.tagsOf (s : Settings) (t : Text) (c : Comment) : List Token :=
  (c.children.drop 1).take (tags s.marker t).length

/-- The tags of some comments with the index of their comment, counted from `i`, in order; `texts`
are the texts of the comments. -/
def tagWalk (s : Settings) (i : Nat) (texts : List Text) (comments : List Comment) :
    List (Nat × Token) :=
  ((texts.zip comments).zipIdx i).flatMap fun ((t, c), j) => (c.tagsOf s t).map (j, ·)

theorem tagsOf_ofText_append (s : Settings) (t : Text) (tokens : List Token) :
    ((Comment.ofText s t).append tokens).tagsOf s t = tagTokens s t := by
  simp [Comment.tagsOf, Comment.ofText, Comment.append, tagTokens]

theorem tagWalk_cons (s : Settings) (i : Nat) (t : Text) (texts : List Text) (c : Comment)
    (cs : List Comment) :
    tagWalk s i (t :: texts) (c :: cs) =
      (c.tagsOf s t).map (i, ·) ++ tagWalk s (i + 1) texts cs := rfl

theorem lacksType_eq (s : Settings) :
    Token.lacksType s = fun t => decide (t.types = none ∧ t.label ∈ s.requiredTags) := by
  funext t
  cases h : t.types <;> simp [Token.lacksType, Settings.requires, h]

/-- The reports are those tags of the tree that are required and have no type. -/
theorem reports_eq_tagWalk (file : Text) (s : Settings) (i : Nat) (ns : List SourceNode) :
    reports file s i ns =
      ((tagWalk s i (commentTexts ns) (pairedComments s ns)).filter
        fun k => k.2.types = none ∧ k.2.label ∈ s.requiredTags).map
          fun k => .ofToken file k.1 k.2 := by
  induction ns generalizing i with
  | nil => rfl
  | cons n ns ih =>
    cases h : n.isComment with
    | false => simp [reports, nodeReports, h, ih, commentTexts, pairedComments]
    | true =>
      have htexts : commentTexts (n :: ns) = n.content :: commentTexts ns := by
        simp [commentTexts, h]
      simp only [reports, nodeReports, pairedComments, h, ↓reduceIte]
      rw [htexts, tagWalk_cons, tagsOf_ofText_append, ih, List.filter_append, List.map_append,
        Comment.missing, lacksType_eq, List.filter_map, List.map_map]
      rfl

theorem reports_requiredTags (file : Text) (s : Settings) (more : List Text)
    (hmore : s.requiredTags ⊆ more) (i : Nat) (ns : List SourceNode) :
    reports file s i ns =
      (reports file { s with requiredTags := more } i ns).filter (·.tag ∈ s.requiredTags) := by
  rw [reports_eq_tagWalk, reports_eq_tagWalk, pairedComments_requiredTags s more, List.filter_map,
    List.filter_filter]
  -- both sides now filter the same tags
  change _ = (List.filter _ (tagWalk s i (commentTexts ns) (pairedComments s ns))).map _
  congr 2
  funext k
  have himp : k.2.label ∈ s.requiredTags → k.2.label ∈ more := fun h => hmore h
  by_cases hk : k.2.label ∈ s.requiredTags
  · simp [Diagnostic.ofToken, hk, himp hk]
  · simp [Diagnostic.ofToken, hk]

/-- The comment of a text holds its tags behind its description. -/
theorem getElem?_pairedComments_of_text {s : Settings} {ns : List SourceNode} {i : Nat} {t : Text}
    (h : (commentTexts ns)[i]? = some t) :
    ∃ declared, (pairedComments s ns)[i]? =
      some ⟨descriptionToken s t :: (tagTokens s t ++ declared)⟩ := by
  induction ns generalizing i with
  | nil => simp [commentTexts] at h
  | cons n ns ih =>
    cases hn : n.isComment with
    | false =>
      rw [pairedComments_cons_of_not_isComment hn]
      exact ih (by simpa [commentTexts, hn] using h)
    | true =>
      cases i with
      | zero =>
        have ht : n.content = t := by simpa [commentTexts, hn] using h
        subst ht
        exact ⟨claimedTokens ns, by simp [pairedComments, hn, Comment.ofText, Comment.append]⟩
      | succ i =>
        simpa [pairedComments, hn] using ih (by simpa [commentTexts, hn] using h)

/-- The diagnostics of a collecting run are the tags of its tree that are required and have no
type, in order; the tags stand in the tree as they were read from the texts of the comments. Which
tags are required makes no difference to the tree, and requiring more only adds diagnostics. -/
theorem Run.diagnostics_parse_exact (sourceFile : Text) (s : Settings) (nodes : List SourceNode) :
    let collect (s : Settings) : Outcome :=
      Run.parse { sourceFile := sourceFile, settings := s, failFast := false } nodes
    ∃ tree : TokenTree,
      (collect s).tree = some tree ∧
      tree.size = (commentTexts nodes).length ∧
      (∀ (i : Nat) (t : Text), (commentTexts nodes)[i]? = some t →
        ∃ declared,
          tree.comments[i]? = some ⟨descriptionToken s t :: (tagTokens s t ++ declared)⟩) ∧
      (collect s).diagnostics =
        ((tagWalk s 0 (commentTexts nodes) tree.comments).filter
          fun k => k.2.types = none ∧ k.2.label ∈ s.requiredTags).map
            (fun k => ⟨sourceFile, k.2.label, k.1, k.2.content⟩) ∧
      (∀ required, (collect { s with requiredTags := required }).tree = some tree) ∧
      ∀ more, s.requiredTags ⊆ more →
        (collect s).diagnostics =
          (collect { s with requiredTags := more }).diagnostics.filter (·.tag ∈ s.requiredTags) ∧
        (collect s).diagnostics.Sublist (collect { s with requiredTags := more }).diagnostics := by
  intro collect
  have hreports (s : Settings) : (collect s).diagnostics = reports sourceFile s 0 nodes :=
    Run.diagnostics_parse_collecting rfl nodes
  refine ⟨⟨pairedComments s nodes⟩, Run.tree_parse_collecting rfl nodes, ?_,
    fun i t => getElem?_pairedComments_of_text, ?_, fun required => ?_, fun more hmore => ?_⟩
  · simp [TokenTree.size, length_pairedComments, commentTexts, List.countP_eq_length_filter]
  · rw [hreports]
    exact reports_eq_tagWalk sourceFile s 0 nodes
  · rw [← pairedComments_requiredTags s required]
    exact Run.tree_parse_collecting rfl nodes
  · have heq : (collect s).diagnostics =
        (collect { s with requiredTags := more }).diagnostics.filter
          (·.tag ∈ s.requiredTags) := by
      rw [hreports, hreports]
      exact reports_requiredTags sourceFile s more hmore 0 nodes
    exact ⟨heq, heq ▸ List.filter_sublist⟩

end CommentTags
