import CommentTags.Proofs.Pairing

/-!
Nodes fed one at a time by a caller who goes on after a node that stops the run. Such a node leaves
a comment behind that holds part of its tags, while the phase and the current comment stay as they
were. `Fed` says what one node can do to a state; every invariant of the states that a caller can
reach is derived from it.
-/

namespace CommentTags

namespace TokenTree

/-- Every comment of `t` is still at its place in `u`, with its tokens in front. -/
def GrowsTo (t u : TokenTree) : Prop :=
  ∀ (i : Nat) (c : Comment), t.comments[i]? = some c →
    ∃ more, u.comments[i]? = some (c.append more)

theorem GrowsTo.refl (t : TokenTree) : t.GrowsTo t :=
  fun _ c h => ⟨[], by simp [Comment.append, h]⟩

theorem GrowsTo.trans {t u v : TokenTree} (h : t.GrowsTo u) (h' : u.GrowsTo v) : t.GrowsTo v := by
  intro i c hc
  obtain ⟨more, hu⟩ := h i c hc
  obtain ⟨again, hv⟩ := h' i _ hu
  exact ⟨more ++ again, by simpa [Comment.append] using hv⟩

theorem getElem?_push_of_lt {t : TokenTree} {i : Nat} (h : i < t.size) (c : Comment) :
    (t.push c).comments[i]? = t.comments[i]? :=
  List.getElem?_append_left h

theorem getElem?_appendAt (t : TokenTree) (i j : Nat) (tokens : List Token) :
    (t.appendAt i tokens).comments[j]? =
      if i = j then t.comments[j]?.map (·.append tokens) else t.comments[j]? := by
  simp only [appendAt, List.getElem?_modify]
  split <;> simp

theorem growsTo_push (t : TokenTree) (c : Comment) : t.GrowsTo (t.push c) := by
  intro i d hd
  have hi : i < t.size := (List.getElem?_eq_some_iff.mp hd).1
  exact ⟨[], by rw [getElem?_push_of_lt hi, hd]; simp [Comment.append]⟩

theorem growsTo_appendAt (t : TokenTree) (i : Nat) (tokens : List Token) :
    t.GrowsTo (t.appendAt i tokens) := by
  intro j c hc
  rw [getElem?_appendAt, hc]
  split
  · exact ⟨tokens, rfl⟩
  · exact ⟨[], by simp [Comment.append]⟩

end TokenTree

namespace Pairing

/-- The state after some nodes, if the caller goes on behind every node that stops. -/
def feedEach (r : Run) : Pairing → List SourceNode → Pairing
  | p, [] => p
  | p, n :: ns => feedEach r (p.feed r n).1 ns

theorem eq_of_isComment {n : SourceNode} (h : n.isComment) : n = ⟨.comment, n.content⟩ := by
  have hk : n.kind = .comment := by simpa [SourceNode.isComment] using h
  rw [← hk]

theorem not_isComment_of_isDeclaration {n : SourceNode} (h : n.isDeclaration) :
    n.isComment = false := by
  obtain ⟨k, t⟩ := n
  cases k with
  | comment => cases h
  | dataType => rfl
  | proto => rfl
  | other => rfl

/-- The state after a comment that stopped behind the tags `done`. -/
def withPart (r : Run) (p : Pairing) (t : Text) (done : List Token) : Pairing :=
  { p with tree := p.tree.push ⟨descriptionToken r.settings t :: done⟩ }

/-- The state after a declaration for the comment with index `i`. -/
def withClaim (p : Pairing) (i : Nat) (tokens : List Token) : Pairing :=
  { p with tree := p.tree.appendAt i tokens, phase := .lookingForComment }

/-- What one node can do to a state. -/
inductive Fed (r : Run) (p : Pairing) (n : SourceNode) : Pairing × Option Diagnostic → Prop where
  | ignored (hn : n.isComment = false)
      (hd : n.isDeclaration → p.phase = .foundComment → p.current = none) : Fed r p n (p, none)
  | complete (hn : n.isComment)
      (hr : r.failFast = false ∨ Comment.missing r.settings n.content = []) :
      Fed r p n (p.withComment r n.content, none)
  | stopped (hn : n.isComment) (hr : r.failFast) {done rest : List Token} {bad : Token}
      (htags : tagTokens r.settings n.content = done ++ bad :: rest)
      (hdone : ∀ k ∈ done, k.lacksType r.settings = false) (hbad : bad.lacksType r.settings) :
      Fed r p n (p.withPart r n.content done, some (p.diagnostic r bad))
  | claimed (hn : n.isDeclaration) (hp : p.phase = .foundComment) {i : Nat}
      (hi : p.current = some i) :
      Fed r p n (p.withClaim i (declarationTokens n.kind n.content), none)

theorem fed_comment {n : SourceNode} (hn : n.isComment) (r : Run) (p : Pairing) :
    Fed r p n (p.feedComment r n.content) := by
  cases hr : r.failFast with
  | false =>
    rw [feedComment_goes_on (.inl hr)]
    exact .complete hn (.inl hr)
  | true =>
    cases hm : Comment.missing r.settings n.content with
    | nil =>
      rw [feedComment_goes_on (.inr hm)]
      exact .complete hn (.inr hm)
    | cons bad others =>
      obtain ⟨done, rest, htags, hdone, hbad, -⟩ := List.filter_eq_cons_iff.mp hm
      have hdone : ∀ k ∈ done, k.lacksType r.settings = false := by simpa using hdone
      have hcut : (tagTokens r.settings n.content).takeWhile (!·.lacksType r.settings) = done := by
        rw [htags, List.takeWhile_append_of_pos (by simpa using hdone)]
        simp [hbad]
      have hstop : p.feedComment r n.content =
          (p.withPart r n.content done, some (p.diagnostic r bad)) := by
        simp only [feedComment, hr, hm, List.map_cons, Comment.beforeMissing, hcut]
        rfl
      rw [hstop]
      exact .stopped hn hr htags hdone hbad

/-- **Step.** -/
theorem fed_feed (r : Run) (p : Pairing) (n : SourceNode) : Fed r p n (p.feed r n) := by
  cases hn : n.isComment with
  | true =>
    rw [feed_of_isComment hn]
    exact fed_comment hn r p
  | false =>
    rw [feed_of_not_isComment hn]
    split
    · rename_i hd
      cases hc : p.current with
      | none =>
        have hp : p.feedDeclaration n = p := by simp [feedDeclaration, hc]
        rw [hp]
        exact .ignored hn fun _ _ => hc
      | some i =>
        have hp : p.feedDeclaration n = p.withClaim i (declarationTokens n.kind n.content) := by
          simp [feedDeclaration, withClaim, hc]
        rw [hp]
        exact .claimed hd.1 hd.2 hc
    · rename_i hd
      exact .ignored hn fun hdecl hp => absurd ⟨hdecl, hp⟩ hd

/-- A node stops if it is a comment of a run that fails fast, and one of its tags lacks its type. -/
theorem isSome_feed (r : Run) (p : Pairing) (n : SourceNode) :
    (p.feed r n).2.isSome ↔
      n.isComment ∧ r.failFast ∧ Comment.missing r.settings n.content ≠ [] := by
  have h := fed_feed r p n
  generalize p.feed r n = out at h ⊢
  cases h with
  | ignored hn => simp [hn]
  | complete hn hr =>
    rcases hr with hr | hr
    · simp [hr]
    · simp [hr]
  | stopped hn hr htags hdone hbad =>
    have hmissing : Comment.missing r.settings n.content ≠ [] := by
      rw [Comment.missing, htags]
      simp [hbad]
    simp [hn, hr, hmissing]
  | claimed hn => simp [not_isComment_of_isDeclaration hn]

theorem growsTo_feed (r : Run) (p : Pairing) (n : SourceNode) :
    p.tree.GrowsTo (p.feed r n).1.tree := by
  have h := fed_feed r p n
  generalize p.feed r n = out at h ⊢
  cases h with
  | ignored => exact .refl _
  | complete => exact TokenTree.growsTo_push _ _
  | stopped => exact TokenTree.growsTo_push _ _
  | claimed => exact TokenTree.growsTo_appendAt _ _ _

theorem growsTo_feedEach (r : Run) (p : Pairing) (ns : List SourceNode) :
    p.tree.GrowsTo (p.feedEach r ns).tree := by
  induction ns generalizing p with
  | nil => exact .refl _
  | cons n ns ih => exact (growsTo_feed r p n).trans (ih _)

/-! The comment that a declaration claims: it is there, and it is claimed once. -/

/-- The current comment is one of the tree, and there is one while a declaration is accepted. -/
structure CurrentInTree (p : Pairing) : Prop where
  lt_size : ∀ i, p.current = some i → i < p.tree.size
  isSome_of_found : p.phase = .foundComment → p.current.isSome

theorem currentInTree_start : CurrentInTree {} := by
  constructor
  · intro i hi
    cases hi
  · intro hp
    cases hp

theorem currentInTree_feed {p : Pairing} (h : p.CurrentInTree) (r : Run) (n : SourceNode) :
    (p.feed r n).1.CurrentInTree := by
  have hfed := fed_feed r p n
  generalize p.feed r n = out at hfed ⊢
  cases hfed with
  | ignored => exact h
  | complete =>
    refine ⟨fun i hi => ?_, fun _ => rfl⟩
    obtain rfl : p.tree.size = i := by simpa [withComment] using hi
    simp [withComment]
  | stopped =>
    refine ⟨fun i hi => ?_, h.isSome_of_found⟩
    have := h.lt_size i hi
    simp only [withPart, TokenTree.size_push]
    omega
  | claimed =>
    refine ⟨fun i hi => ?_, fun hp => ?_⟩
    · simpa [withClaim] using h.lt_size i hi
    · simp [withClaim] at hp

theorem currentInTree_feedEach {p : Pairing} (h : p.CurrentInTree) (r : Run)
    (ns : List SourceNode) : (p.feedEach r ns).CurrentInTree := by
  induction ns generalizing p with
  | nil => exact h
  | cons n ns ih => exact ih (currentInTree_feed h r n)

/-- The next declaration claims the comment with index `i`. -/
def Waits (i : Nat) (p : Pairing) : Prop := p.phase = .foundComment ∧ p.current = some i

/-- The comment with index `i` is there and waits for no declaration. -/
def Settled (i : Nat) (p : Pairing) : Prop := i < p.tree.size ∧ ¬ p.Waits i

/-- **Step.** A settled comment is never touched again, since the comments to come have other
indexes. -/
theorem settled_feed {i : Nat} {p : Pairing} (h : p.Settled i) (r : Run) (n : SourceNode) :
    (p.feed r n).1.Settled i ∧ (p.feed r n).1.tree.comments[i]? = p.tree.comments[i]? := by
  obtain ⟨hlt, hwait⟩ := h
  have hfed := fed_feed r p n
  generalize p.feed r n = out at hfed ⊢
  cases hfed with
  | ignored => exact ⟨⟨hlt, hwait⟩, rfl⟩
  | complete =>
    refine ⟨⟨?_, ?_⟩, TokenTree.getElem?_push_of_lt hlt _⟩
    · simp only [withComment, TokenTree.size_push]
      omega
    · simp only [Waits, withComment, Option.some.injEq, true_and]
      omega
  | stopped =>
    refine ⟨⟨?_, hwait⟩, TokenTree.getElem?_push_of_lt hlt _⟩
    simp only [withPart, TokenTree.size_push]
    omega
  | claimed hn hp hj =>
    rename_i j
    have hne : j ≠ i := by
      rintro rfl
      exact hwait ⟨hp, hj⟩
    refine ⟨⟨by simpa [withClaim] using hlt, by simp [Waits, withClaim]⟩, ?_⟩
    simp [withClaim, TokenTree.getElem?_appendAt, hne]

/-- **Run.** -/
theorem settled_feedEach {i : Nat} {p : Pairing} (h : p.Settled i) (r : Run)
    (ns : List SourceNode) : (p.feedEach r ns).tree.comments[i]? = p.tree.comments[i]? := by
  induction ns generalizing p with
  | nil => rfl
  | cons n ns ih =>
    obtain ⟨hsettled, hsame⟩ := settled_feed h r n
    exact (ih hsettled).trans hsame

/-- A declaration can change the current comment only, and only while that waits for one. -/
theorem claimed_of_changed {r : Run} {p : Pairing} {n : SourceNode} {i : Nat}
    (hn : n.isDeclaration)
    (hi : (p.feed r n).1.tree.comments[i]? ≠ p.tree.comments[i]?) :
    p.Waits i ∧ i < p.tree.size ∧
      p.feed r n = (p.withClaim i (declarationTokens n.kind n.content), none) := by
  have hcomment := not_isComment_of_isDeclaration hn
  have hfed := fed_feed r p n
  generalize p.feed r n = out at hfed hi ⊢
  cases hfed with
  | ignored => exact absurd rfl hi
  | complete h => simp [hcomment] at h
  | stopped h => simp [hcomment] at h
  | claimed _ hp hj =>
    rename_i j
    simp only [withClaim, TokenTree.getElem?_appendAt] at hi
    split at hi
    · rename_i hij
      subst hij
      have hlt : j < p.tree.size := by
        refine Nat.lt_of_not_le fun hge => ?_
        have hnone : p.tree.comments[j]? = none := List.getElem?_eq_none hge
        simp [hnone] at hi
      exact ⟨⟨hp, hj⟩, hlt, rfl⟩
    · exact absurd rfl hi

/-- A comment that a declaration has changed is settled. -/
theorem settled_of_changed {r : Run} {p : Pairing} {n : SourceNode} {i : Nat}
    (hn : n.isDeclaration)
    (hi : (p.feed r n).1.tree.comments[i]? ≠ p.tree.comments[i]?) :
    (p.feed r n).1.Settled i := by
  obtain ⟨-, hlt, hfeed⟩ := claimed_of_changed hn hi
  rw [hfeed]
  exact ⟨by simpa [withClaim] using hlt, by simp [Waits, withClaim]⟩

/-- A node that stops leaves the state as it was, but for the part of its comment. -/
theorem feed_of_stops {r : Run} {p : Pairing} {n : SourceNode} {d : Diagnostic}
    (h : (p.feed r n).2 = some d) :
    ∃ done bad rest,
      tagTokens r.settings n.content = done ++ bad :: rest ∧
      (∀ k ∈ done, k.lacksType r.settings = false) ∧ bad.lacksType r.settings ∧
      d = p.diagnostic r bad ∧ (p.feed r n).1 = p.withPart r n.content done := by
  have hfed := fed_feed r p n
  generalize p.feed r n = out at hfed h ⊢
  cases hfed with
  | ignored => cases h
  | complete => cases h
  | stopped _ _ htags hdone hbad =>
    cases h
    exact ⟨_, _, _, htags, hdone, hbad, rfl, rfl⟩
  | claimed => cases h

theorem feed_of_goes_on {r : Run} {p : Pairing} {n : SourceNode} (hin : p.CurrentInTree)
    (h : (p.feed r n).2 = none) :
    (n.isComment = false ∧ (n.isDeclaration → p.phase ≠ .foundComment) ∧ (p.feed r n).1 = p) ∨
      (n.isComment ∧ (p.feed r n).1 = p.withComment r n.content) ∨
      (n.isDeclaration ∧ p.phase = .foundComment ∧ ∃ i < p.tree.size,
        (p.feed r n).1 = p.withClaim i (declarationTokens n.kind n.content)) := by
  have hfed := fed_feed r p n
  generalize p.feed r n = out at hfed h ⊢
  cases hfed with
  | ignored hn hd =>
    refine .inl ⟨hn, fun hdecl hp => ?_, rfl⟩
    have hsome := hin.isSome_of_found hp
    simp [hd hdecl hp] at hsome
  | complete hn => exact .inr (.inl ⟨hn, rfl⟩)
  | stopped => cases h
  | claimed hn hp hi => exact .inr (.inr ⟨hn, hp, _, hin.lt_size _ hi, rfl⟩)

end Pairing

/-- A caller feeds nodes one by one and goes on after a node that stops, which is a comment with a
tag that lacks its type. A node that stops adds one comment, with the description and the tags before
that tag, and changes nothing else. Every other comment is added as a whole, a declaration that is
accepted appends its tokens to one comment that is there, and the other nodes change nothing. So no
comment and no token is lost, and a comment that a declaration has changed stays as it is. -/
theorem Run.feed_contained (r : Run) (before : List SourceNode) (n : SourceNode) :
    let p := Pairing.feedEach r {} before
    let q := (p.feed r n).1
    ((p.feed r n).2.isSome ↔
      n.isComment ∧ r.failFast ∧ Comment.missing r.settings n.content ≠ []) ∧
    (∀ d, (p.feed r n).2 = some d →
      ∃ done bad rest,
        tagTokens r.settings n.content = done ++ bad :: rest ∧
        (∀ k ∈ done, k.lacksType r.settings = false) ∧ bad.lacksType r.settings ∧
        d = p.diagnostic r bad ∧
        q = { p with
          tree := ⟨p.tree.comments ++ [⟨descriptionToken r.settings n.content :: done⟩]⟩ }) ∧
    ((p.feed r n).2 = none →
      (n.isComment = false ∧ (n.isDeclaration → p.phase ≠ .foundComment) ∧ q = p) ∨
      (n.isComment ∧
        q.tree.comments = p.tree.comments ++ [Comment.ofText r.settings n.content]) ∨
      (n.isDeclaration ∧ p.phase = .foundComment ∧ ∃ i < p.tree.size,
        q.tree = p.tree.appendAt i (declarationTokens n.kind n.content))) ∧
    (∀ after, p.tree.GrowsTo (q.feedEach r after).tree) ∧
    ∀ i : Nat, n.isDeclaration → q.tree.comments[i]? ≠ p.tree.comments[i]? →
      ∀ after, (q.feedEach r after).tree.comments[i]? = q.tree.comments[i]? := by
  intro p q
  have hin : p.CurrentInTree := Pairing.currentInTree_feedEach Pairing.currentInTree_start r before
  refine ⟨Pairing.isSome_feed r p n, fun d hd => Pairing.feed_of_stops hd, fun hgo => ?_,
    fun after => ?_, fun i hn hi after => ?_⟩
  · rcases Pairing.feed_of_goes_on hin hgo with hq | ⟨hn, hq⟩ | ⟨hn, hp, i, hi, hq⟩
    · exact .inl hq
    · exact .inr (.inl ⟨hn, congrArg (·.tree.comments) hq⟩)
    · exact .inr (.inr ⟨hn, hp, i, hi, congrArg Pairing.tree hq⟩)
  · exact (Pairing.growsTo_feed r p n).trans (Pairing.growsTo_feedEach r q after)
  · exact Pairing.settled_feedEach (Pairing.settled_of_changed hn hi) r after

/-! The comment that waits is that of the last comment node that did not stop. -/

namespace Pairing

/-- Every comment among some nodes stops. -/
def AllStop (r : Run) : Pairing → List SourceNode → Prop
  | _, [] => True
  | p, n :: ns => (n.isComment → (p.feed r n).2.isSome) ∧ AllStop r (p.feed r n).1 ns

/-- If a comment waits after some nodes, it waited before them and every comment among them stopped,
or its node is one of them and every comment behind that stopped. -/
theorem waits_feedEach {r : Run} {p : Pairing} {ns : List SourceNode} {i : Nat}
    (h : (p.feedEach r ns).Waits i) :
    (p.Waits i ∧ AllStop r p ns ∧
      (p.feedEach r ns).tree.size = p.tree.size + ns.countP (·.isComment)) ∨
    ∃ earlier t later,
      ns = earlier ++ ⟨.comment, t⟩ :: later ∧
      (p.feedEach r earlier).tree.size = i ∧
      ((p.feedEach r earlier).feed r ⟨.comment, t⟩).2 = none ∧
      AllStop r ((p.feedEach r earlier).feed r ⟨.comment, t⟩).1 later ∧
      (p.feedEach r ns).tree.size = i + 1 + later.countP (·.isComment) := by
  induction ns generalizing p with
  | nil => exact .inl ⟨h, trivial, rfl⟩
  | cons n ns ih =>
    rcases ih h with ⟨hwaits, hstop, hsize⟩ | ⟨earlier, t, later, hns, hrest⟩
    · have hcons : p.feedEach r (n :: ns) = (p.feed r n).1.feedEach r ns := rfl
      rw [hcons, hsize]
      have hfed := fed_feed r p n
      generalize hout : p.feed r n = out at hfed hwaits hstop ⊢
      cases hfed with
      | ignored hn =>
        refine .inl ⟨hwaits, ⟨by simp [hn], hout ▸ hstop⟩, ?_⟩
        rw [List.countP_cons_of_neg (by simp [hn])]
      | complete hn =>
        obtain rfl : p.tree.size = i := by simpa [Waits, withComment] using hwaits
        have hk : n = ⟨.comment, n.content⟩ := eq_of_isComment hn
        refine .inr ⟨[], n.content, ns, by rw [← hk]; rfl, rfl, ?_, ?_, ?_⟩
        · rw [← hk]
          exact congrArg (·.2) hout
        · rw [← hk]
          exact hout ▸ hstop
        · simp [withComment]
      | stopped hn =>
        refine .inl ⟨hwaits, ⟨fun _ => by simp [hout], hout ▸ hstop⟩, ?_⟩
        simp only [withPart, TokenTree.size_push, List.countP_cons, hn, ↓reduceIte]
        omega
      | claimed => simp [Waits, withClaim] at hwaits
    · exact .inr ⟨n :: earlier, t, later, by rw [hns]; rfl, hrest⟩

theorem AllStop.countP_collecting {r : Run} (hr : r.failFast = false) {p : Pairing}
    {ns : List SourceNode} (h : AllStop r p ns) : ns.countP (·.isComment) = 0 := by
  induction ns generalizing p with
  | nil => rfl
  | cons n ns ih =>
    obtain ⟨hstop, hrest⟩ := h
    have hn : ¬ n.isComment := fun hn => by simpa [feed_collecting_goes_on hr] using hstop hn
    rw [List.countP_cons_of_neg hn]
    exact ih hrest

end Pairing

/-- A declaration claims the comment of the last comment node that did not stop. That is the last
comment of the tree if no comment node came after it; each one that did has stopped and left a
comment behind. In a collecting run no node stops, so the last comment is claimed. -/
theorem Run.declaration_claims_latest_complete (r : Run) (before : List SourceNode)
    (n : SourceNode) (i : Nat) (hn : n.isDeclaration)
    (hi : ((Pairing.feedEach r {} before).feed r n).1.tree.comments[i]? ≠
      (Pairing.feedEach r {} before).tree.comments[i]?) :
    let p := Pairing.feedEach r {} before
    (p.feed r n).1.tree = p.tree.appendAt i (declarationTokens n.kind n.content) ∧
    ∃ earlier t later,
      before = earlier ++ ⟨.comment, t⟩ :: later ∧
      (Pairing.feedEach r {} earlier).tree.size = i ∧
      ((Pairing.feedEach r {} earlier).feed r ⟨.comment, t⟩).2 = none ∧
      Pairing.AllStop r ((Pairing.feedEach r {} earlier).feed r ⟨.comment, t⟩).1 later ∧
      p.tree.size = i + 1 + later.countP (·.isComment) ∧
      (r.failFast = false → p.tree.size = i + 1) := by
  intro p
  obtain ⟨hwaits, -, hfeed⟩ := Pairing.claimed_of_changed hn hi
  refine ⟨by rw [hfeed]; rfl, ?_⟩
  rcases Pairing.waits_feedEach hwaits with ⟨hstart, -⟩ |
    ⟨earlier, t, later, hbefore, hplace, hgo, hstop, hsize⟩
  · simp [Pairing.Waits] at hstart
  · refine ⟨earlier, t, later, hbefore, hplace, hgo, hstop, hsize, fun hr => ?_⟩
    rw [hsize, hstop.countP_collecting hr]

/-- A comment, and behind it one that stops a run that fails fast. -/
def partBehindComment : List SourceNode :=
  [⟨.comment, text "/** first */"⟩, ⟨.comment, text "/** second @param x */"⟩]

def declarationBehind : SourceNode := ⟨.dataType, text "{ k: v }"⟩

theorem Run.declaration_claims_latest_complete_behind_part :
    let p := Pairing.feedEach {} {} partBehindComment
    (p.feed {} declarationBehind).1.tree.comments[0]? ≠ p.tree.comments[0]? ∧
    (p.feed {} declarationBehind).1.tree =
      p.tree.appendAt 0 (declarationTokens .dataType (text "{ k: v }")) ∧
    ∃ earlier t later,
      partBehindComment = earlier ++ ⟨.comment, t⟩ :: later ∧
      (Pairing.feedEach {} {} earlier).tree.size = 0 ∧
      ((Pairing.feedEach {} {} earlier).feed {} ⟨.comment, t⟩).2 = none ∧
      Pairing.AllStop {} ((Pairing.feedEach {} {} earlier).feed {} ⟨.comment, t⟩).1 later ∧
      p.tree.size = 0 + 1 + later.countP (·.isComment) ∧
      ((({} : Run).failFast = false) → p.tree.size = 0 + 1) :=
  ⟨by decide +kernel,
    Run.declaration_claims_latest_complete {} partBehindComment declarationBehind 0 rfl
      (by decide +kernel)⟩

/-- A declaration behind a comment that stopped goes to the comment before that, which is not the
last one of the tree. -/
theorem Run.declaration_claims_older_comment :
    let p := Pairing.feedEach {} {} partBehindComment
    let q := (p.feed {} declarationBehind).1
    p.tree.size = 2 ∧
    q.tree.comments[0]? ≠ p.tree.comments[0]? ∧ q.tree.comments[1]? = p.tree.comments[1]? := by
  decide +kernel

end CommentTags
