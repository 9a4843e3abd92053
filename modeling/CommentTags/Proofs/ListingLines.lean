import Mathlib.Data.List.Forall2
import CommentTags.Listing
import CommentTags.Proofs.Diagnostics
import CommentTags.Proofs.FieldPlaces
import CommentTags.Proofs.JsonText
import CommentTags.Proofs.TagLabels

/-!
The lines of a listing. Each comment has a line with its number, and each of its tokens has a line
that begins with its label, and a further one for every line feed in its content. No other field
brings a line feed into the listing, and of the tokens of a run only the parameters of a prototype
can have one in their content.
-/

namespace CommentTags

namespace Text

/-! Texts split at a separator. -/

theorem splitOn_eq (sep : CodePoint) (t : Text) : splitOn sep t = List.splitOn sep t := by
  rw [List.splitOn_eq_splitOnP]
  induction t with
  | nil => rfl
  | cons c t ih =>
    rw [List.splitOnP_cons_eq_if_modifyHead, splitOn, ih]
    by_cases hc : c = sep
    · simp [hc]
    · cases hrest : List.splitOnP (· == sep) t with
      | nil => exact absurd hrest (List.splitOnP_ne_nil _ _)
      | cons p ps => simp [hc]

theorem splitOn_of_not_mem {sep : CodePoint} {t : Text} (h : sep ∉ t) : splitOn sep t = [t] := by
  rw [splitOn_eq, List.splitOn_eq_splitOnP, List.splitOnP_eq_singleton]
  intro c hc
  have hne : c ≠ sep := fun heq => h (heq ▸ hc)
  simpa using hne

theorem splitOn_joinWith (sep : CodePoint) {ts : List Text} (hne : ts ≠ []) :
    splitOn sep (joinWith [sep] ts) = ts.flatMap (splitOn sep) := by
  induction ts with
  | nil => exact absurd rfl hne
  | cons t ts ih =>
    cases ts with
    | nil => simp [joinWith_singleton]
    | cons t' ts =>
      rw [joinWith_cons_cons, List.append_assoc, List.singleton_append, splitOn_eq,
        List.splitOn_append_cons_self, ← splitOn_eq, ← splitOn_eq, ih (by simp)]
      rfl

theorem joinWith_splitOn (sep : CodePoint) (t : Text) : joinWith [sep] (splitOn sep t) = t := by
  rw [splitOn_eq]
  exact List.intercalate_splitOn sep

theorem length_splitOn (sep : CodePoint) (t : Text) :
    (splitOn sep t).length = t.count sep + 1 := by
  induction t with
  | nil => rfl
  | cons c t ih =>
    by_cases hc : c = sep
    · simp [splitOn, hc, ih]
    · cases hrest : splitOn sep t with
      | nil => simp [hrest] at ih
      | cons p ps =>
        rw [hrest, List.length_cons] at ih
        simp [splitOn, hc, hrest, ih]

/-- What stands before every separator stands in the first part. -/
theorem exists_splitOn_append {sep : CodePoint} {u : Text} (hu : sep ∉ u) (t : Text) :
    ∃ first rest, splitOn sep (u ++ t) = first :: rest ∧ u <+: first := by
  induction u with
  | nil =>
    cases hsplit : splitOn sep t with
    | nil => simpa [hsplit] using length_splitOn sep t
    | cons p ps => exact ⟨p, ps, hsplit, List.nil_prefix⟩
  | cons c u ih =>
    obtain ⟨hc, hu⟩ : sep ≠ c ∧ sep ∉ u := by simpa using hu
    obtain ⟨first, rest, hsplit, hfirst⟩ := ih hu
    refine ⟨c :: first, rest, ?_, List.cons_prefix_cons.mpr ⟨rfl, hfirst⟩⟩
    simp [splitOn, Ne.symm hc, hsplit]

/-! Line feeds. -/

theorem lineFeed_not_mem_ofNat (n : Nat) : .char '\n' ∉ ofNat n := by
  intro h
  obtain ⟨c, hc, hfeed⟩ := List.mem_map.mp h
  obtain rfl : c = '\n' := CodePoint.char.inj hfeed
  have hdigit := Nat.isDigit_of_mem_toDigits (by decide) (by decide) hc
  revert hdigit
  decide

theorem lineFeed_not_mem_hexEscape (n : Nat) : .char '\n' ∉ hexEscape n := by
  have hdigits : ∀ w, .char '\n' ∉ (hexDigits w n).map CodePoint.char := by
    have hfeed : ∀ d, d < 16 → Nat.digitChar d ≠ '\n' := by decide
    intro w h
    obtain ⟨c, hc, hchar⟩ := List.mem_map.mp h
    obtain ⟨d, hd, rfl⟩ := mem_hexDigits hc
    exact hfeed d hd (CodePoint.char.inj hchar)
  unfold hexEscape
  split
  · simp [text, hdigits]
  · split <;> simp [text, hdigits]

theorem lineFeed_not_mem_quoteEscape {quote : CodePoint} (hquote : quote ≠ .char '\n')
    (c : CodePoint) : .char '\n' ∉ quoteEscape quote c := by
  unfold quoteEscape
  split
  · rename_i hc
    rcases hc with rfl | rfl
    · simpa using hquote.symm
    · decide
  · split
    · decide
    · split
      · decide
      · rename_i hfeed
        split
        · decide
        · split
          · simpa using Ne.symm hfeed
          · exact lineFeed_not_mem_hexEscape _

theorem lineFeed_not_mem_quoted (t : Text) : .char '\n' ∉ t.quoted := by
  have hquote : quoteFor t ≠ .char '\n' := by
    unfold quoteFor
    split <;> decide
  simp only [quoted, List.mem_cons, List.mem_append, List.mem_flatMap, List.not_mem_nil, or_false,
    not_or, not_exists, not_and]
  exact ⟨hquote.symm, fun c _ => lineFeed_not_mem_quoteEscape hquote c, hquote.symm⟩

/-- Cleaning leaves no blank but the space. -/
theorem lineFeed_not_mem_clean (t : Text) : .char '\n' ∉ t.clean := by
  intro h
  rw [clean_eq_joinWith] at h
  rcases mem_joinWith h with h | ⟨w, hw, h⟩
  · simp at h
  · have hblank := (isWord_of_mem_words hw).2 _ h
    cases hblank

theorem trim_subset (t : Text) : t.trim ⊆ t := by
  intro c hc
  have hback := (trimLeft_suffix _).subset (List.mem_reverse.mp hc)
  exact (trimLeft_suffix t).subset (List.mem_reverse.mp hback)

theorem lineFeed_not_mem_joinWith {sep : Text} (hsep : .char '\n' ∉ sep) {ts : List Text}
    (hts : ∀ t ∈ ts, .char '\n' ∉ t) : .char '\n' ∉ joinWith sep ts := by
  intro h
  rcases mem_joinWith h with h | ⟨t, ht, h⟩
  · exact hsep h
  · exact hts t ht h

/-- The first of some joined texts, and what stands behind it. -/
theorem exists_joinWith_cons (sep u : Text) (us : List Text) :
    ∃ behind, joinWith sep (u :: us) = u ++ behind ∧ ∀ c ∈ behind, c ∈ sep ∨ ∃ v ∈ us, c ∈ v := by
  cases us with
  | nil => exact ⟨[], by simp [joinWith_singleton], by simp⟩
  | cons v us =>
    refine ⟨sep ++ joinWith sep (v :: us), ?_, fun c hc => ?_⟩
    · rw [joinWith_cons_cons, List.append_assoc]
    · rcases List.mem_append.mp hc with hc | hc
      · exact .inl hc
      · exact mem_joinWith hc

end Text

/-! The lines of a token. -/

namespace Token

/-- What the line of a token begins with. -/
def heading (t : Token) : Text := text "  " ++ t.label ++ text ": "

/-- The fields that are listed besides the content hold no line feeds. -/
structure FieldsInLine (t : Token) : Prop where
  label : .char '\n' ∉ t.label
  types : ∀ ts, t.types = some ts → ∀ x ∈ ts, .char '\n' ∉ x
  names : ∀ ns, t.names = some ns → ∀ x ∈ ns, .char '\n' ∉ x

/-- One line, which begins with the label. -/
def OnOneLine (t : Token) (lines : List Text) : Prop :=
  ∃ line, lines = [line] ∧ t.heading <+: line

/-- A line that begins with the label, and one more for every line feed of the content; together
they are what is written of the token. -/
def OverLines (t : Token) (lines : List Text) : Prop :=
  Text.joinWith [.char '\n'] lines = t.line ∧
    ∃ first rest, lines = first :: rest ∧ t.heading <+: first ∧
      rest.length = t.content.count (.char '\n')

/-- Behind the content there is no line feed in the line of a token. -/
theorem exists_line_eq {t : Token} (h : t.FieldsInLine) :
    ∃ behind, t.line = t.heading ++ (t.content ++ behind) ∧ .char '\n' ∉ behind := by
  obtain ⟨behind, hline, hbehind⟩ := Text.exists_joinWith_cons (text "  ")
    (text "  " ++ t.label ++ text ": " ++ t.content)
    ((t.types.map fun ts => text "type=" ++ Text.joinWith (text "|") ts).toList ++
      (t.names.map fun ns => text "name=" ++ Text.joinWith (text ",") ns).toList ++
      (t.description.map fun d => text "description=" ++ d.quoted).toList)
  refine ⟨behind, ?_, fun hfeed => ?_⟩
  · rw [← List.append_assoc, heading]
    simpa [line, List.append_assoc] using hline
  · rcases hbehind _ hfeed with hsep | ⟨part, hpart, hmem⟩
    · revert hsep
      decide
    · simp only [List.mem_append, Option.mem_toList, Option.map_eq_some_iff] at hpart
      revert hmem
      rcases hpart with (⟨ts, hts, rfl⟩ | ⟨ns, hns, rfl⟩) | ⟨d, -, rfl⟩
      · exact List.not_mem_append (by decide)
          (Text.lineFeed_not_mem_joinWith (by decide) (h.types ts hts))
      · exact List.not_mem_append (by decide)
          (Text.lineFeed_not_mem_joinWith (by decide) (h.names ns hns))
      · exact List.not_mem_append (by decide) (Text.lineFeed_not_mem_quoted d)

theorem lineFeed_not_mem_heading {t : Token} (h : t.FieldsInLine) : .char '\n' ∉ t.heading :=
  List.not_mem_append (List.not_mem_append (by decide) h.label) (by decide)

theorem overLines_line {t : Token} (h : t.FieldsInLine) :
    t.OverLines (t.line.splitOn (.char '\n')) := by
  obtain ⟨behind, hline, hbehind⟩ := exists_line_eq h
  obtain ⟨first, rest, hsplit, hfirst⟩ :=
    Text.exists_splitOn_append (lineFeed_not_mem_heading h) (t.content ++ behind)
  have hlength := Text.length_splitOn (.char '\n') t.line
  have hcount : t.line.count (.char '\n') = t.content.count (.char '\n') := by
    rw [hline, List.count_append, List.count_append,
      List.count_eq_zero_of_not_mem (lineFeed_not_mem_heading h),
      List.count_eq_zero_of_not_mem hbehind, Nat.zero_add, Nat.add_zero]
  rw [← hline] at hsplit
  refine ⟨Text.joinWith_splitOn _ _, first, rest, hsplit, hfirst, ?_⟩
  rw [hsplit, List.length_cons, hcount] at hlength
  omega

theorem OnOneLine.length_eq {t : Token} {lines : List Text} (h : t.OnOneLine lines) :
    lines.length = 1 := by
  obtain ⟨line, rfl, -⟩ := h
  rfl

theorem OverLines.length_eq {t : Token} {lines : List Text} (h : t.OverLines lines) :
    lines.length = t.content.count (.char '\n') + 1 := by
  obtain ⟨-, first, rest, rfl, -, hrest⟩ := h
  rw [List.length_cons, hrest]

theorem OverLines.onOneLine {t : Token} {lines : List Text} (h : t.OverLines lines)
    (hfeed : .char '\n' ∉ t.content) : t.OnOneLine lines := by
  obtain ⟨-, first, rest, rfl, hfirst, hrest⟩ := h
  rw [List.count_eq_zero_of_not_mem hfeed] at hrest
  obtain rfl : rest = [] := List.eq_nil_of_length_eq_zero hrest
  exact ⟨first, rfl, hfirst⟩

end Token

/-! The lines of a tree. -/

/-- The lines of some comments, numbered from `n`: one with the number of each comment, and behind
it those that its tokens have by `shows`, in order. -/
inductive Listed (shows : Token → List Text → Prop) : Nat → List Comment → List Text → Prop
  | nil (n : Nat) : Listed shows n [] []
  | comment {n : Nat} {c : Comment} {cs : List Comment} {groups : List (List Text)}
      {rest : List Text} :
      List.Forall₂ shows c.children groups → Listed shows (n + 1) cs rest →
      Listed shows n (c :: cs) ((text "comment " ++ Text.ofNat n) :: (groups.flatten ++ rest))

/-- The number of lines, if a token has one more than there are line feeds in its `feeds`. -/
theorem Listed.length_eq {shows : Token → List Text → Prop} {n : Nat} {cs : List Comment}
    {lines : List Text} (h : Listed shows n cs lines) (feeds : Token → Text)
    (hfeeds : ∀ t lines, shows t lines → lines.length = (feeds t).count (.char '\n') + 1) :
    lines.length = cs.length + (cs.flatMap (·.children)).length +
      ((cs.flatMap (·.children)).flatMap feeds).count (.char '\n') := by
  have hgroups : ∀ {ts : List Token} {groups : List (List Text)}, List.Forall₂ shows ts groups →
      groups.flatten.length = ts.length + (ts.flatMap feeds).count (.char '\n') := by
    intro ts groups hshows
    induction hshows with
    | nil => rfl
    | cons ht _ ih =>
      rw [List.flatten_cons, List.length_append, hfeeds _ _ ht, ih, List.flatMap_cons,
        List.count_append, List.length_cons]
      omega
  induction h with
  | nil => rfl
  | comment hshows _ ih =>
    rw [List.length_cons, List.length_append, hgroups hshows, ih, List.flatMap_cons,
      List.flatMap_append, List.count_append, List.length_append, List.length_cons]
    omega

theorem Listed.imp {shows shows' : Token → List Text → Prop} {n : Nat} {cs : List Comment}
    {lines : List Text} (h : Listed shows n cs lines)
    (himp : ∀ c ∈ cs, ∀ t ∈ c.children, ∀ lines, shows t lines → shows' t lines) :
    Listed shows' n cs lines := by
  have hgroups : ∀ {ts : List Token} {groups : List (List Text)}, List.Forall₂ shows ts groups →
      (∀ t ∈ ts, ∀ lines, shows t lines → shows' t lines) → List.Forall₂ shows' ts groups := by
    intro ts groups hshows hts
    induction hshows with
    | nil => exact .nil
    | cons ht _ ih =>
      obtain ⟨hfirst, hrest⟩ := List.forall_mem_cons.mp hts
      exact .cons (hfirst _ ht) (ih hrest)
  induction h with
  | nil => exact .nil _
  | comment hshows _ ih =>
    obtain ⟨hc, hcs⟩ := List.forall_mem_cons.mp himp
    exact .comment (hgroups hshows hc) (ih hcs)

theorem lineFeed_not_mem_number (n : Nat) : .char '\n' ∉ text "comment " ++ Text.ofNat n :=
  List.not_mem_append (by decide) (Text.lineFeed_not_mem_ofNat n)

/-- **Run.** The induction is on the comments, with the number of those in front of them. -/
theorem listed_lines {cs : List Comment} (h : ∀ c ∈ cs, ∀ t ∈ c.children, t.FieldsInLine)
    (i : Nat) :
    Listed Token.OverLines (i + 1) cs
      (((cs.zipIdx i).flatMap fun (c, j) => c.lines (j + 1)).flatMap
        (Text.splitOn (.char '\n'))) := by
  induction cs generalizing i with
  | nil => exact .nil _
  | cons c cs ih =>
    obtain ⟨hc, hcs⟩ := List.forall_mem_cons.mp h
    have hgroups : List.Forall₂ Token.OverLines c.children
        (c.children.map fun t => t.line.splitOn (.char '\n')) := by
      rw [List.forall₂_map_right_iff, List.forall₂_same]
      exact fun t ht => Token.overLines_line (hc t ht)
    have hlines : (((c :: cs).zipIdx i).flatMap fun (c, j) => c.lines (j + 1)).flatMap
          (Text.splitOn (.char '\n')) =
        (text "comment " ++ Text.ofNat (i + 1)) ::
          ((c.children.map fun t => t.line.splitOn (.char '\n')).flatten ++
            ((cs.zipIdx (i + 1)).flatMap fun (c, j) => c.lines (j + 1)).flatMap
              (Text.splitOn (.char '\n'))) := by
      simp [List.zipIdx_cons, Comment.lines, List.flatMap_def, Function.comp_def,
        Text.splitOn_of_not_mem (lineFeed_not_mem_number (i + 1))]
    rw [hlines]
    exact .comment hgroups (ih hcs (i + 1))

namespace TokenTree

theorem listing_of_no_comments {tree : TokenTree} (h : tree.comments = []) : tree.listing = [] := by
  simp [listing, h, Text.joinWith]

theorem listed_listing {tree : TokenTree} (hne : tree.comments ≠ [])
    (h : ∀ c ∈ tree.comments, ∀ t ∈ c.children, t.FieldsInLine) :
    Listed Token.OverLines 1 tree.comments (tree.listing.splitOn (.char '\n')) := by
  have hlines : (tree.comments.zipIdx.flatMap fun (c, i) => c.lines (i + 1)) ≠ [] := by
    obtain ⟨c, cs, hcs⟩ := List.exists_cons_of_ne_nil hne
    simp [hcs, List.zipIdx_cons, Comment.lines]
  rw [listing, Text.splitOn_joinWith _ hlines]
  exact listed_lines h 0

/-- There is one line for each token exactly if no content holds a line feed. -/
theorem listed_onOneLine_iff {tree : TokenTree} (hne : tree.comments ≠ [])
    (h : ∀ c ∈ tree.comments, ∀ t ∈ c.children, t.FieldsInLine) :
    Listed Token.OnOneLine 1 tree.comments (tree.listing.splitOn (.char '\n')) ↔
      ∀ c ∈ tree.comments, ∀ t ∈ c.children, .char '\n' ∉ t.content := by
  have hlisted := listed_listing hne h
  constructor
  · intro hone c hc t ht
    -- the lines are counted in two ways
    have hone_length := hone.length_eq (fun _ => []) fun t _ => Token.OnOneLine.length_eq
    have hlength := hlisted.length_eq (·.content) fun t _ => Token.OverLines.length_eq
    have hnone : ((tree.comments.flatMap (·.children)).flatMap fun _ => ([] : Text)) = [] := by simp
    rw [hnone, List.count_nil] at hone_length
    have hzero : ((tree.comments.flatMap (·.children)).flatMap (·.content)).count
        (.char '\n') = 0 := by omega
    have hfree := List.count_eq_zero.mp hzero
    exact fun hfeed => hfree (List.mem_flatMap_of_mem (List.mem_flatMap_of_mem hc ht) hfeed)
  · intro hfeed
    exact hlisted.imp fun c hc t ht lines hlines => hlines.onOneLine (hfeed c hc t ht)

end TokenTree

/-! The tokens of a run. -/

theorem lineFeed_not_mem_of_not_blank {t : Text} (h : ∀ c ∈ t, c.isBlank = false) :
    .char '\n' ∉ t := by
  intro hfeed
  cases h _ hfeed

/-- Settings whose texts are on one line. -/
structure Settings.InLine (s : Settings) : Prop where
  marker : ∃ k, s.marker = [k] ∧ k.IsMarker
  placeholder : .char '\n' ∉ s.placeholder
  defaultType : .char '\n' ∉ s.defaultType

theorem Settings.inLine_default : Settings.InLine {} where
  marker := ⟨.char '@', rfl, by decide +kernel, rfl, rfl, by decide, by decide⟩
  placeholder := by decide
  defaultType := by decide

theorem type_subset_of_mem_annotations {t : Text} {a : Annotation} (ha : a ∈ annotations t) :
    a.type ⊆ t := by
  induction t with
  | nil => cases ha
  | cons c r ih =>
    have hrest : a ∈ annotations r → a.type ⊆ c :: r := fun h =>
      List.subset_cons_of_subset c (ih h)
    simp only [annotations] at ha
    split at ha
    · split at ha
      · rename_i inner after hcut
        rcases List.mem_cons.mp ha with rfl | ha
        · obtain ⟨-, rfl⟩ := eq_of_cutSegment hcut
          intro d hd
          have hmem := Text.trim_subset inner hd
          simp [hmem]
        · exact hrest ha
      · exact hrest ha
    · exact hrest ha

section Origin

variable {s : Settings} (hs : s.InLine)

include hs

theorem descriptionToken_inLine (t : Text) :
    (descriptionToken s t).FieldsInLine ∧ .char '\n' ∉ (descriptionToken s t).content := by
  refine ⟨⟨?_, by simp [descriptionToken], by simp [descriptionToken]⟩, ?_⟩
  · change .char '\n' ∉ descriptionLabel
    decide
  · unfold descriptionToken description
    split
    · exact hs.placeholder
    · exact Text.lineFeed_not_mem_clean _

theorem ofTag_inLine {t : Text} {g : RawTag} (hg : g ∈ tags s.marker t) :
    (Token.ofTag s g).FieldsInLine ∧ .char '\n' ∉ (Token.ofTag s g).content := by
  have hcontent := Text.lineFeed_not_mem_clean g.content
  refine ⟨⟨?_, fun ts hts x hx => ?_, fun ns hns x hx => ?_⟩, hcontent⟩
  · obtain ⟨k, hmarker, hk⟩ := hs.marker
    rw [hmarker] at hg
    obtain ⟨name, hlabel, hname⟩ := isTagName_of_mem_tags hk hg
    rw [label_ofTag hmarker hlabel]
    intro hfeed
    have hlabel := hname.isLabel _ (List.mem_of_mem_filter hfeed)
    rw [CodePoint.isLabel_of_isBlank rfl] at hlabel
    cases hlabel
  · obtain ⟨-, rfl⟩ : annotations g.content.clean ≠ [] ∧ _ = ts := by
      simpa [Token.ofTag] using hts
    obtain ⟨a, ha, rfl⟩ := List.mem_map.mp hx
    cases htype : nonempty? a.type with
    | none => exact hs.defaultType
    | some u =>
      obtain ⟨-, rfl⟩ := nonempty?_eq_some.mp htype
      exact fun hfeed => hcontent (type_subset_of_mem_annotations ha hfeed)
  · obtain ⟨-, rfl⟩ : followingNames g.content.clean ≠ [] ∧ _ = ns := by
      simpa [Token.ofTag] using hns
    exact lineFeed_not_mem_of_not_blank (isWord_of_mem_followingNames hx).1.2

end Origin

theorem Token.IsEntry.fieldsInLine {t : Token} (h : t.IsEntry) : t.FieldsInLine where
  label := by
    intro hfeed
    have hpart := h.label.isIdentifierPart _ hfeed
    rw [CodePoint.isIdentifierPart_of_isBlank rfl] at hpart
    cases hpart
  types ts hts := by simp [h.types] at hts
  names ns hns := by simp [h.names] at hns

/-- A value of a data type ends before a line feed. -/
theorem lineFeed_not_mem_of_mem_fields {t : Text} {e : Entry} (h : e ∈ fields t) :
    .char '\n' ∉ e.value := by
  obtain ⟨os, -, hfields⟩ := exists_occurrences t
  rw [hfields] at h
  obtain ⟨o, -, rfl⟩ := List.mem_map.mp h
  intro hfeed
  cases o.field.value_goes_on _ hfeed

/-- The tokens of a declaration are those of a node behind the comment. -/
theorem exists_of_mem_claimedTokens {ns : List SourceNode} {token : Token}
    (h : token ∈ claimedTokens ns) : ∃ n ∈ ns, token ∈ declarationTokens n.kind n.content := by
  unfold claimedTokens at h
  split at h
  · rename_i n hfind
    have hmem := List.mem_of_find?_eq_some hfind
    exact ⟨n, (List.takeWhile_prefix _).subset hmem, h⟩
  · cases h

/-- Only a parameter of a prototype can hold a line feed. -/
theorem proto_of_lineFeed {ns : List SourceNode} {token : Token} (h : token ∈ claimedTokens ns)
    (hfeed : .char '\n' ∈ token.content) :
    ∃ p, ⟨.proto, p⟩ ∈ ns ∧ token ∈ declarationTokens .proto p := by
  obtain ⟨⟨k, t⟩, hn, htoken⟩ := exists_of_mem_claimedTokens h
  cases k with
  | proto => exact ⟨t, hn, htoken⟩
  | dataType =>
    obtain ⟨e, he, rfl⟩ := List.mem_map.mp htoken
    exact absurd hfeed (lineFeed_not_mem_of_mem_fields he)
  | comment => cases htoken
  | other => cases htoken

/-- A token of a run has a line feed nowhere but in its content, and there only if it is a
parameter of a prototype. -/
theorem token_inLine {s : Settings} (hs : s.InLine) {nodes : List SourceNode} {c : Comment}
    (hc : c ∈ pairedComments s nodes) {token : Token} (htoken : token ∈ c.children) :
    token.FieldsInLine ∧ (.char '\n' ∈ token.content →
      ∃ p, ⟨.proto, p⟩ ∈ nodes ∧ token ∈ declarationTokens .proto p) := by
  obtain ⟨before, t, after, rfl, hchildren⟩ := exists_of_mem_pairedComments hc
  rw [hchildren] at htoken
  rcases List.mem_cons.mp htoken with rfl | htoken
  · obtain ⟨hfields, hcontent⟩ := descriptionToken_inLine hs t
    exact ⟨hfields, fun hfeed => absurd hfeed hcontent⟩
  · rcases List.mem_append.mp htoken with htag | hentry
    · obtain ⟨g, hg, rfl⟩ := List.mem_map.mp htag
      obtain ⟨hfields, hcontent⟩ := ofTag_inLine hs hg
      exact ⟨hfields, fun hfeed => absurd hfeed hcontent⟩
    · refine ⟨(isEntry_of_mem_claimedTokens hentry).fieldsInLine, fun hfeed => ?_⟩
      obtain ⟨p, hp, hmem⟩ := proto_of_lineFeed hentry hfeed
      exact ⟨p, by simp [hp], hmem⟩

/-- A run that has a tree has that of the collecting run. -/
theorem Run.tree_eq_of_parse {r : Run} {nodes : List SourceNode} {tree : TokenTree}
    (h : (r.parse nodes).tree = some tree) : tree = ⟨pairedComments r.settings nodes⟩ := by
  have hcollecting : (Run.parse { r with failFast := false } nodes).tree =
      some ⟨pairedComments r.settings nodes⟩ := Run.tree_parse_collecting rfl nodes
  obtain ⟨file, s, failFast⟩ := r
  cases failFast with
  | false => exact Option.some.inj (h.symm.trans hcollecting)
  | true =>
    have hrun := Pairing.feedAll_failFast ⟨file, s, true⟩ {} nodes
    split at hrun
    · have hsame : (Run.parse ⟨file, s, true⟩ nodes).tree =
          (Run.parse ⟨file, s, false⟩ nodes).tree := by
        simp only [Run.parse, hrun]
        rfl
      exact Option.some.inj (h.symm.trans (hsame.trans hcollecting))
    · rename_i d _ _
      have hnone : (Run.parse ⟨file, s, true⟩ nodes).tree = none := by
        unfold Run.parse
        generalize Pairing.feedAll ⟨file, s, true⟩ {} nodes = final at hrun
        obtain ⟨p, stop⟩ := final
        cases hrun
        rfl
      simp [hnone] at h

/-- The lines of the listing of a run under the default settings, split at the line feeds. The tree
without comments is listed as the empty text. Any other has a line with the number of each comment,
from 1 on, and behind it, for each of its tokens, a line that begins with the label and one more for
every line feed in the content. So there is one line for each token exactly if no content holds a
line feed, and only the content of a parameter of a prototype can hold one. -/
theorem Run.listing_lines {sourceFile : Text} {failFast : Bool} {nodes : List SourceNode}
    {tree : TokenTree}
    (h : (Run.parse { sourceFile := sourceFile, failFast := failFast } nodes).tree = some tree) :
    let lines := tree.listing.splitOn (.char '\n')
    (tree.comments = [] → tree.listing = []) ∧
      (tree.comments ≠ [] →
        Listed Token.OverLines 1 tree.comments lines ∧
        (Listed Token.OnOneLine 1 tree.comments lines ↔
          ∀ c ∈ tree.comments, ∀ t ∈ c.children, .char '\n' ∉ t.content)) ∧
      ∀ c ∈ tree.comments, ∀ t ∈ c.children, .char '\n' ∈ t.content →
        ∃ p, ⟨.proto, p⟩ ∈ nodes ∧ t ∈ declarationTokens .proto p := by
  intro lines
  obtain rfl := Run.tree_eq_of_parse h
  have hinLine : ∀ c ∈ pairedComments {} nodes, ∀ t ∈ c.children, t.FieldsInLine :=
    fun c hc t ht => (token_inLine Settings.inLine_default hc ht).1
  refine ⟨TokenTree.listing_of_no_comments, fun hne => ?_, fun c hc t ht => ?_⟩
  · exact ⟨TokenTree.listed_listing hne hinLine, TokenTree.listed_onOneLine_iff hne hinLine⟩
  · exact (token_inLine Settings.inLine_default hc ht).2

/-- A comment with a typed tag, and a prototype with a line feed between two of its parameters but
in neither of them. -/
theorem Run.listing_lines_between_parameters :
    let nodes : List SourceNode :=
      [⟨.comment, text "/** adds\n * @param \x7b\x7d a first\n * term */"⟩,
        ⟨.proto, text "add(a,\n  b)"⟩]
    ∃ tree, (Run.parse {} nodes).tree = some tree ∧
      Listed Token.OnOneLine 1 tree.comments (tree.listing.splitOn (.char '\n')) := by
  intro nodes
  have hrun : (Run.parse {} nodes).tree = some ⟨pairedComments {} nodes⟩ := by decide +kernel
  have hfeeds : ∀ c ∈ pairedComments {} nodes, ∀ t ∈ c.children, .char '\n' ∉ t.content := by
    decide +kernel
  exact ⟨_, hrun, ((Run.listing_lines hrun).2.1 (by decide +kernel)).2.mpr hfeeds⟩

/-- A parameter whose default goes over two lines is listed over two lines. -/
theorem Run.listing_breaks_parameter :
    let nodes : List SourceNode := [⟨.comment, text "/** hi */"⟩, ⟨.proto, text "f(a = g(1,\n 2))"⟩]
    ∃ tree, (Run.parse {} nodes).tree = some tree ∧
      tree.listing.splitOn (.char '\n') =
        [text "comment 1", text "  description: hi", text "  a: a = g(1,", text " 2)"] ∧
      ¬ Listed Token.OnOneLine 1 tree.comments (tree.listing.splitOn (.char '\n')) := by
  intro nodes
  have hrun : (Run.parse {} nodes).tree = some ⟨pairedComments {} nodes⟩ := by decide +kernel
  have hlines : (TokenTree.listing ⟨pairedComments {} nodes⟩).splitOn (.char '\n') =
      [text "comment 1", text "  description: hi", text "  a: a = g(1,", text " 2)"] := by
    decide +kernel
  refine ⟨_, hrun, hlines, fun hone => ?_⟩
  have hlength := hone.length_eq (fun _ => []) fun t _ => Token.OnOneLine.length_eq
  rw [hlines] at hlength
  revert hlength
  decide +kernel

end CommentTags
