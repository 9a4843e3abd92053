import Mathlib.Data.List.TakeWhile
import CommentTags.Proofs.Annotations
import CommentTags.Proofs.Pairing
import CommentTags.Proofs.SettingsDocument

/-!
What holds of every token, by where it comes from. The description of a comment is never empty. A
tag has cleaned content, and its other fields are parts of that content or come from the settings.
An entry of a declaration has an identifier for its label and nothing but a content.
-/

namespace CommentTags

namespace Text

/-! Trimmed text. -/

/-- There is no blank at either end. -/
structure Trimmed (t : Text) : Prop where
  head : ∀ c ∈ t.head?, c.isBlank = false
  last : ∀ c ∈ t.getLast?, c.isBlank = false

theorem Trimmed.reverse {t : Text} (h : Trimmed t) : Trimmed t.reverse := by
  constructor
  · simpa [List.head?_reverse] using h.last
  · simpa [List.getLast?_reverse] using h.head

theorem Spaced.trimmed {t : Text} (h : Spaced true t) : Trimmed t := ⟨h.head, h.last⟩

theorem trim_of_trimmed {t : Text} (h : Trimmed t) : trim t = t := by
  rw [trim, trimLeft_of_head h.head, trimLeft_of_head h.reverse.head, List.reverse_reverse]

theorem head_trimLeft (t : Text) : ∀ c ∈ (trimLeft t).head?, c.isBlank = false := by
  intro c hc
  have hne : trimLeft t ≠ [] := by
    intro hnil
    simp [hnil] at hc
  have hhead := List.head_dropWhile_not CodePoint.isBlank hne
  rw [List.head?_eq_some_head hne] at hc
  cases hc
  exact hhead

theorem trimLeft_suffix (t : Text) : trimLeft t <:+ t := List.dropWhile_suffix _

theorem trimLeft_ne_nil {t : Text} {c : CodePoint} (hc : c ∈ t) (hblank : c.isBlank = false) :
    trimLeft t ≠ [] := by
  intro hnil
  have hall := List.dropWhile_eq_nil_iff.mp hnil c hc
  simp [hblank] at hall

theorem trimmed_trim (t : Text) : Trimmed (trim t) := by
  have hback := head_trimLeft (trimLeft t).reverse
  refine ⟨?_, by simpa [trim] using hback⟩
  intro c hc
  -- what is left is a front part of the text that has no blank in front
  have hpre : trim t <+: trimLeft t := by
    rw [← List.reverse_suffix]
    simpa [trim] using trimLeft_suffix (trimLeft t).reverse
  obtain ⟨rest, hrest⟩ := hpre
  apply head_trimLeft t
  rw [← hrest]
  cases htrim : trim t with
  | nil => simp [htrim] at hc
  | cons d u => simpa [htrim] using hc

theorem trim_ne_nil {t : Text} {c : CodePoint} (hc : c ∈ t) (hblank : c.isBlank = false) :
    trim t ≠ [] := by
  obtain ⟨d, u, hu⟩ := List.exists_cons_of_ne_nil (trimLeft_ne_nil hc hblank)
  have hd : d.isBlank = false := head_trimLeft t d (by simp [hu])
  have hmem : d ∈ (trimLeft t).reverse := by simp [hu]
  simpa [trim] using trimLeft_ne_nil hmem hd

/-- Cleaning a second time changes nothing. -/
theorem clean_clean (t : Text) : t.clean.clean = t.clean := by
  by_cases hne : t.clean = []
  · rw [hne]
    rfl
  · exact clean_of_spaced (star_not_mem_clean t) (spaced_fold hne)

end Text

/-! Types and names. -/

theorem nonempty?_eq_some {t u : Text} : nonempty? t = some u ↔ t ≠ [] ∧ t = u := by
  cases t <;> simp [nonempty?]

theorem eq_of_cutSegment {t inner after : Text} (h : cutSegment t = some (inner, after)) :
    NoBraces inner ∧ t = inner ++ .char '}' :: after := by
  unfold cutSegment at h
  split at h
  · rename_i rest hdrop
    obtain ⟨rfl, rfl⟩ : t.takeWhile (!·.isBrace) = inner ∧ rest = after := by simpa using h
    refine ⟨fun c hc => ?_, ?_⟩
    · simpa using List.mem_takeWhile_imp hc
    · rw [← hdrop, List.takeWhile_append_dropWhile]
  · cases h

/-- The name of an annotation follows its closing brace. -/
theorem mem_followingNames {t : Text} {a : Annotation} {name : Text} (ha : a ∈ annotations t)
    (hname : a.name = some name) : name ∈ followingNames t := by
  induction t with
  | nil => cases ha
  | cons c r ih =>
    -- a name that follows in the rest follows in the whole
    have hrest : a ∈ annotations r → name ∈ followingNames (c :: r) := by
      intro hmem
      have := ih hmem
      simp only [followingNames]
      split
      · exact List.mem_append_right _ this
      · exact this
    simp only [annotations] at ha
    split at ha
    · rename_i hopen
      split at ha
      · rename_i inner after hcut
        rcases List.mem_cons.mp ha with rfl | ha
        · obtain ⟨hinner, rfl⟩ := eq_of_cutSegment hcut
          obtain ⟨hne, rfl⟩ := nonempty?_eq_some.mp hname
          rw [hopen, followingNames, if_neg (by simp), followingNames_of_noBraces hinner]
          simp [followingNames, nonempty?, hne]
        · exact hrest ha
      · exact hrest ha
    · exact hrest ha

theorem isWord_leadingName {t : Text} (h : leadingName t ≠ []) :
    (leadingName t).IsWord ∧ NoBraces (leadingName t) := by
  have hall : ∀ c ∈ leadingName t, c.isBlank = false ∧ c.isBrace = false := by
    intro c hc
    have := List.mem_takeWhile_imp hc
    simpa [CodePoint.isName] using this
  exact ⟨⟨h, fun c hc => (hall c hc).1⟩, fun c hc => (hall c hc).2⟩

theorem isWord_of_mem_followingNames {t name : Text} (h : name ∈ followingNames t) :
    name.IsWord ∧ NoBraces name := by
  induction t with
  | nil => cases h
  | cons c r ih =>
    simp only [followingNames] at h
    split at h
    · rcases List.mem_append.mp h with h | h
      · obtain ⟨hne, rfl⟩ := nonempty?_eq_some.mp (by simpa using h)
        exact isWord_leadingName hne
      · exact ih h
    · exact ih h

/-! Free text. -/

theorem afterAnnotations_suffix (t : Text) : afterAnnotations t <:+ t := by
  fun_induction afterAnnotations t with
  | case1 r inner after hcut ih =>
    obtain ⟨-, rfl⟩ := eq_of_cutSegment hcut
    have hafter : after <:+ .char '{' :: (inner ++ .char '}' :: after) :=
      ⟨.char '{' :: (inner ++ [.char '}']), by simp⟩
    exact (ih.trans (Text.trimLeft_suffix after)).trans hafter
  | case2 => exact List.suffix_refl _
  | case3 => exact List.suffix_refl _

/-- A name is cut off together with the blanks behind it, so what is left begins with no blank. -/
theorem afterName_cases (t : Text) :
    afterName t = t ∨
      ∃ c r, afterName t = c :: r ∧ c.isBlank = false ∧ c :: r <:+ t := by
  unfold afterName
  dsimp only
  split
  · rename_i c r hrest
    split
    · exact .inl rfl
    · have hsuffix : c :: r <:+ t :=
        hrest ▸ (Text.trimLeft_suffix _).trans (List.dropWhile_suffix _)
      exact .inr ⟨c, r, rfl, Text.head_trimLeft _ c (by rw [hrest]; rfl), hsuffix⟩
  · exact .inl rfl

/-- A suffix of a text without a blank at its end, if it begins with no blank, is trimmed. -/
theorem trim_of_suffix {t : Text} (ht : t.Trimmed) {c : CodePoint} {r : Text}
    (hc : c.isBlank = false) (h : c :: r <:+ t) : Text.trim (c :: r) = c :: r := by
  apply Text.trim_of_trimmed
  refine ⟨by simpa using hc, ?_⟩
  obtain ⟨front, rfl⟩ := h
  intro d hd
  apply ht.last
  rw [Option.mem_def] at hd ⊢
  rw [List.getLast?_append, hd, Option.some_or]

theorem trailingText_suffix {t d : Text} (ht : t.Trimmed) (h : trailingText t = some d) :
    d ≠ [] ∧ d <:+ t := by
  have hsuffix := afterAnnotations_suffix t
  unfold trailingText at h
  split at h
  · cases h
  · rename_i c r hafter
    rw [hafter] at hsuffix
    split at h
    · cases h
    · rename_i hname
      have hc : c.isBlank = false := by
        have : c.isName := by simpa using hname
        simp only [CodePoint.isName, Bool.and_eq_true, Bool.not_eq_true'] at this
        exact this.1
      have hwhole : Text.trim (c :: r) = c :: r := trim_of_suffix ht hc hsuffix
      split at h
      · rcases afterName_cases (c :: r) with hsame | ⟨e, u, hcut, he, hu⟩
        · rw [hsame, hwhole] at h
          cases h
          exact ⟨by simp, hsuffix⟩
        · have hu' := hu.trans hsuffix
          rw [hcut, trim_of_suffix ht he hu'] at h
          cases h
          exact ⟨by simp, hu'⟩
      · rw [hwhole] at h
        cases h
        exact ⟨by simp, hsuffix⟩

/-! The token of a tag. -/

/-- What holds of the token of every tag. -/
structure Token.IsTag (t : Token) : Prop where
  clean : t.content.clean = t.content
  types : ∀ ts, t.types = some ts → ts ≠ [] ∧ ∀ x ∈ ts, x ≠ []
  names : ∀ ns, t.names = some ns → ns ≠ [] ∧ ∀ n ∈ ns, n.IsWord ∧ NoBraces n
  argName : ∀ a, t.argName = some a → t.types.isSome ∧ ∃ ns, t.names = some ns ∧ a ∈ ns
  description : ∀ d, t.description = some d → d ≠ [] ∧ d <:+ t.content

theorem trimmed_clean (t : Text) : t.clean.Trimmed := by
  by_cases hne : t.clean = []
  · rw [hne]
    exact ⟨by simp, by simp⟩
  · exact (Text.spaced_fold hne).trimmed

theorem isTag_ofTag {s : Settings} (hdefault : s.defaultType ≠ []) (tag : RawTag) :
    (Token.ofTag s tag).IsTag where
  clean := Text.clean_clean _
  types ts hts := by
    obtain ⟨hne, rfl⟩ : annotations tag.content.clean ≠ [] ∧ _ = ts := by
      simpa [Token.ofTag] using hts
    refine ⟨by simpa using hne, fun x hx => ?_⟩
    obtain ⟨a, -, rfl⟩ := List.mem_map.mp hx
    cases hempty : nonempty? a.type with
    | none => exact hdefault
    | some u =>
      obtain ⟨hne, rfl⟩ := nonempty?_eq_some.mp hempty
      exact hne
  names ns hns := by
    obtain ⟨hne, rfl⟩ : followingNames tag.content.clean ≠ [] ∧ _ = ns := by
      simpa [Token.ofTag] using hns
    exact ⟨hne, fun n hn => isWord_of_mem_followingNames hn⟩
  argName a ha := by
    obtain ⟨found, hfound, hname⟩ := List.exists_of_findSome?_eq_some ha
    have hmem := mem_followingNames hfound hname
    refine ⟨?_, followingNames tag.content.clean, ?_, hmem⟩
    · simp [Token.ofTag, List.ne_nil_of_mem hfound]
    · simp [Token.ofTag, List.ne_nil_of_mem hmem]
  description d hd := trailingText_suffix (trimmed_clean _) hd

/-! The entries of a declaration. -/

/-- An ASCII letter, an underscore or a dollar sign, then word characters and dollar signs. -/
def IsIdentifier (t : Text) : Prop :=
  ∃ c r, t = c :: r ∧ c.isIdentifierStart ∧ ∀ d ∈ r, d.isIdentifierPart

/-- What holds of every entry of a declaration. -/
structure Entry.Sound (e : Entry) : Prop where
  name : IsIdentifier e.name
  value_ne_nil : e.value ≠ []
  trimmed : e.value.Trimmed

theorem isIdentifier_of_cutIdentifier {t name rest : Text}
    (h : cutIdentifier t = some (name, rest)) : IsIdentifier name := by
  cases t with
  | nil => cases h
  | cons c r =>
    simp only [cutIdentifier] at h
    split at h
    · rename_i hc
      cases h
      exact ⟨c, _, rfl, hc, fun d hd => List.mem_takeWhile_imp hd⟩
    · cases h

theorem isIdentifier_of_cutKey {t key rest : Text} (h : cutKey t = some (key, rest)) :
    IsIdentifier key := by
  cases t with
  | nil => cases h
  | cons q r =>
    simp only [cutKey] at h
    split at h
    · split at h
      · rename_i hcut
        split at h
        · cases h
          exact isIdentifier_of_cutIdentifier hcut
        · cases h
      · cases h
    · exact isIdentifier_of_cutIdentifier h

theorem head_afterColon {t value : Text} (h : afterColon t = some value) :
    ∀ c ∈ value.head?, c.isBlank = false := by
  unfold afterColon at h
  dsimp only at h
  split at h
  · cases h
    exact Text.head_trimLeft _
  · cases h

theorem sound_of_cutField {t rest : Text} {e : Entry} (h : cutField t = some (e, rest)) :
    e.Sound := by
  unfold cutField at h
  split at h
  · cases h
  · rename_i key r hkey
    split at h
    · rename_i c v hcolon
      have hc : c.isBlank = false := head_afterColon hcolon c rfl
      split at h
      · cases h
      · cases h
        exact ⟨isIdentifier_of_cutKey hkey, Text.trim_ne_nil List.mem_cons_self hc,
          Text.trimmed_trim _⟩
    · cases h

theorem sound_of_mem_fields {t : Text} {e : Entry} (h : e ∈ fields t) : e.Sound := by
  fun_induction fields t with
  | case1 t e' rest hcut ih =>
    rcases List.mem_cons.mp h with rfl | h
    · exact sound_of_cutField hcut
    · exact ih h
  | case2 => cases h
  | case3 c r hcut ih => exact ih h

/-- A piece that is blank throughout is no parameter. -/
theorem exists_nonblank_of_mem_splitParameters {t piece : Text} {pieces : List Text}
    (h : splitParameters t = some pieces) (hpiece : piece ∈ pieces) :
    ∃ c ∈ piece, c.isBlank = false := by
  unfold splitParameters at h
  split at h
  · cases h
  · obtain ⟨all, -, rfl⟩ := Option.map_eq_some_iff.mp h
    simpa using (List.mem_filter.mp hpiece).2

theorem sound_of_mem_parameters {t : Text} {e : Entry} (h : e ∈ parameters t) : e.Sound := by
  obtain ⟨piece, hpiece, hentry⟩ := List.mem_filterMap.mp h
  obtain ⟨name, hname, rfl⟩ := Option.map_eq_some_iff.mp hentry
  obtain ⟨pieces, hpieces⟩ : ∃ pieces, splitParameters t = some pieces := by
    cases hsplit : splitParameters t with
    | none => simp [hsplit] at hpiece
    | some pieces => exact ⟨pieces, rfl⟩
  rw [hpieces, Option.getD_some] at hpiece
  obtain ⟨c, hc, hblank⟩ := exists_nonblank_of_mem_splitParameters hpieces hpiece
  obtain ⟨⟨_, rest⟩, hcut, rfl⟩ := Option.map_eq_some_iff.mp hname
  exact ⟨isIdentifier_of_cutIdentifier hcut, Text.trim_ne_nil hc hblank, Text.trimmed_trim _⟩

/-- What holds of the token of every entry. -/
structure Token.IsEntry (t : Token) : Prop where
  label : IsIdentifier t.label
  content_ne_nil : t.content ≠ []
  trimmed : t.content.Trimmed
  description : t.description = none
  types : t.types = none
  names : t.names = none
  argName : t.argName = none

theorem isEntry_ofEntry {e : Entry} (h : e.Sound) : (Token.ofEntry e).IsEntry :=
  ⟨h.name, h.value_ne_nil, h.trimmed, rfl, rfl, rfl, rfl⟩

theorem isEntry_of_mem_declarationTokens {k : NodeKind} {t : Text} {token : Token}
    (h : token ∈ declarationTokens k t) : token.IsEntry := by
  obtain ⟨e, he, rfl⟩ := List.mem_map.mp h
  apply isEntry_ofEntry
  cases k with
  | dataType => exact sound_of_mem_fields he
  | proto => exact sound_of_mem_parameters he
  | comment => cases he
  | other => cases he

theorem isEntry_of_mem_claimedTokens {ns : List SourceNode} {token : Token}
    (h : token ∈ claimedTokens ns) : token.IsEntry := by
  unfold claimedTokens at h
  split at h
  · exact isEntry_of_mem_declarationTokens h
  · cases h

/-! The tokens of a run. -/

theorem content_descriptionToken_ne_nil {s : Settings} (hplaceholder : s.placeholder ≠ [])
    (t : Text) : (descriptionToken s t).content ≠ [] := by
  unfold descriptionToken description
  split
  · exact hplaceholder
  · rename_i d hne
    simpa using hne

theorem exists_of_mem_pairedComments {s : Settings} {ns : List SourceNode} {c : Comment}
    (h : c ∈ pairedComments s ns) :
    ∃ before t after, ns = before ++ ⟨.comment, t⟩ :: after ∧
      c.children = descriptionToken s t :: (tagTokens s t ++ claimedTokens after) := by
  induction ns with
  | nil => cases h
  | cons n ns ih =>
    -- a comment among the later nodes
    have hlater : c ∈ pairedComments s ns → ∃ before t after,
        n :: ns = before ++ ⟨.comment, t⟩ :: after ∧
          c.children = descriptionToken s t :: (tagTokens s t ++ claimedTokens after) := by
      intro hmem
      obtain ⟨before, t, after, hns, hc⟩ := ih hmem
      exact ⟨n :: before, t, after, by rw [hns]; rfl, hc⟩
    simp only [pairedComments] at h
    split at h
    · rename_i hn
      rcases List.mem_cons.mp h with rfl | h
      · have hk : n.kind = .comment := by simpa [SourceNode.isComment] using hn
        exact ⟨[], n.content, ns, by rw [← hk]; rfl, rfl⟩
      · exact hlater h
    · exact hlater h

/-- A comment of the tree that comes from a comment node. It begins with a description that is not
empty, goes on with the tags of that node's text, and ends with the entries of the declaration that
claimed it; each token is as it must be for its origin. -/
def Comment.ByOrigin (s : Settings) (nodes : List SourceNode) (c : Comment) : Prop :=
  ∃ before t after d,
    nodes = before ++ ⟨.comment, t⟩ :: after ∧
    c.children = d :: (tagTokens s t ++ claimedTokens after) ∧
    d.label = text "description" ∧ d.content ≠ [] ∧
    (∀ token ∈ tagTokens s t, token.IsTag) ∧
    ∀ token ∈ claimedTokens after, token.IsEntry

/-- Under settings that were read from a document, a collecting run gives a tree in which every
token of every comment is as it must be for its origin. -/
theorem Run.parse_tokens_by_origin {label doc : Text} {s : Settings}
    (hs : Settings.ofDocument label doc = .ok s) (sourceFile : Text) (nodes : List SourceNode) :
    ∃ tree,
      (Run.parse { sourceFile := sourceFile, settings := s, failFast := false } nodes).tree =
        some tree ∧
      ∀ c ∈ tree.comments, c.ByOrigin s nodes := by
  obtain ⟨hplaceholder, hdefault⟩ := Settings.nonempty_of_ofDocument hs
  refine ⟨⟨pairedComments s nodes⟩, Run.tree_parse_collecting rfl nodes, fun c hc => ?_⟩
  obtain ⟨before, t, after, hnodes, hchildren⟩ := exists_of_mem_pairedComments hc
  refine ⟨before, t, after, descriptionToken s t, hnodes, hchildren, rfl,
    content_descriptionToken_ne_nil hplaceholder t, fun token htoken => ?_,
    fun token htoken => isEntry_of_mem_claimedTokens htoken⟩
  obtain ⟨tag, -, rfl⟩ := List.mem_map.mp htoken
  exact isTag_ofTag hdefault tag

/-- A comment without a description whose tag has braces that do not match, and a prototype with a
blank piece and a default. -/
theorem Run.parse_tokens_by_origin_unmatched :
    let nodes : List SourceNode :=
      [⟨.comment, text "/** #param \x7d a \x7b \x7b\x7d \x7b b\x7d c d */"⟩,
        ⟨.proto, text "f( , ...xs = g(1) )"⟩]
    Settings.ofDocument (text "<string>") (text "marker: '#'") = .ok Settings.hashMarker ∧
    ∃ tree,
      (Run.parse { settings := Settings.hashMarker, failFast := false } nodes).tree = some tree ∧
      ∀ c ∈ tree.comments, c.ByOrigin Settings.hashMarker nodes := by
  intro nodes
  exact ⟨Settings.ofDocument_hashMarker,
    Run.parse_tokens_by_origin Settings.ofDocument_hashMarker (text "<string>") nodes⟩

end CommentTags
