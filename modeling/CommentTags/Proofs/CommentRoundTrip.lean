import Mathlib.Data.List.Infix
import CommentTags.Proofs.Annotations
import CommentTags.Proofs.Layout

/-!
Comments as they are commonly written: the description on a line of its own, then a line for each
tag with its types, its name and a remark. Extraction gives back what was written. The text is cut
at the tag starts, so a tag is read together with the margin of the line behind it, which cleaning
takes off.
-/

namespace CommentTags

/-- A tag before it is written. -/
structure WrittenTag where
  label : Text
  types : List Text
  name : Text
  remark : Text
  deriving DecidableEq, Repr

namespace WrittenTag

/-- The types, each in braces, then the name and the remark. -/
def content (g : WrittenTag) : Text := g.types.flatMap braced ++ nameAndRemark g.name g.remark

def line (marker : Text) (g : WrittenTag) : Text :=
  text " * " ++ marker ++ g.label ++ text " " ++ g.content ++ text "\n"

/-- The token that the line of a tag stands for. -/
def token (s : Settings) (g : WrittenTag) : Token :=
  { label := g.label
    content := g.content
    description := some g.remark
    types := some (g.types.map fun t => if t = [] then s.defaultType else t)
    names := some [g.name]
    argName := some g.name }

end WrittenTag

/-- The line of a description, unless it is empty. -/
def descriptionLine (d : Text) : Text := if d = [] then [] else text " * " ++ d ++ text "\n"

/-- A comment with a line for the description and one for each tag. -/
def writtenComment (marker d : Text) (gs : List WrittenTag) : Text :=
  text "/**\n" ++ descriptionLine d ++ gs.flatMap (WrittenTag.line marker) ++ text " */"

/-- A piece of text that cleaning leaves alone and that has no word like a tag. -/
structure IsPiece (marker t : Text) : Prop where
  clean : t.clean = t
  opens_no_tag : ∀ w ∈ t.words, opensTag marker w = false

instance (marker t : Text) : Decidable (IsPiece marker t) :=
  decidable_of_iff (t.clean = t ∧ ∀ w ∈ t.words, opensTag marker w = false)
    ⟨fun h => ⟨h.1, h.2⟩, fun h => ⟨h.clean, h.opens_no_tag⟩⟩

/-- What a tag must be like so that its line can be read back. -/
structure WrittenTag.WellFormed (marker : Text) (g : WrittenTag) : Prop where
  label_head : g.label.head?.any CodePoint.isWord
  label_rest : ∀ c ∈ g.label, c.isLabel
  label_marker : ¬ marker <:+: g.label
  types_ne : g.types ≠ []
  types_piece : ∀ t ∈ g.types, IsPiece marker t
  types_braces : ∀ t ∈ g.types, NoBraces t
  name_piece : IsPiece marker g.name
  name_braces : NoBraces g.name
  name_word : g.name.IsWord
  remark_piece : IsPiece marker g.remark
  remark_braces : NoBraces g.remark
  remark_ne : g.remark ≠ []

instance (marker : Text) (g : WrittenTag) : Decidable (g.WellFormed marker) :=
  decidable_of_iff
    ((g.label.head?.any CodePoint.isWord ∧ (∀ c ∈ g.label, c.isLabel) ∧ ¬ marker <:+: g.label) ∧
      (g.types ≠ [] ∧ (∀ t ∈ g.types, IsPiece marker t) ∧ ∀ t ∈ g.types, NoBraces t) ∧
      (IsPiece marker g.name ∧ NoBraces g.name ∧ g.name.IsWord) ∧
      IsPiece marker g.remark ∧ NoBraces g.remark ∧ g.remark ≠ [])
    ⟨fun ⟨⟨a, b, c⟩, ⟨d, e, f⟩, ⟨i, j, k⟩, l, m, n⟩ => ⟨a, b, c, d, e, f, i, j, k, l, m, n⟩,
      fun ⟨a, b, c, d, e, f, i, j, k, l, m, n⟩ => ⟨⟨a, b, c⟩, ⟨d, e, f⟩, ⟨i, j, k⟩, l, m, n⟩⟩

namespace IsPiece

variable {marker t : Text}

theorem no_star (h : IsPiece marker t) : .char '*' ∉ t := Text.star_not_mem_of_clean_eq_self h.clean

theorem spaced (h : IsPiece marker t) (hne : t ≠ []) : Text.Spaced true t :=
  Text.spaced_of_clean_eq_self h.clean hne

theorem quiet {k : CodePoint} (hk : k.IsMarker) (h : IsPiece [k] t) (prev : Option CodePoint)
    {after : Text} (hafter : after.head?.any CodePoint.isWord = false) :
    Quiet (isTagStart [k]) prev t after :=
  quiet_of_words hk prev h.no_star h.opens_no_tag hafter

end IsPiece

/-! The content of a tag. -/

theorem Text.Spaced.braced_append {t : Text} (ht : t = [] ∨ Text.Spaced true t) {rest : Text}
    (hrest : Text.Spaced false rest) (atBlank : Bool) :
    Text.Spaced atBlank (braced t ++ rest) := by
  have hopen : CodePoint.isBlank (.char '{') = false := rfl
  have hclose : CodePoint.isBlank (.char '}') = false := rfl
  have hwritten : braced t ++ rest = .char '{' :: (t ++ .char '}' :: rest) := by simp [braced]
  rw [hwritten, Text.spaced_cons_of_not_blank hopen]
  have hend : Text.Spaced false (.char '}' :: rest) :=
    (Text.spaced_cons_of_not_blank hclose _ _).mpr hrest
  rcases ht with rfl | ht
  · exact hend
  · exact ht.weaken.append hend

namespace WrittenTag

variable {g : WrittenTag} {marker : Text}

theorem label_ne_nil (hg : g.WellFormed marker) : g.label ≠ [] := by
  intro hnil
  simpa [hnil] using hg.label_head

theorem spaced_nameAndRemark (hg : g.WellFormed marker) :
    Text.Spaced false (nameAndRemark g.name g.remark) := by
  rw [nameAndRemark, Text.spaced_space]
  refine (hg.name_word.spaced true).append ?_
  rw [Text.spaced_space]
  exact hg.remark_piece.spaced hg.remark_ne

theorem spaced_content (hg : g.WellFormed marker) : Text.Spaced true g.content := by
  have hall : ∀ types : List Text, (∀ t ∈ types, IsPiece marker t) → types ≠ [] →
      ∀ atBlank, Text.Spaced atBlank (types.flatMap braced ++ nameAndRemark g.name g.remark) := by
    intro types htypes hne
    induction types with
    | nil => exact absurd rfl hne
    | cons t types ih =>
      intro atBlank
      have ht : t = [] ∨ Text.Spaced true t :=
        (Classical.em (t = [])).imp_right (htypes t List.mem_cons_self).spaced
      rw [List.flatMap_cons, List.append_assoc]
      refine .braced_append ht ?_ atBlank
      cases types with
      | nil => exact spaced_nameAndRemark hg
      | cons t' types =>
        exact ih (fun u hu => htypes u (List.mem_cons_of_mem t hu)) (by simp) false
  exact hall g.types hg.types_piece hg.types_ne true

theorem star_not_mem_content (hg : g.WellFormed marker) : .char '*' ∉ g.content := by
  intro h
  simp only [content, nameAndRemark, braced, List.mem_append, List.mem_flatMap, List.mem_cons,
    List.not_mem_nil, or_false, CodePoint.char.injEq, Char.reduceEq, false_or] at h
  rcases h with ⟨t, ht, h⟩ | h | h
  · exact (hg.types_piece t ht).no_star h
  · exact hg.name_piece.no_star h
  · exact hg.remark_piece.no_star h

theorem clean_content (hg : g.WellFormed marker) : g.content.clean = g.content :=
  Text.clean_of_spaced (star_not_mem_content hg) (spaced_content hg)

theorem types_annotations_content (hg : g.WellFormed marker) :
    (annotations g.content).map (·.type) = g.types := by
  have hend : annotations (nameAndRemark g.name g.remark) = [] := by
    have := annotations_of_noBraces (noBraces_nameAndRemark hg.name_braces hg.remark_braces) []
    simpa [annotations] using this
  have htrim : g.types.map Text.trim = g.types := by
    have hid : ∀ t ∈ g.types, Text.trim t = id t := fun t ht =>
      Text.trim_of_clean_eq_self (hg.types_piece t ht).clean
    rw [List.map_congr_left hid, List.map_id]
  rw [content, types_annotations hg.types_braces, hend, List.map_nil, List.append_nil, htrim]

theorem remove_marker_label {k : CodePoint} (hg : g.WellFormed [k]) :
    Text.remove [k] (k :: g.label) = g.label := by
  have hk : k ∉ g.label := by
    intro hmem
    obtain ⟨front, back, hsplit⟩ := List.append_of_mem hmem
    exact hg.label_marker ⟨front, back, by simp [hsplit]⟩
  have hne : ∀ c ∈ g.label, c ≠ k := by
    rintro c hc rfl
    exact hk hc
  rw [Text.remove_singleton, List.filter_cons_of_neg (by simp)]
  exact List.filter_eq_self.mpr (by simpa using hne)

/-- The token of a tag, from any content that cleans to what was written. -/
theorem ofTag_eq_token {s : Settings} {k : CodePoint} (hs : s.marker = [k])
    (hg : g.WellFormed [k]) {raw : Text} (hraw : raw.clean = g.content) :
    Token.ofTag s ⟨k :: g.label, raw⟩ = g.token s := by
  have htypes := types_annotations_content hg
  have hfound : (annotations g.content).isEmpty = false := by
    rw [← List.isEmpty_map (f := (·.type)), htypes]
    simpa using hg.types_ne
  have hdefault : ∀ t : Text, (nonempty? t).getD s.defaultType =
      if t = [] then s.defaultType else t := by
    intro t
    cases t <;> simp [nonempty?]
  have hmap : (annotations g.content).map (fun a => (nonempty? a.type).getD s.defaultType) =
      g.types.map fun t => if t = [] then s.defaultType else t := by
    rw [← htypes, List.map_map]
    exact List.map_congr_left fun a _ => hdefault a.type
  have hname : (annotations g.content).findSome? (·.name) = some g.name :=
    name_annotations hg.types_braces hg.types_ne hg.name_word hg.name_braces
  have hnames : followingNames g.content = [g.name] :=
    followingNames_content hg.types_braces hg.types_ne hg.name_word hg.name_braces hg.remark_braces
  have hremark : trailingText g.content = some g.remark :=
    trailingText_content hg.types_braces hg.types_ne hg.name_word hg.name_braces
      (hg.remark_piece.spaced hg.remark_ne) hg.remark_braces
  simp only [Token.ofTag, hraw, hs, remove_marker_label hg, hfound, hmap, hname, hnames, hremark,
    List.isEmpty_cons, Bool.false_eq_true, ↓reduceIte, token]

/-! Cutting the comment at its tags. -/

section Lines

variable {k : CodePoint}

theorem quiet_braced (hk : k.IsMarker) {t : Text} (ht : IsPiece [k] t) (prev : Option CodePoint)
    (after : Text) : Quiet (isTagStart [k]) prev (braced t) after := by
  have hbrace : k ≠ .char '{' ∧ k ≠ .char '}' := by
    simpa [CodePoint.isBrace] using hk.not_brace
  refine ⟨isTagStart_of_ne hbrace.1 prev _, quiet_append.mpr ⟨ht.quiet hk _ rfl, ?_⟩⟩
  exact ⟨isTagStart_of_ne hbrace.2 _ _, trivial⟩

theorem quiet_flatMap_braced (hk : k.IsMarker) {types : List Text}
    (htypes : ∀ t ∈ types, IsPiece [k] t) (prev : Option CodePoint) (after : Text) :
    Quiet (isTagStart [k]) prev (types.flatMap braced) after := by
  induction types generalizing prev with
  | nil => trivial
  | cons t types ih =>
    rw [List.flatMap_cons, quiet_append]
    exact ⟨quiet_braced hk (htypes t List.mem_cons_self) prev _,
      ih (fun u hu => htypes u (List.mem_cons_of_mem t hu)) _⟩

theorem isTagStart_space (hk : k.IsMarker) (prev : Option CodePoint) (t : Text) :
    isTagStart [k] prev (.char ' ' :: t) = false :=
  (blankBlind_isTagStart hk).at_blank prev (.char ' ') t rfl

/-- No tag starts in the content of a tag, whatever comes before it. -/
theorem quiet_content (hk : k.IsMarker) (hg : g.WellFormed [k]) (prev : Option CodePoint)
    (after : Text) : Quiet (isTagStart [k]) prev g.content (.char '\n' :: after) := by
  rw [content, quiet_append]
  refine ⟨quiet_flatMap_braced hk hg.types_piece prev _, isTagStart_space hk _ _, ?_⟩
  rw [quiet_append]
  exact ⟨hg.name_piece.quiet hk _ rfl, isTagStart_space hk _ _, hg.remark_piece.quiet hk _ rfl⟩

/-- The lines of some tags and the end of the comment. -/
def linesAndEnd (marker : Text) (gs : List WrittenTag) : Text :=
  gs.flatMap (line marker) ++ text " */"

/-- What stands before the first tag of some lines, or the end of the comment. -/
def firstMargin : List WrittenTag → Text
  | [] => text " */"
  | _ :: _ => text " * "

/-- The lines of some tags from the first marker on. -/
def fromFirstTag (k : CodePoint) : List WrittenTag → Text
  | [] => []
  | g :: gs =>
    k :: (g.label ++ .char ' ' :: (g.content ++ .char '\n' :: linesAndEnd [k] gs))

theorem linesAndEnd_eq (k : CodePoint) (gs : List WrittenTag) :
    linesAndEnd [k] gs = firstMargin gs ++ fromFirstTag k gs := by
  cases gs with
  | nil => rfl
  | cons g gs => simp [linesAndEnd, firstMargin, fromFirstTag, line, text]

theorem marker_not_mem_firstMargin (hk : k.IsMarker) (gs : List WrittenTag) :
    k ∉ firstMargin gs := by
  have hspace : k ≠ .char ' ' := (CodePoint.ne_of_isBlank rfl hk.not_blank).symm
  cases gs with
  | nil => simp [firstMargin, text, hspace, hk.not_star, hk.not_slash]
  | cons g gs => simp [firstMargin, text, hspace, hk.not_star]

theorem isTagStart_fromFirstTag {gs : List WrittenTag} (hg : g.WellFormed [k]) :
    isTagStart [k] (some (.char ' ')) (fromFirstTag k (g :: gs)) := by
  have hopens : opensFragment (some (.char ' ')) = true := rfl
  have hhead := hg.label_head
  obtain ⟨c, rest, hlabel⟩ := List.exists_cons_of_ne_nil (label_ne_nil hg)
  rw [hlabel] at hhead
  simpa [isTagStart_eq, fromFirstTag, opensTag_cons, hopens, hlabel] using hhead

theorem cutAt_linesAndEnd (hk : k.IsMarker) {gs : List WrittenTag}
    (hgs : ∀ g ∈ gs, g.WellFormed [k]) (prev : Option CodePoint) :
    cutAt (isTagStart [k]) prev (linesAndEnd [k] gs) = (firstMargin gs, fromFirstTag k gs) := by
  have hquiet := quiet_of_not_mem (marker_not_mem_firstMargin hk gs) prev (fromFirstTag k gs)
  have hstop : cutAt (isTagStart [k]) (behind prev (firstMargin gs)) (fromFirstTag k gs) =
      ([], fromFirstTag k gs) := by
    cases gs with
    | nil => rfl
    | cons g gs => exact cutAt_of_stop (isTagStart_fromFirstTag (hgs g List.mem_cons_self))
  rw [linesAndEnd_eq, cutAt_of_quiet hquiet, hstop, List.append_nil]

/-- The tags as they are cut out, each with the margin of the next line. -/
def rawTags (k : CodePoint) : List WrittenTag → List RawTag
  | [] => []
  | g :: gs =>
    ⟨k :: g.label, .char ' ' :: (g.content ++ .char '\n' :: firstMargin gs)⟩ :: rawTags k gs

theorem tagsFrom_fromFirstTag (hk : k.IsMarker) {gs : List WrittenTag}
    (hgs : ∀ g ∈ gs, g.WellFormed [k]) : tagsFrom [k] (fromFirstTag k gs) = rawTags k gs := by
  induction gs with
  | nil =>
    rw [fromFirstTag, tagsFrom]
    rfl
  | cons g gs ih =>
    have hg := hgs g List.mem_cons_self
    have hgs' : ∀ g ∈ gs, g.WellFormed [k] := fun x hx => hgs x (List.mem_cons_of_mem g hx)
    have hne := label_ne_nil hg
    have hlabel := hg.label_rest
    have hspace : ¬ CodePoint.isLabel (.char ' ') := by
      simp [show CodePoint.isLabel (.char ' ') = false from CodePoint.isLabel_of_isBlank rfl]
    have hquiet : Quiet (isTagStart [k]) g.label.getLast? (.char ' ' :: (g.content ++ [.char '\n']))
        (linesAndEnd [k] gs) := by
      refine ⟨isTagStart_space hk _ _, quiet_append.mpr ⟨quiet_content hk hg _ _, ?_, trivial⟩⟩
      exact (blankBlind_isTagStart hk).at_blank _ _ _ rfl
    have hcut : cutAt (isTagStart [k]) g.label.getLast?
        (.char ' ' :: (g.content ++ .char '\n' :: linesAndEnd [k] gs)) =
          (.char ' ' :: (g.content ++ .char '\n' :: firstMargin gs), fromFirstTag k gs) := by
      have := cutAt_of_quiet hquiet
      rw [cutAt_linesAndEnd hk hgs'] at this
      simpa using this
    rw [fromFirstTag, tagsFrom_cons, List.takeWhile_append_of_pos hlabel,
      List.dropWhile_append_of_pos hlabel, List.takeWhile_cons_of_neg hspace,
      List.dropWhile_cons_of_neg hspace]
    simp only [List.append_nil, hcut, List.isEmpty_iff, hne, ↓reduceIte, ih hgs', rawTags]

theorem cleanWords_firstMargin (gs : List WrittenTag) : (firstMargin gs).cleanWords = [] := by
  cases gs with
  | nil => rfl
  | cons g gs => rfl

/-- Cleaning takes the margin off. -/
theorem clean_rawContent (hg : g.WellFormed marker) (gs : List WrittenTag) :
    Text.clean (.char ' ' :: (g.content ++ .char '\n' :: firstMargin gs)) = g.content := by
  have hwords : Text.cleanWords (.char ' ' :: (g.content ++ .char '\n' :: firstMargin gs)) =
      g.content.cleanWords := by
    have hspace := Text.cleanWords_append_cons (b := .char ' ') rfl []
      (g.content ++ .char '\n' :: firstMargin gs)
    rw [List.nil_append] at hspace
    rw [hspace, Text.cleanWords_append_cons (b := .char '\n') rfl, cleanWords_firstMargin]
    simp [show Text.cleanWords [] = [] from rfl]
  rw [Text.clean_eq_joinWith, hwords, ← Text.clean_eq_joinWith, clean_content hg]

theorem map_ofTag_rawTags {s : Settings} (hs : s.marker = [k]) {gs : List WrittenTag}
    (hgs : ∀ g ∈ gs, g.WellFormed [k]) :
    (rawTags k gs).map (Token.ofTag s) = gs.map (token s) := by
  induction gs with
  | nil => rfl
  | cons g gs ih =>
    have hg := hgs g List.mem_cons_self
    rw [rawTags, List.map_cons, List.map_cons, ofTag_eq_token hs hg (clean_rawContent hg gs),
      ih fun x hx => hgs x (List.mem_cons_of_mem g hx)]

end Lines
end WrittenTag

/-! The whole comment. -/

section Comment

variable {k : CodePoint} {d : Text} {gs : List WrittenTag}

open WrittenTag (linesAndEnd firstMargin fromFirstTag)

theorem writtenComment_eq (marker d : Text) (gs : List WrittenTag) :
    writtenComment marker d gs = text "/**\n" ++ descriptionLine d ++ linesAndEnd marker gs := by
  simp [writtenComment, linesAndEnd]

theorem quiet_descriptionLine (hk : k.IsMarker) (hd : IsPiece [k] d) (prev : Option CodePoint)
    (after : Text) : Quiet (endsDescription [k]) prev (descriptionLine d) after := by
  have hblind := blankBlind_endsDescription hk
  unfold descriptionLine
  split
  · trivial
  · rw [quiet_append, quiet_append]
    refine ⟨⟨hblind.quiet_margin (by decide) (by decide) _ _, ?_⟩,
      hblind.quiet_margin (by decide) (by decide) _ _⟩
    exact quiet_endsDescription hd.no_star (hd.quiet hk _ rfl)

/-- What ends no description starts no tag. -/
theorem quiet_isTagStart {t after : Text} {prev : Option CodePoint}
    (h : Quiet (endsDescription [k]) prev t after) : Quiet (isTagStart [k]) prev t after := by
  induction t generalizing prev with
  | nil => trivial
  | cons c t ih =>
    have hc := h.1
    simp only [endsDescription, Bool.or_eq_false_iff] at hc
    exact ⟨hc.1, ih h.2⟩

theorem tagTokens_writtenComment {s : Settings} (hs : s.marker = [k]) (hk : k.IsMarker)
    (hd : IsPiece [k] d) (hgs : ∀ g ∈ gs, g.WellFormed [k]) :
    tagTokens s (writtenComment [k] d gs) = gs.map (WrittenTag.token s) := by
  have hopener : k ∉ text "/**\n" := by
    have hbreak : k ≠ .char '\n' := (CodePoint.ne_of_isBlank rfl hk.not_blank).symm
    simp [text, hk.not_slash, hk.not_star, hbreak]
  have hquiet : Quiet (isTagStart [k]) none (text "/**\n" ++ descriptionLine d)
      (linesAndEnd [k] gs) :=
    quiet_append.mpr ⟨quiet_of_not_mem hopener none _,
      quiet_isTagStart (quiet_descriptionLine hk hd _ _)⟩
  rw [tagTokens, tags, hs, writtenComment_eq, cutAt_of_quiet hquiet,
    WrittenTag.cutAt_linesAndEnd hk hgs, WrittenTag.tagsFrom_fromFirstTag hk hgs,
    WrittenTag.map_ofTag_rawTags hs hgs]

/-- The description ends in the margin of the next line. -/
theorem exists_cutAt_linesAndEnd (hk : k.IsMarker) (hgs : ∀ g ∈ gs, g.WellFormed [k])
    (prev : Option CodePoint) :
    ∃ margin rest, cutAt (endsDescription [k]) prev (linesAndEnd [k] gs) = (margin, rest) ∧
      margin.cleanWords = [] := by
  have hblind := blankBlind_endsDescription hk
  cases gs with
  | nil =>
    have hquiet : Quiet (endsDescription [k]) prev (text " ") (text "*/") :=
      hblind.quiet_margin (by decide) (by decide) _ _
    have hstop : endsDescription [k] (behind prev (text " ")) (text "*/") := by
      simp [endsDescription, text]
    have hcut := cutAt_of_quiet hquiet
    rw [cutAt_of_stop hstop] at hcut
    exact ⟨_, _, hcut, rfl⟩
  | cons g gs =>
    have hquiet : Quiet (endsDescription [k]) prev (text " * ") (fromFirstTag k (g :: gs)) :=
      hblind.quiet_margin (by decide) (by decide) _ _
    have hstop : endsDescription [k] (behind prev (text " * ")) (fromFirstTag k (g :: gs)) := by
      rw [endsDescription, Bool.or_eq_true]
      exact .inl (WrittenTag.isTagStart_fromFirstTag (hgs g List.mem_cons_self))
    have hcut := cutAt_of_quiet hquiet
    rw [cutAt_of_stop hstop] at hcut
    rw [WrittenTag.linesAndEnd_eq]
    exact ⟨_, _, hcut, rfl⟩

theorem cleanWords_descriptionLine (d : Text) {margin : Text} (hmargin : margin.cleanWords = []) :
    Text.cleanWords (descriptionLine d ++ margin) = d.cleanWords := by
  unfold descriptionLine
  split
  · rename_i hd
    rw [hd, List.nil_append, hmargin]
    rfl
  · have hwritten : text " * " ++ d ++ text "\n" ++ margin =
        text " *" ++ .char ' ' :: (d ++ .char '\n' :: margin) := by simp [text]
    have hbullet : Text.cleanWords (text " *") = [] := rfl
    rw [hwritten, Text.cleanWords_append_cons (b := .char ' ') rfl,
      Text.cleanWords_append_cons (b := .char '\n') rfl, hbullet, hmargin, List.nil_append,
      List.append_nil]

theorem cutOpener_writtenComment (marker d : Text) (gs : List WrittenTag) :
    cutOpener (writtenComment marker d gs) =
      (text "/**", .char '\n' :: (descriptionLine d ++ linesAndEnd marker gs)) := by
  have hwritten : writtenComment marker d gs =
      .char '/' :: .char '*' :: .char '*' :: .char '\n' ::
        (descriptionLine d ++ linesAndEnd marker gs) := by
    rw [writtenComment_eq]
    simp [text]
  rw [hwritten, cutOpener_stars]
  simp [text]

theorem clean_rawDescription_writtenComment (hk : k.IsMarker) (hd : IsPiece [k] d)
    (hgs : ∀ g ∈ gs, g.WellFormed [k]) :
    (rawDescription [k] (writtenComment [k] d gs)).clean = d := by
  have hblind := blankBlind_endsDescription hk
  have hquiet : Quiet (endsDescription [k]) (text "/**").getLast? (.char '\n' :: descriptionLine d)
      (linesAndEnd [k] gs) :=
    ⟨hblind.at_blank _ _ _ rfl, quiet_descriptionLine hk hd _ _⟩
  obtain ⟨margin, rest, hcut, hmargin⟩ := exists_cutAt_linesAndEnd hk hgs
    (behind (text "/**").getLast? (.char '\n' :: descriptionLine d))
  have hraw : rawDescription [k] (writtenComment [k] d gs) =
      [] ++ .char '\n' :: (descriptionLine d ++ margin) := by
    have := cutAt_of_quiet hquiet
    rw [hcut] at this
    simp only [rawDescription, cutOpener_writtenComment]
    rw [← List.cons_append, this]
    rfl
  have hwords : (rawDescription [k] (writtenComment [k] d gs)).cleanWords = d.cleanWords := by
    rw [hraw, Text.cleanWords_append_cons (b := .char '\n') rfl,
      cleanWords_descriptionLine d hmargin]
    rfl
  rw [Text.clean_eq_joinWith, hwords, ← Text.clean_eq_joinWith, hd.clean]

theorem descriptionToken_writtenComment {s : Settings} (hs : s.marker = [k]) (hk : k.IsMarker)
    (hd : IsPiece [k] d) (hgs : ∀ g ∈ gs, g.WellFormed [k]) :
    descriptionToken s (writtenComment [k] d gs) =
      { label := descriptionLabel, content := if d = [] then s.placeholder else d } := by
  rw [descriptionToken, hs, description, clean_rawDescription_writtenComment hk hd hgs]
  cases d <;> rfl

end Comment

/-- A comment that is written from a description and some tags gives them back: the description or
the placeholder, then a token for each tag in order with all that was written, and no tag lacks its
type. -/
theorem Comment.ofText_writtenComment {label doc : Text} {s : Settings}
    (hs : Settings.ofDocument label doc = .ok s) {d : Text} (hd : IsPiece s.marker d)
    {gs : List WrittenTag} (hgs : ∀ g ∈ gs, g.WellFormed s.marker) :
    Comment.ofText s (writtenComment s.marker d gs) =
      ⟨{ label := descriptionLabel, content := if d = [] then s.placeholder else d } ::
        gs.map (WrittenTag.token s)⟩ ∧
    Comment.missing s (writtenComment s.marker d gs) = [] := by
  obtain ⟨k, hmarker, hk⟩ := Settings.exists_of_isMarker (Settings.isMarker_of_ofDocument hs)
  rw [hmarker] at hd hgs ⊢
  have htags := tagTokens_writtenComment hmarker hk hd hgs
  refine ⟨?_, ?_⟩
  · rw [Comment.ofText, htags, descriptionToken_writtenComment hmarker hk hd hgs]
  · rw [Comment.missing, htags]
    refine List.filter_eq_nil_iff.mpr fun t ht => ?_
    obtain ⟨g, -, rfl⟩ := List.mem_map.mp ht
    simp [Token.lacksType, WrittenTag.token]

/-- A union of types one of which is empty, a label with a dot and a hyphen, and texts with slashes
and markers in the middle of words. -/
theorem Comment.ofText_writtenComment_hashMarker :
    let gs : List WrittenTag :=
      [⟨text "param", [text "a / b", [], text "c#d"], text "/x", text "first # of/ two"⟩,
        ⟨text "return.v-1", [text "number"], text "n", text "/"⟩]
    (IsPiece (text "#") (text "Adds a#b / c") ∧ ∀ g ∈ gs, g.WellFormed (text "#")) ∧
    Comment.ofText Settings.hashMarker (writtenComment (text "#") (text "Adds a#b / c") gs) =
      ⟨{ label := descriptionLabel, content := text "Adds a#b / c" } ::
        gs.map (WrittenTag.token Settings.hashMarker)⟩ ∧
    Comment.missing Settings.hashMarker (writtenComment (text "#") (text "Adds a#b / c") gs) = [] :=
  ⟨by decide +kernel,
    Comment.ofText_writtenComment Settings.ofDocument_hashMarker (by decide +kernel)
      (by decide +kernel)⟩

end CommentTags
