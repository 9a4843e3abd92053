import CommentTags.Proofs.Scanning
import CommentTags.Proofs.SettingsDocument

/-!
The layout of a comment has no part in what is extracted. A gap, that is blanks and bullets with a
blank at each end, can be written as one space: no scan stops in it or can tell what stands in it,
and cleaning makes one space of it anyway.
-/

namespace CommentTags

/-- Blanks and stars with a blank at each end. -/
def isGap (w : Text) : Bool :=
  w.all (fun c => c.isBlank || c = .char '*') && w.head?.any CodePoint.isBlank &&
    w.getLast?.any CodePoint.isBlank

theorem isBlank_space : CodePoint.isBlank (.char ' ') := rfl

theorem isGap_space : isGap [.char ' '] := rfl

section Gap

variable {w : Text}

theorem margin_of_isGap (hw : isGap w) : ∀ c ∈ w, c.isBlank ∨ c = .char '*' := by
  simp only [isGap, Bool.and_eq_true, List.all_eq_true, Bool.or_eq_true, decide_eq_true_eq] at hw
  exact hw.1.1

theorem exists_cons_of_isGap (hw : isGap w) : ∃ b w', w = b :: w' ∧ b.isBlank := by
  simp only [isGap, Bool.and_eq_true, Option.any_eq_true] at hw
  obtain ⟨b, hhead, hb⟩ := hw.1.2
  obtain ⟨w', rfl⟩ := List.head?_eq_some_iff.mp hhead
  exact ⟨b, w', rfl, hb⟩

theorem exists_concat_of_isGap (hw : isGap w) : ∃ w' b, w = w' ++ [b] ∧ b.isBlank := by
  simp only [isGap, Bool.and_eq_true, Option.any_eq_true] at hw
  obtain ⟨b, hlast, hb⟩ := hw.2
  obtain ⟨w', rfl⟩ := List.getLast?_eq_some_iff.mp hlast
  exact ⟨w', b, rfl, hb⟩

theorem quiet_gap {stop : Option CodePoint → Text → Bool} (hs : BlankBlind stop) (hw : isGap w)
    (prev : Option CodePoint) (after : Text) : Quiet stop prev w after := by
  obtain ⟨w', b, hconcat, hb⟩ := exists_concat_of_isGap hw
  refine hs.quiet_margin (margin_of_isGap hw) ?_ prev after
  simp [hconcat, hb]

/-- A run of code points that are not blank ends before a gap at the latest. -/
theorem takeWhile_gap {p : CodePoint → Bool} (hp : ∀ b, b.isBlank → p b = false) (hw : isGap w)
    (u v : Text) : (u ++ w ++ v).takeWhile p = u.takeWhile p := by
  obtain ⟨b, w', rfl, hb⟩ := exists_cons_of_isGap hw
  rw [List.append_assoc, List.cons_append]
  exact takeWhile_append_cons (hp b hb) u _

theorem dropWhile_gap {p : CodePoint → Bool} (hp : ∀ b, b.isBlank → p b = false) (hw : isGap w)
    (u v : Text) : (u ++ w ++ v).dropWhile p = u.dropWhile p ++ w ++ v := by
  obtain ⟨b, w', rfl, hb⟩ := exists_cons_of_isGap hw
  rw [List.append_assoc, List.append_assoc, List.cons_append]
  exact dropWhile_append_cons (hp b hb) u _

/-- The words on both sides of a gap are cleaned apart. -/
theorem cleanWords_gap (hw : isGap w) (u v : Text) :
    Text.cleanWords (u ++ w ++ v) = u.cleanWords ++ v.cleanWords := by
  obtain ⟨w', b, rfl, hb⟩ := exists_concat_of_isGap hw
  have hmargin := margin_of_isGap hw
  have hsplit : u ++ (w' ++ [b]) ++ v = (u ++ w') ++ b :: v := by simp
  rw [hsplit, Text.cleanWords_append_cons hb]
  congr 1
  cases w' with
  | nil => rw [List.append_nil]
  | cons c w' =>
    obtain ⟨c', w'', hcons, hc⟩ := exists_cons_of_isGap hw
    obtain ⟨rfl, -⟩ := List.cons.inj hcons
    have hrest : Text.cleanWords w' = [] :=
      Text.cleanWords_of_margin fun d hd => hmargin d (by simp [hd])
    rw [Text.cleanWords_append_cons hc, hrest, List.append_nil]

theorem clean_gap (hw : isGap w) (u v : Text) :
    Text.clean (u ++ w ++ v) = Text.clean (u ++ [.char ' '] ++ v) := by
  rw [Text.clean_eq_joinWith, Text.clean_eq_joinWith, cleanWords_gap hw, cleanWords_gap isGap_space]

end Gap

/-- Where a scan stops does not depend on what stands in a gap: either before it, or in the text
behind it. -/
theorem cutAt_gap {stop : Option CodePoint → Text → Bool} (hs : BlankBlind stop)
    (prev : Option CodePoint) (u v : Text) :
    (∃ u₁ u₂, u = u₁ ++ u₂ ∧ u₂ ≠ [] ∧
      ∀ w, isGap w → cutAt stop prev (u ++ w ++ v) = (u₁, u₂ ++ w ++ v)) ∨
    ∃ v₁ v₂, ∀ w, isGap w → cutAt stop prev (u ++ w ++ v) = (u ++ w ++ v₁, v₂) := by
  induction u generalizing prev with
  | nil =>
    refine .inr ⟨(cutAt stop (some (.char ' ')) v).1, (cutAt stop (some (.char ' ')) v).2, ?_⟩
    intro w hw
    obtain ⟨w', b, hconcat, hb⟩ := exists_concat_of_isGap hw
    have hbehind : behind prev w = some b := by simp [behind, hconcat]
    rw [List.nil_append, cutAt_of_quiet (quiet_gap hs hw prev v), hbehind,
      hs.cutAt_after_blank hb isBlank_space]
  | cons c u ih =>
    have hsame : ∀ w, isGap w →
        stop prev (c :: (u ++ w ++ v)) = stop prev (c :: (u ++ [.char ' '] ++ v)) := by
      intro w hw
      obtain ⟨b, w', rfl, hb⟩ := exists_cons_of_isGap hw
      have := hs.before_blank prev c u b (.char ' ') (w' ++ v) v hb rfl
      simpa using this
    cases hstop : stop prev (c :: (u ++ [.char ' '] ++ v)) with
    | true =>
      refine .inl ⟨[], c :: u, rfl, by simp, fun w hw => ?_⟩
      exact cutAt_of_stop ((hsame w hw).trans hstop)
    | false =>
      have hstep : ∀ w, isGap w → cutAt stop prev (c :: u ++ w ++ v) =
          (c :: (cutAt stop (some c) (u ++ w ++ v)).1, (cutAt stop (some c) (u ++ w ++ v)).2) := by
        intro w hw
        simp only [List.cons_append, cutAt, hsame w hw, hstop, Bool.false_eq_true, ↓reduceIte]
      rcases ih (some c) with ⟨u₁, u₂, rfl, hne, hcut⟩ | ⟨v₁, v₂, hcut⟩
      · refine .inl ⟨c :: u₁, u₂, rfl, hne, fun w hw => ?_⟩
        rw [hstep w hw, hcut w hw]
      · refine .inr ⟨v₁, v₂, fun w hw => ?_⟩
        rw [hstep w hw, hcut w hw]
        rfl

/-! The description. -/

theorem cutOpener_stars (t : Text) :
    cutOpener (.char '/' :: .char '*' :: t) =
      (.char '/' :: .char '*' :: t.takeWhile (· = .char '*'), t.dropWhile (· = .char '*')) := rfl

theorem cutOpener_slash {t : Text} (h : t.head? ≠ some (.char '*')) :
    cutOpener (.char '/' :: t) = ([], .char '/' :: t) := by
  have hdrop : (.char '/' :: t).dropWhile CodePoint.isBlank = .char '/' :: t := rfl
  have htake : (.char '/' :: t).takeWhile CodePoint.isBlank = [] := rfl
  simp only [cutOpener, hdrop, htake]
  split
  · rename_i r heq
    simp [List.cons.inj heq] at h
  · rfl

/-- The opener ends before the first gap. -/
theorem cutOpener_gap (u v : Text) :
    ∃ opener rest, ∀ w, isGap w →
      cutOpener (.char '/' :: u ++ w ++ v) = (opener, rest ++ w ++ v) := by
  have hstar : ∀ b : CodePoint, b.isBlank → decide (b = .char '*') = false := fun b hb =>
    decide_eq_false (CodePoint.ne_of_isBlank hb rfl)
  by_cases hu : u.head? = some (.char '*')
  · obtain ⟨u', rfl⟩ := List.head?_eq_some_iff.mp hu
    refine ⟨.char '/' :: .char '*' :: u'.takeWhile (· = .char '*'),
      u'.dropWhile (· = .char '*'), fun w hw => ?_⟩
    simp only [List.cons_append]
    rw [cutOpener_stars, takeWhile_gap hstar hw, dropWhile_gap hstar hw]
  · refine ⟨[], .char '/' :: u, fun w hw => ?_⟩
    obtain ⟨b, w', rfl, hb⟩ := exists_cons_of_isGap hw
    simp only [List.cons_append, List.append_assoc]
    refine cutOpener_slash ?_
    cases u with
    | nil => simpa using hstar b hb
    | cons c u => simpa using hu

section Extraction

variable {k : CodePoint} {w : Text}

theorem clean_rawDescription_gap (hk : k.IsMarker) (hw : isGap w) (u v : Text) :
    (rawDescription [k] (.char '/' :: u ++ w ++ v)).clean =
      (rawDescription [k] (.char '/' :: u ++ [.char ' '] ++ v)).clean := by
  obtain ⟨opener, rest, hopener⟩ := cutOpener_gap u v
  simp only [rawDescription, hopener w hw, hopener _ isGap_space]
  rcases cutAt_gap (blankBlind_endsDescription hk) opener.getLast? rest v with
    ⟨u₁, u₂, -, -, hcut⟩ | ⟨v₁, v₂, hcut⟩
  · rw [hcut w hw, hcut _ isGap_space]
  · rw [hcut w hw, hcut _ isGap_space]
    exact clean_gap hw rest v₁

theorem description_gap (hk : k.IsMarker) (hw : isGap w) (u v : Text) :
    description [k] (.char '/' :: u ++ w ++ v) =
      description [k] (.char '/' :: u ++ [.char ' '] ++ v) := by
  unfold description
  rw [clean_rawDescription_gap hk hw]

/-! The tags. -/

/-- The content of a tag counts only once it is cleaned. -/
theorem ofTag_eq_of_clean (s : Settings) (label : Text) {content content' : Text}
    (h : content.clean = content'.clean) :
    Token.ofTag s ⟨label, content⟩ = Token.ofTag s ⟨label, content'⟩ := by
  simp only [Token.ofTag, h]

theorem tagsFrom_cons (k c : CodePoint) (t : Text) :
    tagsFrom [k] (c :: t) =
      let run := t.takeWhile CodePoint.isLabel
      let cut := cutAt (isTagStart [k]) run.getLast? (t.dropWhile CodePoint.isLabel)
      if run.isEmpty then [] else ⟨k :: run, cut.1⟩ :: tagsFrom [k] cut.2 := by
  rw [tagsFrom]
  rfl

/-- The tags are the same, one after the other, up to the one with the gap in its content; and
those behind it are the same. -/
theorem ofTag_tagsFrom_gap (hk : k.IsMarker) (hw : isGap w) (s : Settings) (v : Text) (c : CodePoint)
    (u : Text) :
    (tagsFrom [k] (c :: u ++ w ++ v)).map (Token.ofTag s) =
      (tagsFrom [k] (c :: u ++ [.char ' '] ++ v)).map (Token.ofTag s) := by
  induction hlen : u.length using Nat.strongRecOn generalizing c u with
  | ind n ih =>
    have hlabel : ∀ b : CodePoint, b.isBlank → b.isLabel = false :=
      fun _ => CodePoint.isLabel_of_isBlank
    simp only [List.cons_append, tagsFrom_cons, takeWhile_gap hlabel hw, dropWhile_gap hlabel hw,
      takeWhile_gap hlabel isGap_space, dropWhile_gap hlabel isGap_space]
    split
    · rfl
    · rcases cutAt_gap (blankBlind_isTagStart hk) (u.takeWhile CodePoint.isLabel).getLast?
        (u.dropWhile CodePoint.isLabel) v with ⟨u₁, u₂, hu, hne, hcut⟩ | ⟨v₁, v₂, hcut⟩
      · -- the next tag starts before the gap
        rw [hcut w hw, hcut _ isGap_space, List.map_cons, List.map_cons]
        obtain ⟨c', u', rfl⟩ := List.exists_cons_of_ne_nil hne
        have hshort : u'.length < n := by
          have := Text.length_dropWhile_le CodePoint.isLabel u
          rw [hu] at this
          simp only [List.length_append, List.length_cons] at this
          omega
        rw [ih u'.length hshort c' u' rfl]
      · rw [hcut w hw, hcut _ isGap_space, List.map_cons, List.map_cons]
        rw [ofTag_eq_of_clean s _ (clean_gap hw _ v₁)]

theorem tagTokens_gap {s : Settings} (hs : s.marker = [k]) (hk : k.IsMarker) (hw : isGap w)
    (u v : Text) : tagTokens s (u ++ w ++ v) = tagTokens s (u ++ [.char ' '] ++ v) := by
  simp only [tagTokens, tags, hs]
  rcases cutAt_gap (blankBlind_isTagStart hk) none u v with
    ⟨u₁, u₂, -, hne, hcut⟩ | ⟨v₁, v₂, hcut⟩
  · obtain ⟨c, u', rfl⟩ := List.exists_cons_of_ne_nil hne
    rw [hcut w hw, hcut _ isGap_space]
    exact ofTag_tagsFrom_gap hk hw s v c u'
  · rw [hcut w hw, hcut _ isGap_space]

end Extraction

/-- In a text that begins with a slash, blanks and bullets with a blank at each end can be written
as one space: the comment has the same tokens, and the same tags lack their type. -/
theorem Comment.ofText_layout_independent {label doc : Text} {s : Settings}
    (hs : Settings.ofDocument label doc = .ok s) {u w v : Text}
    (hslash : (u ++ w ++ v).head? = some (.char '/')) (hw : isGap w) :
    Comment.ofText s (u ++ w ++ v) = Comment.ofText s (u ++ [.char ' '] ++ v) ∧
      Comment.missing s (u ++ w ++ v) = Comment.missing s (u ++ [.char ' '] ++ v) := by
  obtain ⟨k, hmarker, hk⟩ := Settings.exists_of_isMarker (Settings.isMarker_of_ofDocument hs)
  have htags := tagTokens_gap hmarker hk hw u v
  obtain ⟨u', rfl⟩ : ∃ u', u = .char '/' :: u' := by
    obtain ⟨b, w', rfl, hb⟩ := exists_cons_of_isGap hw
    cases u with
    | nil =>
      obtain rfl : b = .char '/' := by simpa using hslash
      cases hb
    | cons c u =>
      obtain rfl : c = .char '/' := by simpa using hslash
      exact ⟨u, rfl⟩
  have hdescription : descriptionToken s (.char '/' :: u' ++ w ++ v) =
      descriptionToken s (.char '/' :: u' ++ [.char ' '] ++ v) := by
    simp only [descriptionToken, hmarker, description_gap hk hw]
  exact ⟨by rw [Comment.ofText, hdescription, htags]; rfl,
    by rw [Comment.missing, htags]; rfl⟩

theorem Comment.ofText_layout_independent_bullet :
    isGap (text "\n * ") ∧
    Comment.ofText Settings.hashMarker
        (text "/** Adds a\n * #param x*/ y" ++ text "\n * " ++ text "#return {int} z */") =
      Comment.ofText Settings.hashMarker
        (text "/** Adds a\n * #param x*/ y" ++ text " " ++ text "#return {int} z */") ∧
    Comment.missing Settings.hashMarker
        (text "/** Adds a\n * #param x*/ y" ++ text "\n * " ++ text "#return {int} z */") =
      Comment.missing Settings.hashMarker
        (text "/** Adds a\n * #param x*/ y" ++ text " " ++ text "#return {int} z */") :=
  ⟨rfl, Comment.ofText_layout_independent Settings.ofDocument_hashMarker rfl rfl⟩

end CommentTags
