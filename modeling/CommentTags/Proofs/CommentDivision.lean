import CommentTags.Proofs.TagStarts

/-!
How a comment is divided. The opener comes first, then the description, up to the first tag start
or comment end behind the opener; if a tag starts there, it is the first tag of the comment, so that
opener, description and tags are the whole text. A comment of blanks and stars has no tags, and no
description unless its stars all go to the opener, which leaves the closing slash by itself.
-/

namespace CommentTags

/-- How long the opener of a text is: the blanks that it begins with and, if a slash and stars come
next, the slash and all of those stars. -/
def openerLength (t : Text) : Nat :=
  let blanks := (t.takeWhile CodePoint.isBlank).length
  let stars := ((t.drop (blanks + 1)).takeWhile (· = .char '*')).length
  if t[blanks]? = some (.char '/') ∧ 0 < stars then blanks + 1 + stars else blanks

/-- Does a comment end at position `p`? -/
def isCommentEndAt (t : Text) (p : Nat) : Bool :=
  t[p]? == some (.char '*') && t[p + 1]? == some (.char '/')

/-- The first position behind the opener where a tag starts or a comment ends; else the end of the
text. -/
def descriptionEnd (k : CodePoint) (t : Text) : Nat :=
  ((List.range t.length).find? fun p =>
    openerLength t ≤ p && (isTagStartAt k t p || isCommentEndAt t p)).getD t.length

/-! The opener. -/

theorem cutOpener_append (t : Text) : (cutOpener t).1 ++ (cutOpener t).2 = t := by
  have hsplit := List.takeWhile_append_dropWhile (l := t) (p := CodePoint.isBlank)
  simp only [cutOpener]
  split
  · rename_i r hrest
    rw [hrest] at hsplit
    simpa using hsplit
  · exact hsplit

theorem drop_length_takeWhile (p : CodePoint → Bool) (t : Text) :
    t.drop (t.takeWhile p).length = t.dropWhile p := by
  induction t with
  | nil => rfl
  | cons c t ih => cases hc : p c <;> simp [hc, ih]

theorem length_cutOpener (t : Text) : (cutOpener t).1.length = openerLength t := by
  have hhead : t[(t.takeWhile CodePoint.isBlank).length]? =
      (t.dropWhile CodePoint.isBlank).head? := by
    rw [← List.head?_drop, drop_length_takeWhile]
  have htail : t.drop ((t.takeWhile CodePoint.isBlank).length + 1) =
      (t.dropWhile CodePoint.isBlank).tail := by
    rw [← List.tail_drop, drop_length_takeWhile]
  simp only [cutOpener, openerLength, hhead, htail]
  split
  · rename_i r hrest
    simp [hrest]
    omega
  · rename_i hno
    rw [if_neg]
    rintro ⟨hslash, hstars⟩
    obtain ⟨r, hr⟩ := List.head?_eq_some_iff.mp hslash
    cases r with
    | nil => simp [hr] at hstars
    | cons c r =>
      by_cases hc : c = .char '*'
      · exact hno r (hc ▸ hr)
      · simp [hr, hc] at hstars

theorem cutOpener_eq_take_drop (t : Text) :
    cutOpener t = (t.take (openerLength t), t.drop (openerLength t)) := by
  have htake := @List.take_left _ (cutOpener t).1 (cutOpener t).2
  have hdrop := @List.drop_left _ (cutOpener t).1 (cutOpener t).2
  rw [cutOpener_append, length_cutOpener] at htake hdrop
  rw [htake, hdrop]

theorem openerLength_le (t : Text) : openerLength t ≤ t.length := by
  have hlen := congrArg List.length (cutOpener_append t)
  rw [List.length_append, length_cutOpener] at hlen
  omega

/-- Blanks, a slash and stars are all that an opener holds. -/
theorem mem_opener {t : Text} {c : CodePoint} (h : c ∈ t.take (openerLength t)) :
    c.isBlank ∨ c = .char '/' ∨ c = .char '*' := by
  have hopener : t.take (openerLength t) = (cutOpener t).1 := by rw [cutOpener_eq_take_drop]
  rw [hopener, cutOpener] at h
  split at h
  · simp only [List.mem_append, List.mem_cons] at h
    rcases h with h | rfl | rfl | h
    · exact .inl (List.mem_takeWhile_imp h)
    · exact .inr (.inl rfl)
    · exact .inr (.inr rfl)
    · exact .inr (.inr (by simpa using List.mem_takeWhile_imp h))
  · exact .inl (List.mem_takeWhile_imp h)

/-- A marker is none of these. -/
theorem CodePoint.IsMarker.not_delimiter {k : CodePoint} (hk : k.IsMarker) :
    ¬ (k.isBlank ∨ k = .char '/' ∨ k = .char '*') := by
  rintro (h | h | h)
  · rw [hk.not_blank] at h
    cases h
  · exact hk.not_slash h
  · exact hk.not_star h

/-! Scans by position. -/

theorem cutAt_eq_take_drop {stop : Option CodePoint → Text → Bool} {prev : Option CodePoint}
    {t : Text} {p : Nat} (hp : p ≤ t.length)
    (hquiet : ∀ i < p, stop (behind prev (t.take i)) (t.drop i) = false)
    (hstop : p = t.length ∨ stop (behind prev (t.take p)) (t.drop p)) :
    cutAt stop prev t = (t.take p, t.drop p) := by
  induction t generalizing prev p with
  | nil => simp [cutAt]
  | cons c t ih =>
    cases p with
    | zero => exact cutAt_of_stop (by simpa [behind] using hstop)
    | succ p =>
      have hc : stop prev (c :: t) = false := by simpa [behind] using hquiet 0 (by omega)
      have hrest : cutAt stop (some c) t = (t.take p, t.drop p) := by
        refine ih (by simpa using hp) (fun i hi => ?_) ?_
        · simpa [behind_cons] using hquiet (i + 1) (by omega)
        · simpa [behind_cons] using hstop
      simp [cutAt, hc, hrest]

/-- A scan that begins at position `n` of a text stops at the first position `e` from there on
where it may stop. -/
theorem cutAt_from {stop : Option CodePoint → Text → Bool} {t : Text} {n e : Nat} (hn : n ≤ e)
    (he : e ≤ t.length)
    (hquiet : ∀ p, n ≤ p → p < e → stop (behind none (t.take p)) (t.drop p) = false)
    (hstop : e = t.length ∨ stop (behind none (t.take e)) (t.drop e)) :
    cutAt stop (t.take n).getLast? (t.drop n) = ((t.take e).drop n, t.drop e) := by
  have hprev : (t.take n).getLast? = behind none (t.take n) := by simp [behind]
  have hat : ∀ i, stop (behind (behind none (t.take n)) ((t.drop n).take i)) ((t.drop n).drop i) =
      stop (behind none (t.take (n + i))) (t.drop (n + i)) := by
    intro i
    rw [← behind_append, ← List.take_add, List.drop_drop]
  have hend : n + (e - n) = e := by omega
  have hcut : cutAt stop (behind none (t.take n)) (t.drop n) =
      ((t.drop n).take (e - n), (t.drop n).drop (e - n)) := by
    apply cutAt_eq_take_drop
    · simp only [List.length_drop]
      omega
    · intro i hi
      rw [hat]
      exact hquiet (n + i) (by omega) (by omega)
    · rw [hat, hend, List.length_drop]
      rcases hstop with hstop | hstop
      · exact .inl (by omega)
      · exact .inr hstop
  rw [hprev, hcut, List.drop_take, List.drop_drop, hend]

/-! The end of the description. -/

section Marker

variable {k : CodePoint}

theorem endsDescription_eq {t : Text} {p : Nat} (hp : p < t.length) :
    endsDescription [k] (behind none (t.take p)) (t.drop p) =
      (isTagStartAt k t p || isCommentEndAt t p) := by
  have hdrop : t.drop p = t[p] :: t.drop (p + 1) := List.drop_eq_getElem_cons hp
  rw [endsDescription, isTagStart_eq_isTagStartAt hp, hdrop, isPrefixOf_commentEnd, isCommentEndAt,
    List.head?_drop, List.getElem?_eq_getElem hp]
  rfl

/-- The description ends behind the opener, and not before the first place where it may. -/
theorem descriptionEnd_first (t : Text) :
    (openerLength t ≤ descriptionEnd k t ∧ descriptionEnd k t ≤ t.length) ∧
      (∀ p, openerLength t ≤ p → p < descriptionEnd k t →
        (isTagStartAt k t p || isCommentEndAt t p) = false) ∧
      (descriptionEnd k t = t.length ∨
        (isTagStartAt k t (descriptionEnd k t) || isCommentEndAt t (descriptionEnd k t))) := by
  unfold descriptionEnd
  cases hfind : (List.range t.length).find? fun p =>
      openerLength t ≤ p && (isTagStartAt k t p || isCommentEndAt t p) with
  | none =>
    rw [Option.getD_none]
    rw [List.find?_range_eq_none] at hfind
    refine ⟨⟨openerLength_le t, Nat.le_refl _⟩, fun p hp hlt => ?_, .inl rfl⟩
    simpa [hp] using hfind p hlt
  | some e =>
    rw [Option.getD_some]
    rw [List.find?_range_eq_some] at hfind
    obtain ⟨hstop, hlt, hbefore⟩ := hfind
    rw [Bool.and_eq_true, decide_eq_true_eq] at hstop
    have hle : e ≤ t.length := Nat.le_of_lt (List.mem_range.mp hlt)
    refine ⟨⟨hstop.1, hle⟩, fun p hp hlt => ?_, .inr hstop.2⟩
    simpa [hp] using hbefore p hlt

theorem rawDescription_eq (t : Text) :
    rawDescription [k] t = (t.take (descriptionEnd k t)).drop (openerLength t) := by
  obtain ⟨⟨hopener, hle⟩, hbefore, hend⟩ := @descriptionEnd_first k t
  simp only [rawDescription, cutOpener_eq_take_drop]
  rw [cutAt_from hopener hle]
  · intro p hp hlt
    rw [endsDescription_eq (by omega)]
    exact hbefore p hp hlt
  · rcases Nat.lt_or_ge (descriptionEnd k t) t.length with hlt | hge
    · rw [endsDescription_eq hlt]
      exact hend
    · exact .inl (by omega)

theorem description_eq (m t : Text) : description m t = nonempty? (rawDescription m t).clean := by
  unfold description
  cases (rawDescription m t).clean <;> rfl

theorem not_isTagStartAt_opener (hk : k.IsMarker) {t : Text} {p : Nat} (hp : p < openerLength t) :
    isTagStartAt k t p = false := by
  cases hstart : isTagStartAt k t p with
  | false => rfl
  | true =>
    simp only [isTagStartAt, Bool.and_eq_true, beq_iff_eq] at hstart
    have hmem : k ∈ t.take (openerLength t) := by
      refine List.mem_of_getElem? (i := p) ?_
      rw [List.getElem?_take_of_lt hp]
      exact hstart.1.1
    exact absurd (mem_opener hmem) hk.not_delimiter

theorem not_isTagStartAt_before (hk : k.IsMarker) {t : Text} {p : Nat}
    (hp : p < descriptionEnd k t) : isTagStartAt k t p = false := by
  rcases Nat.lt_or_ge p (openerLength t) with hlt | hge
  · exact not_isTagStartAt_opener hk hlt
  · obtain ⟨-, hbefore, -⟩ := @descriptionEnd_first k t
    exact (Bool.or_eq_false_iff.mp (hbefore p hge hp)).1

/-- If a tag starts where the description ends, the tags are all of the rest. -/
theorem flatMap_tags_of_isTagStartAt (hk : k.IsMarker) {t : Text}
    (hstart : isTagStartAt k t (descriptionEnd k t)) (hlt : descriptionEnd k t < t.length) :
    (tags [k] t).flatMap (fun g => g.label ++ g.content) = t.drop (descriptionEnd k t) := by
  have hstop : isTagStart [k] (behind none (t.take (descriptionEnd k t)))
      (t.drop (descriptionEnd k t)) := by
    rw [isTagStart_eq_isTagStartAt hlt]
    exact hstart
  have hcut : cutAt (isTagStart [k]) none t =
      (t.take (descriptionEnd k t), t.drop (descriptionEnd k t)) := by
    refine cutAt_eq_take_drop (Nat.le_of_lt hlt) (fun i hi => ?_) (.inr hstop)
    rw [isTagStart_eq_isTagStartAt (by omega)]
    exact not_isTagStartAt_before hk hi
  rw [tags, hcut]
  exact (tagSequence_tagsFrom hk (.inr hstop)).flatMap_eq

end Marker

/-- The description is what stands between the opener and the first tag start or comment end behind
it, cleaned. No tag starts before that place. If one starts there, it is the first of the tags, so
the text is its opener, its description and its tags, and nothing else. -/
theorem description_divides {label doc : Text} {s : Settings}
    (hs : Settings.ofDocument label doc = .ok s) :
    ∃ k, s.marker = [k] ∧ ∀ t : Text,
      let opener : Text := t.take (openerLength t)
      let d : Text := (t.take (descriptionEnd k t)).drop (openerLength t)
      description s.marker t = (if d.clean = [] then none else some d.clean) ∧
      (∀ p ∈ tagStarts k t, descriptionEnd k t ≤ p) ∧
      (isTagStartAt k t (descriptionEnd k t) →
        (tagStarts k t).head? = some (descriptionEnd k t) ∧
        (tags s.marker t).flatMap (fun g => g.label ++ g.content) = t.drop (descriptionEnd k t) ∧
        t = opener ++ d ++ (tags s.marker t).flatMap fun g => g.label ++ g.content) := by
  obtain ⟨k, hmarker, hk⟩ := Settings.exists_of_isMarker (Settings.isMarker_of_ofDocument hs)
  refine ⟨k, hmarker, fun t => ?_⟩
  rw [hmarker]
  dsimp only
  refine ⟨?_, ?_, fun hstart => ?_⟩
  · rw [description_eq, rawDescription_eq]
    simp [nonempty?]
  · intro p hp
    by_contra hlt
    have hno := not_isTagStartAt_before hk (Nat.lt_of_not_le hlt)
    rw [(List.mem_filter.mp hp).2] at hno
    cases hno
  · have hlt : descriptionEnd k t < t.length := by
      have hat : t[descriptionEnd k t]? = some k := by
        simp only [isTagStartAt, Bool.and_eq_true, beq_iff_eq] at hstart
        exact hstart.1.1
      exact (List.getElem?_eq_some_iff.mp hat).1
    have htags := flatMap_tags_of_isTagStartAt hk hstart hlt
    refine ⟨?_, htags, ?_⟩
    · rw [tagStarts, List.head?_filter, List.find?_range_eq_some]
      refine ⟨hstart, List.mem_range.mpr hlt, fun p hp => ?_⟩
      simp [not_isTagStartAt_before hk hp]
    · obtain ⟨⟨hopener, -⟩, -, -⟩ := @descriptionEnd_first k t
      have hfront : t.take (openerLength t) = (t.take (descriptionEnd k t)).take (openerLength t) := by
        rw [List.take_take, Nat.min_eq_left hopener]
      rw [htags, hfront, List.take_append_drop, List.take_append_drop]

/-- A marker behind the opener that starts no tag, and a first tag right behind a slash and a
star. -/
theorem description_divides_behind_star :
    let t : Text := text "\n/**# sum/*#b {int} x*/ #c"
    Settings.ofDocument (text "<string>") (text "marker: '#'") = .ok Settings.hashMarker ∧
      openerLength t = 4 ∧ descriptionEnd (.char '#') t = 11 ∧
      description Settings.hashMarker.marker t = some (text "# sum/") ∧
      (tagStarts (.char '#') t).head? = some 11 ∧
      t = text "\n/**" ++ text "# sum/*" ++
        (tags Settings.hashMarker.marker t).flatMap fun g => g.label ++ g.content := by
  intro t
  have hs := Settings.ofDocument_hashMarker
  have hopener : openerLength t = 4 := by decide +kernel
  have hend : descriptionEnd (.char '#') t = 11 := by decide +kernel
  obtain ⟨k, hmarker, hdivides⟩ := description_divides hs
  obtain rfl : .char '#' = k := (List.cons.inj hmarker).1
  obtain ⟨hdescription, -, hfirst⟩ := hdivides t
  obtain ⟨hhead, -, hwhole⟩ := hfirst (by decide +kernel)
  rw [hopener, hend] at hdescription hwhole
  rw [hend] at hhead
  refine ⟨hs, hopener, hend, ?_, hhead, hwhole⟩
  rw [hdescription]
  decide +kernel

/-! Comments without a text of their own. -/

section Banner

variable {k : CodePoint}

theorem cutAt_of_quiet_to_end {stop : Option CodePoint → Text → Bool} {prev : Option CodePoint}
    {t : Text} (h : Quiet stop prev t []) : cutAt stop prev t = (t, []) := by
  have hcut := cutAt_of_quiet h
  simpa [cutAt] using hcut

theorem tags_of_not_mem {t : Text} (h : k ∉ t) : tags [k] t = [] := by
  rw [tags, cutAt_of_quiet_to_end (quiet_of_not_mem h none [])]
  exact tagsFrom_nil [k]

/-- Blanks and stars are quiet before the end of a comment: the star of that end comes next. -/
theorem BlankBlind.quiet_before_end {stop : Option CodePoint → Text → Bool} (hs : BlankBlind stop)
    {t : Text} (ht : ∀ c ∈ t, c.isBlank ∨ c = .char '*') (prev : Option CodePoint) :
    Quiet stop prev t (text "*/") := by
  induction t generalizing prev with
  | nil => trivial
  | cons c t ih =>
    obtain ⟨hc, hrest⟩ := List.forall_mem_cons.mp ht
    refine ⟨?_, ih hrest _⟩
    rcases hc with hc | rfl
    · exact hs.at_blank prev c _ hc
    · apply hs.at_star
      cases t with
      | nil => simp [text]
      | cons d t =>
        intro hslash
        obtain rfl : d = .char '/' := by simpa using hslash
        rcases hrest _ List.mem_cons_self with h | h
        · cases h
        · simp at h

theorem endsDescription_commentEnd (marker : Text) (prev : Option CodePoint) :
    endsDescription marker prev (text "*/") := by
  simp [endsDescription]

/-- Stars alone go to the opener, with the star of the comment's end. -/
theorem dropWhile_stars {w : Text} (hw : ∀ c ∈ w, c = .char '*') :
    (w ++ text "*/").dropWhile (· = .char '*') = text "/" := by
  rw [List.dropWhile_append_of_pos (by simpa using hw)]
  rfl

theorem dropWhile_of_blank {w : Text} (hw : w.any CodePoint.isBlank) (after : Text) :
    (w ++ after).dropWhile (· = .char '*') = w.dropWhile (· = .char '*') ++ after := by
  rw [List.dropWhile_append, if_neg]
  intro hempty
  obtain ⟨b, hb, hblank⟩ := List.any_eq_true.mp hw
  have hstar := List.dropWhile_eq_nil_iff.mp (List.isEmpty_iff.mp hempty) b hb
  obtain rfl : b = .char '*' := by simpa using hstar
  cases hblank

theorem rawDescription_of_blank (hk : k.IsMarker) {w : Text}
    (hw : ∀ c ∈ w, c.isBlank ∨ c = .char '*') (hblank : w.any CodePoint.isBlank) :
    rawDescription [k] (.char '/' :: .char '*' :: (w ++ text "*/")) =
      w.dropWhile (· = .char '*') := by
  have hrest : ∀ c ∈ w.dropWhile (· = .char '*'), c.isBlank ∨ c = .char '*' := fun c hc =>
    hw c ((List.dropWhile_suffix _).mem hc)
  simp only [rawDescription, cutOpener_stars, dropWhile_of_blank hblank]
  rw [cutAt_of_quiet ((blankBlind_endsDescription hk).quiet_before_end hrest _),
    cutAt_of_stop (endsDescription_commentEnd _ _), List.append_nil]

theorem rawDescription_of_stars (hk : k.IsMarker) {w : Text} (hw : ∀ c ∈ w, c = .char '*') :
    rawDescription [k] (.char '/' :: .char '*' :: (w ++ text "*/")) = text "/" := by
  have hquiet : ∀ prev, Quiet (endsDescription [k]) prev (text "/") [] := by
    intro prev
    have hstart : isTagStart [k] prev (text "/") = false := isTagStart_of_ne hk.not_slash prev []
    refine ⟨?_, trivial⟩
    change endsDescription [k] prev (text "/") = false
    rw [endsDescription, hstart]
    rfl
  simp only [rawDescription, cutOpener_stars, dropWhile_stars hw]
  rw [cutAt_of_quiet_to_end (hquiet _)]

/-- The description of a comment that is nothing but blanks and stars: none if there is a blank
among them, else the slash that closes it. -/
theorem description_banner (hk : k.IsMarker) {w : Text}
    (hw : ∀ c ∈ w, c.isBlank ∨ c = .char '*') :
    description [k] (.char '/' :: .char '*' :: (w ++ text "*/")) =
      if w.any CodePoint.isBlank then none else some (text "/") := by
  rw [description_eq]
  split
  · rename_i hblank
    have hclean : Text.cleanWords (w.dropWhile (· = .char '*')) = [] :=
      Text.cleanWords_of_margin fun c hc => hw c ((List.dropWhile_suffix _).mem hc)
    rw [rawDescription_of_blank hk hw hblank, Text.clean_eq_joinWith, hclean]
    rfl
  · rename_i hblank
    have hstars : ∀ c ∈ w, c = .char '*' := by
      intro c hc
      refine (hw c hc).resolve_left fun h => hblank ?_
      exact List.any_eq_true.mpr ⟨c, hc, h⟩
    rw [rawDescription_of_stars hk hstars]
    rfl

theorem marker_not_mem_banner (hk : k.IsMarker) {w : Text}
    (hw : ∀ c ∈ w, c.isBlank ∨ c = .char '*') :
    k ∉ .char '/' :: .char '*' :: (w ++ text "*/") := by
  have hend : ∀ c ∈ text "*/", c = .char '/' ∨ c = .char '*' := by decide
  intro hmem
  apply hk.not_delimiter
  simp only [List.mem_cons, List.mem_append] at hmem
  rcases hmem with h | h | h | h
  · exact .inr (.inl h)
  · exact .inr (.inr h)
  · exact (hw k h).imp_right .inr
  · exact .inr (hend k h)

end Banner

/-- A comment of stars and blanks between its delimiters has one token, its description. That is
the placeholder if there is a blank; a comment of stars alone is taken for a description that is
its last slash. -/
theorem Comment.ofText_banner {label doc : Text} {s : Settings}
    (hs : Settings.ofDocument label doc = .ok s) (n : Nat) {w : Text}
    (hw : ∀ c ∈ w, c.isBlank ∨ c = .char '*') :
    Comment.ofText s (.char '/' :: List.replicate (n + 1) (.char '*') ++ w ++ text "*/") =
      ⟨[{ label := descriptionLabel
          content := if w.any CodePoint.isBlank then s.placeholder else text "/" }]⟩ := by
  obtain ⟨k, hmarker, hk⟩ := Settings.exists_of_isMarker (Settings.isMarker_of_ofDocument hs)
  -- the first star is apart, the others are part of what stands between the delimiters
  let inside : Text := List.replicate n (.char '*') ++ w
  have htext : .char '/' :: List.replicate (n + 1) (.char '*') ++ w ++ text "*/" =
      .char '/' :: .char '*' :: (inside ++ text "*/") := by
    simp [inside, List.replicate_succ]
  have hinside : ∀ c ∈ inside, c.isBlank ∨ c = .char '*' := by
    intro c hc
    rcases List.mem_append.mp hc with hc | hc
    · exact .inr (List.eq_of_mem_replicate hc)
    · exact hw c hc
  have hblank : inside.any CodePoint.isBlank = w.any CodePoint.isBlank := by
    have hstar : CodePoint.isBlank (.char '*') = false := rfl
    simp [inside, List.any_append, hstar]
  rw [htext, Comment.ofText, tagTokens, descriptionToken, hmarker,
    tags_of_not_mem (marker_not_mem_banner hk hinside), description_banner hk hinside, hblank]
  split <;> rfl

/-- A banner of several lines, with stars of its own at both ends. -/
theorem Comment.ofText_banner_lines :
    (∀ c ∈ text "\t*\n *", c.isBlank ∨ c = .char '*') ∧
      Comment.ofText Settings.hashMarker (text "/***\t*\n **/") =
        ⟨[{ label := descriptionLabel, content := Settings.hashMarker.placeholder }]⟩ := by
  have hw : ∀ c ∈ text "\t*\n *", c.isBlank ∨ c = .char '*' := by decide
  have htext : text "/***\t*\n **/" =
      .char '/' :: List.replicate 3 (.char '*') ++ text "\t*\n *" ++ text "*/" := by decide
  refine ⟨hw, ?_⟩
  rw [htext, Comment.ofText_banner Settings.ofDocument_hashMarker 2 hw]
  decide

/-- The opener takes every star of a comment that is stars alone, so its last slash is left for a
description. -/
theorem Comment.ofText_stars_only :
    Settings.ofDocument (text "<string>") [] = .ok {} ∧
      Comment.ofText {} (text "/***/") = ⟨[{ label := descriptionLabel, content := text "/" }]⟩ ∧
      text "/" ≠ ({} : Settings).placeholder :=
  ⟨ok_of_toOption (by decide +kernel), by decide +kernel, by decide⟩

end CommentTags
