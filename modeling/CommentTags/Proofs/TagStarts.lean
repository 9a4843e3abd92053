import Mathlib.Data.List.TakeWhile
import CommentTags.Proofs.Layout

/-!
The tags of a text against the places where a tag starts. The scan finds one tag for each start,
and a tag reaches from its start to the next one; so the text before the first start and the tags,
put together again, are the text.
-/

namespace CommentTags

/-- Does a tag start at position `p`? The marker stands there and a word character behind it; before
it the text begins, or there is a blank or a star. -/
def isTagStartAt (k : CodePoint) (t : Text) (p : Nat) : Bool :=
  t[p]? == some k && t[p + 1]?.any CodePoint.isWord &&
    (p == 0 || t[p - 1]?.any fun c => c.isBlank || c = .char '*')

/-- The positions of all tag starts, in order. -/
def tagStarts (k : CodePoint) (t : Text) : List Nat :=
  (List.range t.length).filter (isTagStartAt k t)

/-- The parts of a text from each of some positions to the next one, or to the end. -/
def partsFrom (t : Text) (ps : List Nat) : List Text :=
  List.zipWith (fun p q => (t.take q).drop p) ps (ps.tail ++ [t.length])

theorem drop_append_shift (v t : Text) (p : Nat) : (v ++ t).drop (p + v.length) = t.drop p := by
  rw [Nat.add_comm, List.drop_length_add_append]

theorem part_shift (v t : Text) (p q : Nat) :
    ((v ++ t).take (q + v.length)).drop (p + v.length) = (t.take q).drop p := by
  rw [Nat.add_comm q, List.take_length_add_append, drop_append_shift]

/-- Parts that begin behind `v` do not depend on it. -/
theorem partsFrom_shift (v t : Text) (ps : List Nat) :
    partsFrom (v ++ t) (ps.map (· + v.length)) = partsFrom t ps := by
  have hends : (ps.map (· + v.length)).tail ++ [(v ++ t).length] =
      (ps.tail ++ [t.length]).map (· + v.length) := by
    simp [Nat.add_comm]
  simp only [partsFrom, hends, List.zipWith_map, part_shift]

/-- A part in front, if the others begin right behind it or there is nothing behind it. -/
theorem partsFrom_cons_shift (v : Text) {t : Text} {ps : List Nat} (h : ps.headD t.length = 0) :
    partsFrom (v ++ t) (0 :: ps.map (· + v.length)) = v :: partsFrom t ps := by
  cases ps with
  | nil =>
    obtain rfl : t = [] := List.eq_nil_of_length_eq_zero h
    simp [partsFrom]
  | cons p ps =>
    obtain rfl : p = 0 := h
    rw [← partsFrom_shift v t (0 :: ps)]
    simp [partsFrom]

theorem headD_shift (ps : List Nat) (m n : Nat) :
    (ps.map (· + n)).headD (n + m) = n + ps.headD m := by
  cases ps with
  | nil => rfl
  | cons p ps => exact Nat.add_comm p n

/-! Starts found by a scan. -/

/-- The positions of the tag starts in a text that stands after `prev`. -/
def startsFrom (k : CodePoint) : Option CodePoint → Text → List Nat
  | _, [] => []
  | prev, c :: t =>
    (if isTagStart [k] prev (c :: t) then [0] else []) ++ (startsFrom k (some c) t).map (· + 1)

section Marker

variable {k : CodePoint}

theorem startsFrom_eq_filter (prev : Option CodePoint) (t : Text) :
    startsFrom k prev t =
      (List.range t.length).filter fun p => isTagStart [k] (behind prev (t.take p)) (t.drop p) := by
  induction t generalizing prev with
  | nil => rfl
  | cons c t ih =>
    have hshift : (fun p => isTagStart [k] (behind prev ((c :: t).take p)) ((c :: t).drop p)) ∘
        Nat.succ = fun p => isTagStart [k] (behind (some c) (t.take p)) (t.drop p) := by
      funext p
      simp [behind_cons]
    rw [List.length_cons, List.range_succ_eq_map, List.filter_cons, List.filter_map, hshift,
      startsFrom, ih]
    cases hstart : isTagStart [k] prev (c :: t) <;> simp [behind, hstart]

theorem opensFragment_take {t : Text} {p : Nat} (hp : p < t.length) :
    opensFragment (behind none (t.take p)) =
      (p == 0 || t[p - 1]?.any fun c => c.isBlank || c = .char '*') := by
  cases p with
  | zero => rfl
  | succ p =>
    have hlast : (t.take (p + 1)).getLast? = some t[p] := by
      simp [List.getLast?_take, show p < t.length by omega]
    simp [behind, hlast, opensFragment, show p < t.length by omega]

/-- What the scan asks at a position is whether a tag starts there. -/
theorem isTagStart_eq_isTagStartAt {t : Text} {p : Nat} (hp : p < t.length) :
    isTagStart [k] (behind none (t.take p)) (t.drop p) = isTagStartAt k t p := by
  have hdrop : t.drop p = t[p] :: t.drop (p + 1) := List.drop_eq_getElem_cons hp
  rw [isTagStart_eq, opensFragment_take hp, hdrop, opensTag_cons, isTagStartAt, List.head?_drop,
    List.getElem?_eq_getElem hp, Bool.and_comm]
  simp only [Option.some_beq_some, Bool.beq_comm]

theorem startsFrom_none (t : Text) : startsFrom k none t = tagStarts k t := by
  rw [startsFrom_eq_filter, tagStarts]
  exact List.filter_congr fun p hp => isTagStart_eq_isTagStartAt (List.mem_range.mp hp)

theorem startsFrom_of_quiet {prev : Option CodePoint} {u t : Text}
    (h : Quiet (isTagStart [k]) prev u t) :
    startsFrom k prev (u ++ t) = (startsFrom k (behind prev u) t).map (· + u.length) := by
  induction u generalizing prev with
  | nil => simp [behind]
  | cons c u ih =>
    obtain ⟨hc, hu⟩ := h
    rw [List.cons_append, startsFrom, hc, ih hu, behind_cons, List.map_map]
    simp only [Bool.false_eq_true, ↓reduceIte, List.nil_append, List.length_cons]
    apply List.map_congr_left
    intro p _
    simp only [Function.comp_apply]
    omega

/-! The scan for tags. -/

theorem quiet_cutAt (stop : Option CodePoint → Text → Bool) (prev : Option CodePoint) (t : Text) :
    Quiet stop prev (cutAt stop prev t).1 (cutAt stop prev t).2 := by
  induction t generalizing prev with
  | nil => trivial
  | cons c t ih =>
    simp only [cutAt]
    split
    · trivial
    · rename_i hc
      refine ⟨?_, ih _⟩
      rw [cutAt_append]
      simpa using hc

theorem stop_cutAt (stop : Option CodePoint → Text → Bool) (prev : Option CodePoint) (t : Text) :
    (cutAt stop prev t).2 = [] ∨
      stop (behind prev (cutAt stop prev t).1) (cutAt stop prev t).2 := by
  induction t generalizing prev with
  | nil => exact .inl rfl
  | cons c t ih =>
    simp only [cutAt]
    split
    · rename_i hc
      exact .inr (by simpa [behind] using hc)
    · rw [behind_cons]
      exact ih _

/-- No tag starts behind code points that are neither blanks nor stars. -/
theorem quiet_of_closed {c : CodePoint} {t : Text} (hc : opensFragment (some c) = false)
    (ht : ∀ d ∈ t, opensFragment (some d) = false) (after : Text) :
    Quiet (isTagStart [k]) (some c) t after := by
  induction t generalizing c with
  | nil => trivial
  | cons d t ih =>
    obtain ⟨hd, ht⟩ := List.forall_mem_cons.mp ht
    exact ⟨by simp [isTagStart_eq, hc], ih hd ht⟩

theorem opensFragment_of_isLabel {c : CodePoint} (h : c.isLabel) :
    opensFragment (some c) = false := by
  have hblank : c.isBlank = false := by
    cases hb : c.isBlank with
    | false => rfl
    | true =>
      rw [CodePoint.isLabel_of_isBlank hb] at h
      cases h
  have hstar : c ≠ .char '*' := by
    rintro rfl
    revert h
    decide
  simp [opensFragment, hblank, hstar]

theorem CodePoint.IsMarker.opensFragment (hk : k.IsMarker) : opensFragment (some k) = false := by
  simp [CommentTags.opensFragment, hk.not_blank, hk.not_star]

/-- A text that is a sequence of tags: each begins at a tag start with the marker and the longest
run of label characters, and no other tag starts in it. -/
inductive TagSequence (k : CodePoint) : Option CodePoint → Text → List RawTag → Prop
  | nil {prev : Option CodePoint} : TagSequence k prev [] []
  | cons {prev : Option CodePoint} {run content rest : Text} {gs : List RawTag} :
      isTagStart [k] prev (k :: run ++ content ++ rest) →
      (run ++ content ++ rest).takeWhile CodePoint.isLabel = run →
      Quiet (isTagStart [k]) (some k) (run ++ content) rest →
      TagSequence k (behind (some k) (run ++ content)) rest gs →
      TagSequence k prev (k :: run ++ content ++ rest) (⟨k :: run, content⟩ :: gs)

theorem exists_of_isTagStart {prev : Option CodePoint} {t : Text} (h : isTagStart [k] prev t) :
    ∃ body, t = k :: body ∧ body.takeWhile CodePoint.isLabel ≠ [] := by
  cases t with
  | nil => simp [isTagStart] at h
  | cons c body =>
    simp only [isTagStart_eq, opensTag_cons, Bool.and_eq_true, beq_iff_eq,
      Option.any_eq_true] at h
    obtain ⟨-, rfl, d, hhead, hd⟩ := h
    obtain ⟨body', rfl⟩ := List.head?_eq_some_iff.mp hhead
    exact ⟨d :: body', rfl, by simp [CodePoint.isLabel_of_isWord hd]⟩

theorem behind_append (prev : Option CodePoint) (t u : Text) :
    behind prev (t ++ u) = behind (behind prev t) u := by
  simp [behind, List.getLast?_append, Option.or_assoc]

/-- One step of the scan: a tag is cut off, and the rest is empty or begins with the next one. -/
theorem tagsFrom_of_isTagStart (hk : k.IsMarker) {prev : Option CodePoint} {t : Text}
    (h : isTagStart [k] prev t) :
    ∃ run content rest, t = k :: run ++ content ++ rest ∧
      (run ++ content ++ rest).takeWhile CodePoint.isLabel = run ∧
      Quiet (isTagStart [k]) (some k) (run ++ content) rest ∧
      (rest = [] ∨ isTagStart [k] (behind (some k) (run ++ content)) rest) ∧
      tagsFrom [k] t = ⟨k :: run, content⟩ :: tagsFrom [k] rest := by
  obtain ⟨body, rfl, hne⟩ := exists_of_isTagStart h
  have hbehind : behind (some k) (body.takeWhile CodePoint.isLabel) =
      (body.takeWhile CodePoint.isLabel).getLast? := by
    rw [behind, List.getLast?_eq_some_getLast hne, Option.some_or]
  have hclosed : ∀ d ∈ body.takeWhile CodePoint.isLabel, opensFragment (some d) = false :=
    fun d hd => opensFragment_of_isLabel (List.mem_takeWhile_imp hd)
  have hbody : body.takeWhile CodePoint.isLabel ++
      (cutAt (isTagStart [k]) (body.takeWhile CodePoint.isLabel).getLast?
        (body.dropWhile CodePoint.isLabel)).1 ++
      (cutAt (isTagStart [k]) (body.takeWhile CodePoint.isLabel).getLast?
        (body.dropWhile CodePoint.isLabel)).2 = body := by
    rw [List.append_assoc, cutAt_append, List.takeWhile_append_dropWhile]
  refine ⟨_, _, _, by rw [List.cons_append, List.cons_append, hbody], by rw [hbody], ?_, ?_, ?_⟩
  · rw [quiet_append, hbehind]
    exact ⟨quiet_of_closed hk.opensFragment hclosed _, quiet_cutAt _ _ _⟩
  · rw [behind_append, hbehind]
    exact stop_cutAt _ _ _
  · rw [tagsFrom_cons]
    exact if_neg (by simpa using hne)

theorem tagsFrom_nil (marker : Text) : tagsFrom marker [] = [] := by
  rw [tagsFrom]
  simp

/-- **The scan finds a sequence of tags** in a text that begins with one. The induction is on the
length of the text: the scan goes on behind the tag that it has cut off. -/
theorem tagSequence_tagsFrom (hk : k.IsMarker) {prev : Option CodePoint} {t : Text}
    (h : t = [] ∨ isTagStart [k] prev t) : TagSequence k prev t (tagsFrom [k] t) := by
  induction hlen : t.length using Nat.strongRecOn generalizing prev t with
  | ind n ih =>
    rcases h with rfl | hstart
    · rw [tagsFrom_nil]
      exact .nil
    · obtain ⟨run, content, rest, rfl, hlabel, hquiet, hnext, htags⟩ :=
        tagsFrom_of_isTagStart hk hstart
      have hshort : rest.length < n := by
        simp only [List.length_append, List.length_cons] at hlen
        omega
      rw [htags]
      exact .cons hstart hlabel hquiet (ih rest.length hshort hnext rfl)

/-! What a sequence of tags says of its text. -/

theorem TagSequence.flatMap_eq {prev : Option CodePoint} {t : Text} {gs : List RawTag}
    (h : TagSequence k prev t gs) : gs.flatMap (fun g => g.label ++ g.content) = t := by
  induction h with
  | nil => rfl
  | cons _ _ _ _ ih => rw [List.flatMap_cons, ih]

/-- A label is the marker and label characters. -/
theorem TagSequence.label_eq {prev : Option CodePoint} {t : Text} {gs : List RawTag}
    (h : TagSequence k prev t gs) {g : RawTag} (hg : g ∈ gs) :
    ∃ run, g.label = k :: run ∧ ∀ c ∈ run, c.isLabel := by
  induction h with
  | nil => cases hg
  | @cons prev run content rest gs hstart hlabel hquiet _ ih =>
    rcases List.mem_cons.mp hg with rfl | hg
    · refine ⟨run, rfl, fun c hc => ?_⟩
      rw [← hlabel] at hc
      exact List.mem_takeWhile_imp hc
    · exact ih hg

/-- A tag starts where the sequence begins, and the other starts are those of the rest. -/
theorem startsFrom_cons {prev : Option CodePoint} {run content rest : Text}
    (hstart : isTagStart [k] prev (k :: run ++ content ++ rest))
    (hquiet : Quiet (isTagStart [k]) (some k) (run ++ content) rest) :
    startsFrom k prev (k :: run ++ content ++ rest) =
      0 :: (startsFrom k (behind (some k) (run ++ content)) rest).map
        (· + (k :: run ++ content).length) := by
  rw [List.cons_append, List.cons_append] at hstart ⊢
  rw [startsFrom, hstart, startsFrom_of_quiet hquiet, List.map_map]
  rfl

/-- The label of a tag that starts at a position. -/
def labelAt (k : CodePoint) (t : Text) (p : Nat) : Text :=
  k :: (t.drop (p + 1)).takeWhile CodePoint.isLabel

theorem labelAt_shift (v t : Text) (p : Nat) :
    labelAt k (v ++ t) (p + v.length) = labelAt k t p := by
  rw [labelAt, Nat.add_right_comm, drop_append_shift, labelAt]

theorem TagSequence.labels_eq {prev : Option CodePoint} {t : Text} {gs : List RawTag}
    (h : TagSequence k prev t gs) :
    gs.map (·.label) = (startsFrom k prev t).map (labelAt k t) := by
  induction h with
  | nil => rfl
  | @cons prev run content rest gs hstart hlabel hquiet _ ih =>
    have hfirst : labelAt k (k :: run ++ content ++ rest) 0 = k :: run := congrArg (k :: ·) hlabel
    rw [startsFrom_cons hstart hquiet, List.map_cons, List.map_cons, List.map_map, ih, hfirst]
    congr 1
    apply List.map_congr_left
    intro p _
    exact (labelAt_shift _ rest p).symm

theorem TagSequence.headD_eq {prev : Option CodePoint} {t : Text} {gs : List RawTag}
    (h : TagSequence k prev t gs) : (startsFrom k prev t).headD t.length = 0 := by
  cases h with
  | nil => rfl
  | cons hstart _ hquiet _ => rw [startsFrom_cons hstart hquiet, List.headD_cons]

theorem TagSequence.parts_eq {prev : Option CodePoint} {t : Text} {gs : List RawTag}
    (h : TagSequence k prev t gs) :
    gs.map (fun g => g.label ++ g.content) = partsFrom t (startsFrom k prev t) := by
  induction h with
  | nil => rfl
  | @cons prev run content rest gs hstart hlabel hquiet hrest ih =>
    rw [startsFrom_cons hstart hquiet, partsFrom_cons_shift _ hrest.headD_eq, List.map_cons, ih]

/-- The tags of a text stand behind a part of it in which none starts. -/
theorem tagSequence_tags (hk : k.IsMarker) (t : Text) :
    ∃ front rest, t = front ++ rest ∧ Quiet (isTagStart [k]) none front rest ∧
      TagSequence k (behind none front) rest (tags [k] t) := by
  refine ⟨(cutAt (isTagStart [k]) none t).1, (cutAt (isTagStart [k]) none t).2,
    (cutAt_append _ _ _).symm, quiet_cutAt _ _ _, ?_⟩
  exact tagSequence_tagsFrom hk (stop_cutAt _ _ _)

end Marker

/-- One tag for each tag start, in order: its label is the marker with the longest run of label
characters behind it, and with its content it is the text from there to the next start or to the
end. So nothing is lost: the text is what stands before the first start, then the tags. -/
theorem tags_lossless {label doc : Text} {s : Settings}
    (hs : Settings.ofDocument label doc = .ok s) :
    ∃ k, s.marker = [k] ∧ ∀ t : Text,
      (tags s.marker t).map (·.label) =
        (tagStarts k t).map (fun p => k :: (t.drop (p + 1)).takeWhile CodePoint.isLabel) ∧
      (tags s.marker t).map (fun g => g.label ++ g.content) = partsFrom t (tagStarts k t) ∧
      t = t.take ((tagStarts k t).headD t.length) ++
        (tags s.marker t).flatMap fun g => g.label ++ g.content := by
  obtain ⟨k, hmarker, hk⟩ := Settings.exists_of_isMarker (Settings.isMarker_of_ofDocument hs)
  refine ⟨k, hmarker, fun t => ?_⟩
  rw [hmarker]
  obtain ⟨front, rest, rfl, hquiet, hseq⟩ := tagSequence_tags hk t
  have hstarts : tagStarts k (front ++ rest) =
      (startsFrom k (behind none front) rest).map (· + front.length) := by
    rw [← startsFrom_none, startsFrom_of_quiet hquiet]
  refine ⟨?_, ?_, ?_⟩
  · rw [hseq.labels_eq, hstarts, List.map_map]
    apply List.map_congr_left
    intro p _
    exact (labelAt_shift front rest p).symm
  · rw [hseq.parts_eq, hstarts, partsFrom_shift]
  · rw [hstarts, List.length_append, headD_shift, hseq.headD_eq, hseq.flatMap_eq, Nat.add_zero,
      List.take_left]

/-- A marker that is itself a label character, and a word character. -/
theorem tags_lossless_underscore :
    let s : Settings := { marker := text "_" }
    let t : Text := text "a_b __c.d\n*_e-_f _ g"
    Settings.ofDocument (text "<string>") (text "marker: _") = .ok s ∧
      tagStarts (.char '_') t = [4, 11] ∧
      (tags s.marker t).map (fun g => g.label ++ g.content) = [text "__c.d\n*", text "_e-_f _ g"] := by
  intro s t
  have hs : Settings.ofDocument (text "<string>") (text "marker: _") = .ok s :=
    ok_of_toOption (by decide +kernel)
  have hstarts : tagStarts (.char '_') t = [4, 11] := by decide +kernel
  obtain ⟨k, hmarker, htags⟩ := tags_lossless hs
  obtain rfl : .char '_' = k := (List.cons.inj hmarker).1
  refine ⟨hs, hstarts, ?_⟩
  rw [(htags t).2.1, hstarts]
  decide +kernel

end CommentTags
