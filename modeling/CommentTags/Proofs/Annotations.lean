import CommentTags.Grammar.Annotation
import CommentTags.Proofs.Cleaning

/-!
What the three scans for types, names and free text find behind an annotation that is written out.
-/

namespace CommentTags

/-- An annotation as it is written. -/
def braced (t : Text) : Text := .char '{' :: (t ++ [.char '}'])

/-- A text without braces. -/
def NoBraces (t : Text) : Prop := ∀ c ∈ t, c.isBrace = false

instance (t : Text) : Decidable (NoBraces t) :=
  inferInstanceAs (Decidable (∀ c ∈ t, c.isBrace = false))

namespace Text

theorem trimLeft_of_head {t : Text} (h : ∀ c ∈ t.head?, c.isBlank = false) : trimLeft t = t := by
  cases t with
  | nil => rfl
  | cons c t => simp [trimLeft, h c rfl]

theorem Spaced.head {t : Text} (h : Spaced true t) : ∀ c ∈ t.head?, c.isBlank = false := by
  cases t with
  | nil => simp
  | cons c t =>
    cases hc : c.isBlank with
    | true => simp [spaced_cons_of_blank hc] at h
    | false => simpa using hc

theorem Spaced.last {atBlank : Bool} {t : Text} (h : Spaced atBlank t) :
    ∀ c ∈ t.getLast?, c.isBlank = false := by
  induction t generalizing atBlank with
  | nil => simp
  | cons c t ih =>
    have hrest : c.isBlank = false ∨ Spaced true t := by
      cases hc : c.isBlank with
      | true => exact .inr ((spaced_cons_of_blank hc _ _).mp h).2.2
      | false => exact .inl rfl
    cases t with
    | nil => simpa [Spaced] using hrest
    | cons d t =>
      rw [List.getLast?_cons_cons]
      rcases hrest with hc | hrest
      · exact ih ((spaced_cons_of_not_blank hc _ _).mp h)
      · exact ih hrest

/-- A spaced text has nothing to trim. -/
theorem trim_of_spaced {t : Text} (h : Spaced true t) : trim t = t := by
  have hrev : trimLeft t.reverse = t.reverse :=
    trimLeft_of_head (by simpa [List.head?_reverse] using h.last)
  rw [trim, trimLeft_of_head h.head, hrev, List.reverse_reverse]

theorem trim_of_clean_eq_self {t : Text} (h : t.clean = t) : trim t = t := by
  cases t with
  | nil => rfl
  | cons c t => exact trim_of_spaced (spaced_of_clean_eq_self h (by simp))

end Text

theorem isName_iff {c : CodePoint} : c.isName ↔ c.isBlank = false ∧ c.isBrace = false := by
  simp [CodePoint.isName]

theorem isName_eq_false_iff {c : CodePoint} : c.isName = false ↔ c.isBlank ∨ c.isBrace := by
  cases hb : c.isBlank <;> simp [CodePoint.isName, hb]

theorem isName_of_isWord_of_noBraces {w : Text} (hw : w.IsWord) (hb : NoBraces w) :
    ∀ c ∈ w, c.isName := by
  intro c hc
  simp [CodePoint.isName, hw.2 c hc, hb c hc]

section Braced

variable {t : Text}

theorem ne_of_noBraces (ht : NoBraces t) {c : CodePoint} (hc : c ∈ t) :
    c ≠ .char '{' ∧ c ≠ .char '}' := by
  have := ht c hc
  simpa [CodePoint.isBrace] using this

theorem cutSegment_of_noBraces (ht : NoBraces t) (r : Text) :
    cutSegment (t ++ .char '}' :: r) = some (t, r) := by
  have hall : ∀ c ∈ t, (!c.isBrace) = true := fun c hc => by simp [ht c hc]
  have hclose : CodePoint.isBrace (.char '}') = true := rfl
  have hdrop : (t ++ .char '}' :: r).dropWhile (!·.isBrace) = .char '}' :: r := by
    rw [List.dropWhile_append_of_pos hall]
    simp [hclose]
  have htake : (t ++ .char '}' :: r).takeWhile (!·.isBrace) = t := by
    rw [List.takeWhile_append_of_pos hall]
    simp [hclose]
  simp only [cutSegment, hdrop, htake]

theorem annotations_of_noBraces (ht : NoBraces t) (r : Text) :
    annotations (t ++ r) = annotations r := by
  induction t with
  | nil => rfl
  | cons c t ih =>
    have hc := (ne_of_noBraces ht List.mem_cons_self).1
    simp only [List.cons_append, annotations, hc, ↓reduceIte]
    exact ih fun d hd => ht d (List.mem_cons_of_mem c hd)

theorem annotations_braced (ht : NoBraces t) (r : Text) :
    annotations (braced t ++ r) = ⟨t.trim, nonempty? (leadingName r)⟩ :: annotations r := by
  have hwritten : braced t ++ r = .char '{' :: (t ++ .char '}' :: r) := by simp [braced]
  have hclose : annotations (.char '}' :: r) = annotations r := by simp [annotations]
  rw [hwritten, annotations, if_pos rfl, cutSegment_of_noBraces ht, annotations_of_noBraces ht,
    hclose]

theorem followingNames_of_noBraces (ht : NoBraces t) (r : Text) :
    followingNames (t ++ r) = followingNames r := by
  induction t with
  | nil => rfl
  | cons c t ih =>
    have hc := (ne_of_noBraces ht List.mem_cons_self).2
    simp only [List.cons_append, followingNames, hc, ↓reduceIte]
    exact ih fun d hd => ht d (List.mem_cons_of_mem c hd)

theorem followingNames_braced (ht : NoBraces t) (r : Text) :
    followingNames (braced t ++ r) = (nonempty? (leadingName r)).toList ++ followingNames r := by
  have hwritten : braced t ++ r = .char '{' :: (t ++ .char '}' :: r) := by simp [braced]
  have hopen : followingNames (.char '{' :: (t ++ .char '}' :: r)) =
      followingNames (t ++ .char '}' :: r) := by simp [followingNames]
  rw [hwritten, hopen, followingNames_of_noBraces ht]
  simp [followingNames]

theorem afterAnnotations_braced (ht : NoBraces t) (r : Text) :
    afterAnnotations (braced t ++ r) = afterAnnotations r.trimLeft := by
  have hwritten : braced t ++ r = .char '{' :: (t ++ .char '}' :: r) := by simp [braced]
  rw [hwritten, afterAnnotations]
  split
  · rename_i h
    rw [cutSegment_of_noBraces ht] at h
    cases h
    rfl
  · rename_i h
    rw [cutSegment_of_noBraces ht] at h
    cases h

end Braced

/-- A text that begins otherwise has no leading annotation. -/
theorem afterAnnotations_of_head {t : Text} (h : t.head? ≠ some (.char '{')) :
    afterAnnotations t = t := by
  rw [afterAnnotations]
  rintro r rfl
  simp at h

/-! A list of annotations, a name and a remark. -/

/-- A name and a remark as they stand behind annotations. -/
def nameAndRemark (name remark : Text) : Text := .char ' ' :: (name ++ .char ' ' :: remark)

section Content

variable {types : List Text} {name remark : Text}

theorem types_annotations (htypes : ∀ t ∈ types, NoBraces t) (r : Text) :
    (annotations (types.flatMap braced ++ r)).map (·.type) =
      types.map Text.trim ++ (annotations r).map (·.type) := by
  induction types with
  | nil => rfl
  | cons t types ih =>
    rw [List.flatMap_cons, List.append_assoc, annotations_braced (htypes t List.mem_cons_self),
      List.map_cons, ih fun u hu => htypes u (List.mem_cons_of_mem t hu)]
    rfl

theorem leadingName_braced (t r : Text) : leadingName (braced t ++ r) = [] := rfl

theorem trimLeft_nameAndRemark (hname : name.IsWord) :
    Text.trimLeft (nameAndRemark name remark) = name ++ .char ' ' :: remark := by
  obtain ⟨c, name', rfl⟩ := List.exists_cons_of_ne_nil hname.1
  have hc := hname.2 c List.mem_cons_self
  have hspace : CodePoint.isBlank (.char ' ') = true := rfl
  simp [nameAndRemark, Text.trimLeft, hspace, hc]

theorem leadingName_nameAndRemark (hname : name.IsWord) (hbraces : NoBraces name) :
    leadingName (nameAndRemark name remark) = name := by
  have hspace : CodePoint.isName (.char ' ') = false := rfl
  rw [leadingName, trimLeft_nameAndRemark hname,
    List.takeWhile_append_of_pos (isName_of_isWord_of_noBraces hname hbraces)]
  simp [hspace]

theorem nonempty?_of_isWord (hname : name.IsWord) : nonempty? name = some name := by
  simp [nonempty?, hname.1]

theorem name_annotations (htypes : ∀ t ∈ types, NoBraces t) (hne : types ≠ [])
    (hname : name.IsWord) (hbraces : NoBraces name) :
    (annotations (types.flatMap braced ++ nameAndRemark name remark)).findSome? (·.name) =
      some name := by
  induction types with
  | nil => exact absurd rfl hne
  | cons t types ih =>
    rw [List.flatMap_cons, List.append_assoc, annotations_braced (htypes t List.mem_cons_self),
      List.findSome?_cons]
    cases types with
    | nil =>
      simp [leadingName_nameAndRemark hname hbraces, nonempty?_of_isWord hname]
    | cons t' types =>
      have hrest := ih (fun u hu => htypes u (List.mem_cons_of_mem t hu)) (by simp)
      rw [List.flatMap_cons, List.append_assoc] at hrest ⊢
      simpa [leadingName_braced, nonempty?] using hrest

theorem noBraces_nameAndRemark (hbraces : NoBraces name) (hremark : NoBraces remark) :
    NoBraces (nameAndRemark name remark) := by
  intro c hc
  simp only [nameAndRemark, List.mem_cons, List.mem_append] at hc
  rcases hc with rfl | hc | rfl | hc
  · rfl
  · exact hbraces c hc
  · rfl
  · exact hremark c hc

theorem followingNames_content (htypes : ∀ t ∈ types, NoBraces t) (hne : types ≠ [])
    (hname : name.IsWord) (hbraces : NoBraces name) (hremark : NoBraces remark) :
    followingNames (types.flatMap braced ++ nameAndRemark name remark) = [name] := by
  have hend : followingNames (nameAndRemark name remark) = [] := by
    have := followingNames_of_noBraces (noBraces_nameAndRemark hbraces hremark) []
    simpa [followingNames] using this
  induction types with
  | nil => exact absurd rfl hne
  | cons t types ih =>
    rw [List.flatMap_cons, List.append_assoc, followingNames_braced (htypes t List.mem_cons_self)]
    cases types with
    | nil =>
      simp [leadingName_nameAndRemark hname hbraces, nonempty?_of_isWord hname, hend]
    | cons t' types =>
      have hrest := ih (fun u hu => htypes u (List.mem_cons_of_mem t hu)) (by simp)
      rw [List.flatMap_cons, List.append_assoc] at hrest ⊢
      simpa [leadingName_braced, nonempty?] using hrest

theorem afterAnnotations_content (htypes : ∀ t ∈ types, NoBraces t) (hne : types ≠ [])
    (hname : name.IsWord) (hbraces : NoBraces name) :
    afterAnnotations (types.flatMap braced ++ nameAndRemark name remark) =
      name ++ .char ' ' :: remark := by
  induction types with
  | nil => exact absurd rfl hne
  | cons t types ih =>
    rw [List.flatMap_cons, List.append_assoc, afterAnnotations_braced (htypes t List.mem_cons_self)]
    cases types with
    | nil =>
      rw [List.flatMap_nil, List.nil_append, trimLeft_nameAndRemark hname]
      refine afterAnnotations_of_head ?_
      obtain ⟨c, name', rfl⟩ := List.exists_cons_of_ne_nil hname.1
      simpa using (ne_of_noBraces hbraces List.mem_cons_self).1
    | cons t' types =>
      have hopen : ∀ r : Text, Text.trimLeft ((t' :: types).flatMap braced ++ r) =
          (t' :: types).flatMap braced ++ r := fun _ => rfl
      rw [hopen]
      exact ih (fun u hu => htypes u (List.mem_cons_of_mem t hu)) (by simp)

/-- The name goes if a remark follows it. -/
theorem afterName_remark (hname : name.IsWord) (hbraces : NoBraces name)
    (hspaced : Text.Spaced true remark) (hremark : NoBraces remark) :
    afterName (name ++ .char ' ' :: remark) = remark := by
  have hspace : CodePoint.isName (.char ' ') = false := rfl
  have hrest : (name ++ .char ' ' :: remark).dropWhile CodePoint.isName = .char ' ' :: remark := by
    rw [List.dropWhile_append_of_pos (isName_of_isWord_of_noBraces hname hbraces)]
    simp [hspace]
  have htrim : Text.trimLeft (.char ' ' :: remark) = remark :=
    Text.trimLeft_of_head hspaced.head
  cases remark with
  | nil => simp [Text.Spaced] at hspaced
  | cons c remark =>
    have hc : c.isBrace = false := hremark c List.mem_cons_self
    simp only [afterName, hrest, htrim]
    simp [hc]

theorem trailingText_content (htypes : ∀ t ∈ types, NoBraces t) (hne : types ≠ [])
    (hname : name.IsWord) (hbraces : NoBraces name) (hspaced : Text.Spaced true remark)
    (hremark : NoBraces remark) :
    trailingText (types.flatMap braced ++ nameAndRemark name remark) = some remark := by
  have hafter : afterAnnotations (types.flatMap braced ++ nameAndRemark name remark) =
      name ++ .char ' ' :: remark := afterAnnotations_content htypes hne hname hbraces
  have hlen : (name ++ .char ' ' :: remark).length <
      (types.flatMap braced ++ nameAndRemark name remark).length := by
    simp only [nameAndRemark, List.length_append, List.length_cons]
    omega
  have hname' := afterName_remark hname hbraces hspaced hremark
  obtain ⟨c, rest, hcons⟩ : ∃ c rest, name ++ .char ' ' :: remark = c :: rest :=
    List.exists_cons_of_ne_nil (by simp)
  have hc : c.isName := by
    obtain ⟨d, word, rfl⟩ := List.exists_cons_of_ne_nil hname.1
    obtain ⟨rfl, -⟩ := List.cons.inj hcons
    exact isName_of_isWord_of_noBraces hname hbraces d List.mem_cons_self
  rw [hcons] at hafter hlen hname'
  simp only [trailingText, hafter, hc, hlen, hname', Bool.not_true, Bool.false_eq_true, ↓reduceIte,
    Text.trim_of_spaced hspaced]

end Content
end CommentTags
