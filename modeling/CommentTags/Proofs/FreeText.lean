import CommentTags.Proofs.Scanning
import CommentTags.Proofs.TokenInvariants

/-!
The free text of a tag against the grammar of its content: annotations with blanks behind each,
then perhaps a name, then the text. A content can be read so in more than one way. The scan takes
all the annotations that it can and, behind them, a name if something else follows it; that is the
reading with the shortest text, and it finds one whenever there is any.
-/

namespace CommentTags

/-- Annotations one after the other, each with any blanks behind it. -/
inductive AnnotationRun : Text → Prop
  | nil : AnnotationRun []
  | cons {inner blanks run : Text} : NoBraces inner → (∀ c ∈ blanks, c.isBlank) →
      AnnotationRun run → AnnotationRun (braced inner ++ (blanks ++ run))

/-- The longest run of annotations in front of a text, and what follows it. -/
structure LeadingRun (t run rest : Text) : Prop where
  split : t = run ++ rest
  isRun : AnnotationRun run
  longest : ∀ other, AnnotationRun other → other <+: t → other.length ≤ run.length

/-- A text is a name, blanks and a remark that begins with neither a blank nor a brace. -/
def BehindName (t remark : Text) : Prop :=
  ∃ name blanks, t = name ++ (blanks ++ remark) ∧ name ≠ [] ∧ (∀ c ∈ name, c.isName) ∧
    blanks ≠ [] ∧ (∀ c ∈ blanks, c.isBlank) ∧ remark.head?.any CodePoint.isName

/-- The free text of a content that is a run of annotations and a rest: none if the rest is empty or
begins with a blank or a brace; what stands behind a name if there are annotations and the name has
something behind it; the whole rest otherwise. -/
inductive FreeText (run rest : Text) : Option Text → Prop
  | absent : (∀ c ∈ rest.head?, c.isBlank ∨ c.isBrace) → FreeText run rest none
  | behindName {remark : Text} : run ≠ [] → BehindName rest remark →
      FreeText run rest (some remark.trim)
  | whole : rest.head?.any CodePoint.isName → (run ≠ [] → ∀ remark, ¬ BehindName rest remark) →
      FreeText run rest (some rest.trim)

/-- The ways to read a content: annotations, a name that may stand behind them, and a text. -/
inductive Reading : Text → Text → Prop
  | behindRun {run u : Text} : AnnotationRun run → u.head?.any CodePoint.isName →
      Reading (run ++ u) u
  | behindName {run rest u : Text} : AnnotationRun run → run ≠ [] → BehindName rest u →
      Reading (run ++ rest) u

/-! Runs of annotations. -/

/-- A run begins with a brace, so no blank follows the blanks in front of it. -/
theorem AnnotationRun.head_append {run u : Text} (h : AnnotationRun run)
    (hu : run = [] → ∀ c ∈ u.head?, c.isBlank = false) :
    ∀ c ∈ (run ++ u).head?, c.isBlank = false := by
  cases h with
  | nil => exact hu rfl
  | cons =>
    intro c hc
    obtain rfl : .char '{' = c := by simpa [braced] using hc
    rfl

/-- Blanks and a run behind an annotation are no longer than all the blanks there and the longest
run behind those. -/
theorem AnnotationRun.length_behind_le {blanks run w : Text} {n : Nat} (h : AnnotationRun run)
    (hblanks : ∀ c ∈ blanks, c.isBlank)
    (hn : ∀ other, AnnotationRun other → other <+: Text.trimLeft (blanks ++ (run ++ w)) →
      other.length ≤ n) :
    blanks.length + run.length ≤
      ((blanks ++ (run ++ w)).takeWhile CodePoint.isBlank).length + n := by
  by_cases hrun : run = []
  · rw [hrun, List.takeWhile_append_of_pos hblanks, List.length_append, List.length_nil]
    omega
  · have hhead := h.head_append (u := w) fun hnil => absurd hnil hrun
    have htrim : Text.trimLeft (blanks ++ (run ++ w)) = run ++ w :=
      dropWhile_append_of_head hblanks hhead
    have hlen := hn run h ⟨w, htrim.symm⟩
    rw [takeWhile_append_of_head hblanks hhead]
    omega

/-- **Step.** A run in front of an annotation takes the annotation, the blanks behind it and a run
in front of the rest. -/
theorem AnnotationRun.length_le {inner after : Text} {n : Nat} (hinner : NoBraces inner)
    (hn : ∀ other, AnnotationRun other → other <+: after.trimLeft → other.length ≤ n)
    {other : Text} (hother : AnnotationRun other) (hpre : other <+: braced inner ++ after) :
    other.length ≤ (braced inner).length + ((after.takeWhile CodePoint.isBlank).length + n) := by
  cases hother with
  | nil => exact Nat.zero_le _
  | @cons inner' blanks run hinner' hblanks hrun =>
    obtain ⟨w, hw⟩ := hpre
    -- both begin with the same annotation, since the segment is cut in one way
    have hcut : cutSegment (inner' ++ .char '}' :: (blanks ++ (run ++ w))) =
        cutSegment (inner ++ .char '}' :: after) := by
      congr 1
      simpa [braced] using hw
    rw [cutSegment_of_noBraces hinner', cutSegment_of_noBraces hinner] at hcut
    obtain ⟨rfl, rfl⟩ : inner' = inner ∧ blanks ++ (run ++ w) = after := by simpa using hcut
    have hbehind := hrun.length_behind_le hblanks hn
    simp only [List.length_append]
    omega

theorem AnnotationRun.eq_nil_of_prefix {t other : Text} (hother : AnnotationRun other)
    (ht : t.head? ≠ some (.char '{')) (hpre : other <+: t) : other = [] := by
  cases hother with
  | nil => rfl
  | cons =>
    obtain ⟨w, rfl⟩ := hpre
    exact absurd rfl ht

/-- **Run.** The scan passes over the longest run. -/
theorem leadingRun_afterAnnotations (t : Text) : ∃ run, LeadingRun t run (afterAnnotations t) := by
  fun_induction afterAnnotations t with
  | case1 r inner after hcut ih =>
    obtain ⟨run, hrun⟩ := ih
    obtain ⟨hinner, rfl⟩ := eq_of_cutSegment hcut
    have hwritten : .char '{' :: (inner ++ .char '}' :: after) = braced inner ++ after := by
      simp [braced]
    refine ⟨braced inner ++ (after.takeWhile CodePoint.isBlank ++ run), ?_, ?_, ?_⟩
    · have hafter : after.takeWhile CodePoint.isBlank ++ after.trimLeft = after :=
        List.takeWhile_append_dropWhile
      rw [hwritten, List.append_assoc, List.append_assoc, ← hrun.split, hafter]
    · exact .cons hinner (fun c hc => List.mem_takeWhile_imp hc) hrun.isRun
    · intro other hother hpre
      rw [hwritten] at hpre
      have := AnnotationRun.length_le hinner hrun.longest hother hpre
      simpa only [List.length_append] using this
  | case2 r hcut =>
    refine ⟨[], rfl, .nil, fun other hother hpre => ?_⟩
    cases hother with
    | nil => exact Nat.le_refl _
    | @cons inner blanks run hinner =>
      obtain ⟨w, hw⟩ := hpre
      obtain rfl : inner ++ .char '}' :: (blanks ++ (run ++ w)) = r := by simpa [braced] using hw
      rw [cutSegment_of_noBraces hinner] at hcut
      cases hcut
  | case3 t hopen =>
    refine ⟨[], rfl, .nil, fun other hother hpre => ?_⟩
    have hhead : t.head? ≠ some (.char '{') := by
      intro h
      obtain ⟨r, hr⟩ := List.head?_eq_some_iff.mp h
      exact hopen r hr
    rw [hother.eq_nil_of_prefix hhead hpre]

/-- A run that a name character follows cannot be made longer. -/
theorem AnnotationRun.leadingRun {run u : Text} (h : AnnotationRun run)
    (hu : u.head?.any CodePoint.isName) : LeadingRun (run ++ u) run u := by
  obtain ⟨c, hc, hname⟩ := Option.any_eq_true .. |>.mp hu
  have hblank : ∀ d ∈ u.head?, d.isBlank = false := by
    intro d hd
    obtain rfl : c = d := Option.some.inj (hc.symm.trans hd)
    exact (isName_iff.mp hname).1
  induction h with
  | nil =>
    refine ⟨rfl, .nil, fun other hother hpre => ?_⟩
    have hhead : ([] ++ u).head? ≠ some (.char '{') := by
      intro hopen
      obtain rfl : c = .char '{' := Option.some.inj (hc.symm.trans hopen)
      cases hname
    rw [hother.eq_nil_of_prefix hhead hpre]
  | @cons inner blanks run hinner hblanks hrun ih =>
    refine ⟨rfl, .cons hinner hblanks hrun, fun other hother hpre => ?_⟩
    have hhead := hrun.head_append fun _ => hblank
    have htrim : Text.trimLeft (blanks ++ (run ++ u)) = run ++ u :=
      dropWhile_append_of_head hblanks hhead
    have hpre' : other <+: braced inner ++ (blanks ++ (run ++ u)) := by
      simpa only [List.append_assoc] using hpre
    have hlen := AnnotationRun.length_le hinner (htrim ▸ ih.longest) hother hpre'
    rw [takeWhile_append_of_head hblanks hhead] at hlen
    simpa only [List.length_append] using hlen

theorem LeadingRun.unique {t run rest run' rest' : Text} (h : LeadingRun t run rest)
    (h' : LeadingRun t run' rest') : run = run' ∧ rest = rest' := by
  have hpre : run <+: t := ⟨rest, h.split.symm⟩
  have hpre' : run' <+: t := ⟨rest', h'.split.symm⟩
  have hlen : run.length = run'.length :=
    Nat.le_antisymm (h'.longest run h.isRun hpre) (h.longest run' h'.isRun hpre')
  exact List.append_inj (h.split.symm.trans h'.split) hlen

/-! The name behind the annotations. -/

/-- A name with something behind it goes, with the blanks. -/
theorem afterName_of_behindName {t remark : Text} (h : BehindName t remark) :
    afterName t = remark := by
  obtain ⟨name, blanks, rfl, -, hname, hne, hblanks, hremark⟩ := h
  obtain ⟨c, hc, hcname⟩ := Option.any_eq_true .. |>.mp hremark
  obtain ⟨r, rfl⟩ := List.head?_eq_some_iff.mp hc
  have hstop : ∀ d ∈ (blanks ++ c :: r).head?, d.isName = false := by
    obtain ⟨b, blanks', rfl⟩ := List.exists_cons_of_ne_nil hne
    intro d hd
    obtain rfl : b = d := by simpa using hd
    exact isName_eq_false_iff.mpr (.inl (hblanks b List.mem_cons_self))
  have hdrop : (name ++ (blanks ++ c :: r)).dropWhile CodePoint.isName = blanks ++ c :: r :=
    dropWhile_append_of_head hname hstop
  have htrim : Text.trimLeft (blanks ++ c :: r) = c :: r :=
    dropWhile_append_of_head hblanks (by simpa using (isName_iff.mp hcname).1)
  have hlen : (blanks ++ c :: r).length ≠ (c :: r).length := by
    have := List.length_pos_iff.mpr hne
    simp only [List.length_append]
    omega
  have hbrace : c.isBrace = false := (isName_iff.mp hcname).2
  simp only [afterName, hdrop, htrim, hlen, hbrace, decide_false, Bool.or_self, Bool.false_eq_true,
    ↓reduceIte]

theorem afterName_of_not_behindName {t : Text} (ht : t.head?.any CodePoint.isName)
    (h : ∀ remark, ¬ BehindName t remark) : afterName t = t := by
  unfold afterName
  dsimp only
  split
  · rename_i c r htrim
    split
    · rfl
    · rename_i hkeep
      obtain ⟨hlen, hbrace⟩ : (t.dropWhile CodePoint.isName).length ≠ (c :: r).length ∧
          c.isBrace = false := by simpa using hkeep
      have hblank : c.isBlank = false := Text.head_trimLeft _ c (by rw [htrim]; rfl)
      have hsplit : (t.dropWhile CodePoint.isName).takeWhile CodePoint.isBlank ++ c :: r =
          t.dropWhile CodePoint.isName := by
        rw [← htrim]
        exact List.takeWhile_append_dropWhile
      refine absurd ⟨t.takeWhile CodePoint.isName,
        (t.dropWhile CodePoint.isName).takeWhile CodePoint.isBlank, ?_, ?_,
        fun d hd => List.mem_takeWhile_imp hd, ?_, fun d hd => List.mem_takeWhile_imp hd, ?_⟩
        (h (c :: r))
      · rw [hsplit, List.takeWhile_append_dropWhile]
      · obtain ⟨d, hd, hname⟩ := Option.any_eq_true .. |>.mp ht
        obtain ⟨u, rfl⟩ := List.head?_eq_some_iff.mp hd
        simp [hname]
      · intro hnil
        rw [hnil, List.nil_append] at hsplit
        exact hlen (congrArg List.length hsplit.symm)
      · simp [CodePoint.isName, hblank, hbrace]
  · rfl

theorem BehindName.unique {t remark remark' : Text} (h : BehindName t remark)
    (h' : BehindName t remark') : remark = remark' :=
  (afterName_of_behindName h).symm.trans (afterName_of_behindName h')

theorem BehindName.head {t remark : Text} (h : BehindName t remark) :
    t.head?.any CodePoint.isName := by
  obtain ⟨name, blanks, rfl, hne, hname, -⟩ := h
  obtain ⟨c, name', rfl⟩ := List.exists_cons_of_ne_nil hne
  simpa using hname c List.mem_cons_self

theorem BehindName.length_le {t remark : Text} (h : BehindName t remark) :
    remark.length ≤ t.length := by
  obtain ⟨name, blanks, rfl, -⟩ := h
  simp only [List.length_append]
  omega

/-! The free text. -/

section FreeText

variable {t run rest : Text}

theorem not_any_isName_of_absent (h : ∀ c ∈ rest.head?, c.isBlank ∨ c.isBrace) :
    rest.head?.any CodePoint.isName = false := by
  cases hhead : rest.head? with
  | none => rfl
  | some c => simpa using isName_eq_false_iff.mpr (h c hhead)

/-- There is one free text. -/
theorem FreeText.unique {d d' : Option Text} (h : FreeText run rest d) (h' : FreeText run rest d') :
    d = d' := by
  cases h with
  | absent hhead =>
    have hnone := not_any_isName_of_absent hhead
    cases h' with
    | absent => rfl
    | behindName _ hremark => simp [hremark.head] at hnone
    | whole hname => simp [hname] at hnone
  | behindName hrun hremark =>
    have hname := hremark.head
    cases h' with
    | absent hhead => simp [not_any_isName_of_absent hhead] at hname
    | behindName _ hremark' => rw [hremark.unique hremark']
    | whole _ hnone => exact absurd hremark (hnone hrun _)
  | whole hname hnone =>
    cases h' with
    | absent hhead => simp [not_any_isName_of_absent hhead] at hname
    | behindName hrun hremark => exact absurd hremark (hnone hrun _)
    | whole => rfl

theorem LeadingRun.trailingText_eq (h : LeadingRun t run rest) :
    trailingText t =
      if rest.head?.any CodePoint.isName then
        some (Text.trim (if run = [] then rest else afterName rest))
      else none := by
  obtain ⟨run', hrun'⟩ := leadingRun_afterAnnotations t
  obtain ⟨rfl, hafter⟩ := h.unique hrun'
  have hlen : t.length = run.length + rest.length := by rw [h.split, List.length_append]
  rw [trailingText, ← hafter]
  cases rest with
  | nil => rfl
  | cons c r =>
    -- annotations were taken off exactly if the rest is shorter
    have hshort : (c :: r).length < t.length ↔ run ≠ [] := by
      rw [hlen, ← List.length_pos_iff]
      omega
    cases hname : c.isName with
    | false => simp [hname]
    | true =>
      simp only [hname, hshort, List.head?_cons, Option.any_some, Bool.not_true,
        Bool.false_eq_true, ↓reduceIte]
      by_cases hrun : run = [] <;> simp [hrun]

/-- What the scan gives is the free text of the content. -/
theorem LeadingRun.freeText (h : LeadingRun t run rest) : FreeText run rest (trailingText t) := by
  rw [h.trailingText_eq]
  split
  · rename_i hhead
    by_cases hrun : run = []
    · rw [if_pos hrun]
      exact .whole hhead fun hne => absurd hrun hne
    · rw [if_neg hrun]
      by_cases hremark : ∃ remark, BehindName rest remark
      · obtain ⟨remark, hremark⟩ := hremark
        rw [afterName_of_behindName hremark]
        exact .behindName hrun hremark
      · have hnone : ∀ remark, ¬ BehindName rest remark := not_exists.mp hremark
        rw [afterName_of_not_behindName hhead hnone]
        exact .whole hhead fun _ => hnone
  · rename_i hhead
    refine .absent fun c hc => isName_eq_false_iff.mp ?_
    simpa [Option.mem_def.mp hc] using hhead

theorem trailingText_eq_iff (h : LeadingRun t run rest) {d : Option Text} :
    trailingText t = d ↔ FreeText run rest d :=
  ⟨fun hd => hd ▸ h.freeText, fun hd => h.freeText.unique hd⟩

/-! Readings. -/

/-- Every reading has the longest run of annotations in it. -/
theorem Reading.of_leadingRun {u : Text} (hu : Reading t u) (h : LeadingRun t run rest) :
    rest.head?.any CodePoint.isName ∧ (u = rest ∨ run ≠ [] ∧ BehindName rest u) := by
  cases hu with
  | behindRun hrun hname =>
    obtain ⟨rfl, rfl⟩ := h.unique (hrun.leadingRun hname)
    exact ⟨hname, .inl rfl⟩
  | behindName hrun hne hremark =>
    obtain ⟨rfl, rfl⟩ := h.unique (hrun.leadingRun hremark.head)
    exact ⟨hremark.head, .inr ⟨hne, hremark⟩⟩

/-- The free text is that of the reading with the shortest text, and there is none exactly if there
is no reading. -/
theorem LeadingRun.shortest_reading (h : LeadingRun t run rest) :
    (trailingText t = none ∧ ∀ u, ¬ Reading t u) ∨
      ∃ u, Reading t u ∧ trailingText t = some u.trim ∧ ∀ v, Reading t v → u.length ≤ v.length := by
  generalize hd : trailingText t = d
  cases (trailingText_eq_iff h).mp hd with
  | absent hhead =>
    refine .inl ⟨rfl, fun u hu => ?_⟩
    have hname := (hu.of_leadingRun h).1
    simp [not_any_isName_of_absent hhead] at hname
  | @behindName remark hne hremark =>
    refine .inr ⟨remark, h.split ▸ .behindName h.isRun hne hremark, rfl, fun v hv => ?_⟩
    rcases (hv.of_leadingRun h).2 with rfl | ⟨-, hv⟩
    · exact hremark.length_le
    · rw [hremark.unique hv]
  | whole hname hnone =>
    refine .inr ⟨rest, h.split ▸ .behindRun h.isRun hname, rfl, fun v hv => ?_⟩
    rcases (hv.of_leadingRun h).2 with rfl | ⟨hne, hv⟩
    · exact Nat.le_refl _
    · exact absurd hv (hnone hne v)

end FreeText

/-- The free text of a content is decided by its longest leading run of annotations and what
follows that, and it is the text of the shortest reading. Of a tag it is a part at the end of the
cleaned content, and not empty. -/
theorem trailingText_exact :
    (∀ t, ∃ run rest, LeadingRun t run rest) ∧
    (∀ t run rest, LeadingRun t run rest → ∀ d, trailingText t = d ↔ FreeText run rest d) ∧
    (∀ t, (trailingText t = none ∧ ∀ u, ¬ Reading t u) ∨
      ∃ u, Reading t u ∧ trailingText t = some u.trim ∧ ∀ v, Reading t v → u.length ≤ v.length) ∧
    ∀ (s : Settings) (g : RawTag) (d : Text), (Token.ofTag s g).description = some d →
      d ≠ [] ∧ d <:+ g.content.clean := by
  have hexists : ∀ t, ∃ run rest, LeadingRun t run rest := fun t =>
    (leadingRun_afterAnnotations t).imp fun run hrun => ⟨afterAnnotations t, hrun⟩
  refine ⟨hexists, fun t run rest h d => trailingText_eq_iff h, fun t => ?_, fun s g d hd => ?_⟩
  · obtain ⟨run, rest, h⟩ := hexists t
    exact h.shortest_reading
  · exact trailingText_suffix (trimmed_clean _) hd

/-- Two annotations, a name with blanks behind it, and a text with a brace that is not closed. -/
theorem trailingText_exact_union :
    let run : Text := text "\x7ba\x7d\x7b b \x7d\n "
    let rest : Text := text "x  first \x7b of"
    let remark : Text := text "first \x7b of"
    LeadingRun (run ++ rest) run rest ∧ FreeText run rest (some remark) ∧
      (Token.ofTag {} ⟨text "@param", run ++ rest⟩).description = some remark ∧
      remark ≠ [] ∧ remark <:+ (run ++ rest).clean := by
  intro run rest remark
  have hwritten : run = braced (text "a") ++
      ([] ++ (braced (text " b ") ++ (text "\n " ++ []))) := by decide +kernel
  have hrun : AnnotationRun run := by
    rw [hwritten]
    exact .cons (by decide) (by decide) (.cons (by decide) (by decide) .nil)
  have hleading : LeadingRun (run ++ rest) run rest := hrun.leadingRun (by decide +kernel)
  have hremark : trailingText (run ++ rest) = some remark := by decide +kernel
  have hdescription : (Token.ofTag {} ⟨text "@param", run ++ rest⟩).description = some remark := by
    decide +kernel
  exact ⟨hleading, (trailingText_exact.2.1 _ _ _ hleading _).mp hremark, hdescription,
    trailingText_exact.2.2.2 {} ⟨text "@param", run ++ rest⟩ remark hdescription⟩

end CommentTags
