import CommentTags.Comment.Tags
import CommentTags.Proofs.Cleaning
import CommentTags.Settings.Document

/-!
Where the scans for a tag start and for the end of a description stop. A part of a text is quiet
for a scan if the scan stops nowhere in it, seen together with what comes before and after it; a
scan then passes over it. Words that do not begin with a marker and a word character are quiet for
the scan for tags.
-/

namespace CommentTags

/-! The code points of a marker. -/

/-- The numbers of the blank code points. -/
def blankNumbers : List Nat :=
  List.range' 0x09 5 ++ List.range' 0x1C 5 ++ List.range' 0x2000 11 ++
    [0x85, 0xA0, 0x1680, 0x2028, 0x2029, 0x202F, 0x205F, 0x3000]

namespace CodePoint

theorem exists_blankNumber {c : CodePoint} (h : c.isBlank) :
    ∃ n ∈ blankNumbers, c = .char (Char.ofNat n) := by
  cases c with
  | half k => cases h
  | char c =>
    refine ⟨c.toNat, ?_, by simp⟩
    simp only [isBlank, Bool.or_eq_true, beq_iff_eq, Bool.and_eq_true, decide_eq_true_eq] at h
    simp only [blankNumbers, List.mem_append, List.mem_range'_1, List.mem_cons, List.not_mem_nil,
      or_false]
    omega

theorem isLabel_of_isBlank {c : CodePoint} (h : c.isBlank) : c.isLabel = false := by
  have hall : ∀ n ∈ blankNumbers, isLabel (.char (Char.ofNat n)) = false := by decide +kernel
  obtain ⟨n, hn, rfl⟩ := exists_blankNumber h
  exact hall n hn

theorem isLabel_of_isWord {c : CodePoint} (h : c.isWord) : c.isLabel := by
  simp [isLabel, h]

theorem isWord_of_isBlank {c : CodePoint} (h : c.isBlank) : c.isWord = false := by
  cases hw : c.isWord with
  | false => rfl
  | true => simpa [isLabel_of_isWord hw] using isLabel_of_isBlank h

/-- A code point that can be a marker. -/
structure IsMarker (k : CodePoint) : Prop where
  not_alphanumeric : k.isAlphanumeric = false
  not_blank : k.isBlank = false
  not_brace : k.isBrace = false
  not_star : k ≠ .char '*'
  not_slash : k ≠ .char '/'

end CodePoint

theorem Settings.exists_of_isMarker {m : Text} (h : Settings.isMarker m) :
    ∃ k : CodePoint, m = [k] ∧ k.IsMarker := by
  match m with
  | [k] =>
    simp only [isMarker, Bool.and_eq_true, Bool.not_eq_true', Bool.or_eq_false_iff,
      decide_eq_false_iff_not] at h
    obtain ⟨⟨halpha, hblank⟩, ⟨⟨hopen, hclose⟩, hstar⟩, hslash⟩ := h
    exact ⟨k, rfl, halpha, hblank, by simp [CodePoint.isBrace, hopen, hclose], hstar, hslash⟩
  | [] => cases h
  | _ :: _ :: _ => cases h

/-! A run of code points of one class ends at the first that is not in it, whatever follows. -/

theorem takeWhile_append_cons {p : CodePoint → Bool} {b : CodePoint} (hb : p b = false)
    (t u : Text) : (t ++ b :: u).takeWhile p = t.takeWhile p := by
  induction t with
  | nil => simp [hb]
  | cons c t ih => simp [List.takeWhile_cons, ih]

theorem dropWhile_append_cons {p : CodePoint → Bool} {b : CodePoint} (hb : p b = false)
    (t u : Text) : (t ++ b :: u).dropWhile p = t.dropWhile p ++ b :: u := by
  induction t with
  | nil => simp [hb]
  | cons c t ih =>
    cases hc : p c <;> simp [hc, ih]

theorem takeWhile_append_of_head {p : CodePoint → Bool} {t u : Text} (ht : ∀ c ∈ t, p c)
    (hu : ∀ c ∈ u.head?, p c = false) : (t ++ u).takeWhile p = t := by
  rw [List.takeWhile_append_of_pos ht]
  cases u with
  | nil => simp
  | cons c u => simp [hu c rfl]

theorem dropWhile_append_of_head {p : CodePoint → Bool} {t u : Text} (ht : ∀ c ∈ t, p c)
    (hu : ∀ c ∈ u.head?, p c = false) : (t ++ u).dropWhile p = u := by
  rw [List.dropWhile_append_of_pos ht]
  cases u with
  | nil => rfl
  | cons c u => simp [hu c rfl]

theorem head_dropWhile (p : CodePoint → Bool) (t : Text) :
    ∀ c ∈ (t.dropWhile p).head?, p c = false := by
  intro c hc
  have hstop := List.head?_dropWhile_not p t
  rw [Option.mem_def.mp hc] at hstop
  exact hstop

/-! Quiet parts of a text. -/

/-- The code point in front of what follows `t`, which stands after `prev`. -/
def behind (prev : Option CodePoint) (t : Text) : Option CodePoint := t.getLast?.or prev

theorem behind_cons (prev : Option CodePoint) (c : CodePoint) (t : Text) :
    behind prev (c :: t) = behind (some c) t := by
  cases h : t.getLast? <;> simp [behind, List.getLast?_cons, h]

/-- The scan stops nowhere in `t`, which stands after `prev` and before `after`. -/
def Quiet (stop : Option CodePoint → Text → Bool) : Option CodePoint → Text → Text → Prop
  | _, [], _ => True
  | prev, c :: t, after => stop prev (c :: (t ++ after)) = false ∧ Quiet stop (some c) t after

section Quiet

variable {stop : Option CodePoint → Text → Bool}

theorem quiet_append {prev : Option CodePoint} {t u after : Text} :
    Quiet stop prev (t ++ u) after ↔
      Quiet stop prev t (u ++ after) ∧ Quiet stop (behind prev t) u after := by
  induction t generalizing prev with
  | nil => simp [Quiet, behind]
  | cons c t ih => simp only [List.cons_append, Quiet, List.append_assoc, ih, behind_cons, and_assoc]

/-- A scan passes over a quiet part. -/
theorem cutAt_of_quiet {prev : Option CodePoint} {t after : Text} (h : Quiet stop prev t after) :
    cutAt stop prev (t ++ after) =
      (t ++ (cutAt stop (behind prev t) after).1, (cutAt stop (behind prev t) after).2) := by
  induction t generalizing prev with
  | nil => rfl
  | cons c t ih =>
    obtain ⟨hc, ht⟩ := h
    simp [cutAt, hc, ih ht, behind_cons]

/-- The scan does not stop at a blank, nor at a star unless a slash is next, and all blanks look the
same to it. -/
structure BlankBlind (stop : Option CodePoint → Text → Bool) : Prop where
  at_blank : ∀ prev b t, b.isBlank → stop prev (b :: t) = false
  at_star : ∀ prev t, t.head? ≠ some (.char '/') → stop prev (.char '*' :: t) = false
  before_blank : ∀ prev c t b b' u u', b.isBlank → b'.isBlank →
    stop prev (c :: (t ++ b :: u)) = stop prev (c :: (t ++ b' :: u'))
  after_blank : ∀ b b' t, b.isBlank → b'.isBlank → stop (some b) t = stop (some b') t

/-- Blanks and stars are quiet if a blank is last. -/
theorem BlankBlind.quiet_margin (hs : BlankBlind stop) {t : Text}
    (ht : ∀ c ∈ t, c.isBlank ∨ c = .char '*') (hlast : ∀ c ∈ t.getLast?, c.isBlank)
    (prev : Option CodePoint) (after : Text) : Quiet stop prev t after := by
  induction t generalizing prev with
  | nil => trivial
  | cons c t ih =>
    have ht' : ∀ d ∈ t, d.isBlank ∨ d = .char '*' := fun d hd => ht d (List.mem_cons_of_mem c hd)
    have hlast' : ∀ d ∈ t.getLast?, d.isBlank := by
      intro d hd
      apply hlast
      rw [Option.mem_def] at hd ⊢
      simp [List.getLast?_cons, hd]
    refine ⟨?_, ih ht' hlast' _⟩
    rcases ht c List.mem_cons_self with hc | rfl
    · exact hs.at_blank prev c _ hc
    · cases t with
      | nil =>
        have := hlast (.char '*') rfl
        cases this
      | cons d t =>
        refine hs.at_star prev _ ?_
        rintro heq
        obtain rfl : d = .char '/' := by simpa using heq
        rcases ht' _ List.mem_cons_self with h | h
        · cases h
        · simp at h

theorem BlankBlind.cutAt_after_blank (hs : BlankBlind stop) {b b' : CodePoint} (hb : b.isBlank)
    (hb' : b'.isBlank) (t : Text) : cutAt stop (some b) t = cutAt stop (some b') t := by
  cases t with
  | nil => rfl
  | cons c t => simp only [cutAt, hs.after_blank b b' _ hb hb']

theorem cutAt_of_stop {prev : Option CodePoint} {t : Text} (h : stop prev t) :
    cutAt stop prev t = ([], t) := by
  cases t with
  | nil => rfl
  | cons c t => simp [cutAt, h]

end Quiet

/-! Tag starts. -/

/-- The marker, and a word character directly behind it. -/
def opensTag (marker t : Text) : Bool :=
  marker.isPrefixOf t && (t.drop marker.length).head?.any CodePoint.isWord

theorem isTagStart_eq (marker : Text) (prev : Option CodePoint) (t : Text) :
    isTagStart marker prev t = (opensFragment prev && opensTag marker t) :=
  Bool.and_assoc ..

section Marker

variable {k : CodePoint}

theorem opensTag_cons (c : CodePoint) (t : Text) :
    opensTag [k] (c :: t) = (k == c && t.head?.any CodePoint.isWord) := by
  simp [opensTag, List.isPrefixOf]

theorem isTagStart_of_ne {c : CodePoint} (h : k ≠ c) (prev : Option CodePoint) (t : Text) :
    isTagStart [k] prev (c :: t) = false := by
  simp [isTagStart_eq, opensTag_cons, h]

theorem quiet_of_not_mem {t : Text} (h : k ∉ t) (prev : Option CodePoint) (after : Text) :
    Quiet (isTagStart [k]) prev t after := by
  induction t generalizing prev with
  | nil => trivial
  | cons c t ih =>
    obtain ⟨hc, ht⟩ : k ≠ c ∧ k ∉ t := by simpa using h
    exact ⟨isTagStart_of_ne hc prev _, ih ht _⟩

theorem blankBlind_isTagStart (hk : k.IsMarker) : BlankBlind (isTagStart [k]) where
  at_blank prev b t hb := isTagStart_of_ne (CodePoint.ne_of_isBlank hb hk.not_blank).symm prev t
  at_star prev t _ := isTagStart_of_ne hk.not_star prev t
  before_blank prev c t b b' u u' hb hb' := by
    cases t <;>
      simp [isTagStart_eq, opensTag_cons, CodePoint.isWord_of_isBlank hb,
        CodePoint.isWord_of_isBlank hb']
  after_blank b b' t hb hb' := by simp [isTagStart_eq, opensFragment, hb, hb']

/-- Does a comment end at the beginning of a text? -/
theorem isPrefixOf_commentEnd (c : CodePoint) (t : Text) :
    (text "*/").isPrefixOf (c :: t) = (c == .char '*' && t.head? == some (.char '/')) := by
  cases t with
  | nil => simp [text, List.isPrefixOf]
  | cons d t => simp [text, List.isPrefixOf, Bool.beq_comm]

theorem blankBlind_endsDescription (hk : k.IsMarker) : BlankBlind (endsDescription [k]) where
  at_blank prev b t hb := by
    have hne : b ≠ .char '*' := CodePoint.ne_of_isBlank hb rfl
    simp [endsDescription, (blankBlind_isTagStart hk).at_blank prev b t hb, isPrefixOf_commentEnd,
      hne]
  at_star prev t ht := by
    simp [endsDescription, (blankBlind_isTagStart hk).at_star prev t ht, isPrefixOf_commentEnd, ht]
  before_blank prev c t b b' u u' hb hb' := by
    have hne (d : CodePoint) (hd : d.isBlank) : (d == .char '/') = false :=
      beq_false_of_ne (CodePoint.ne_of_isBlank hd rfl)
    rw [endsDescription, endsDescription,
      (blankBlind_isTagStart hk).before_blank prev c t b b' u u' hb hb']
    cases t <;> simp [isPrefixOf_commentEnd, hne b hb, hne b' hb']
  after_blank b b' t hb hb' := by
    simp [endsDescription, (blankBlind_isTagStart hk).after_blank b b' t hb hb']

/-- Without stars, what is quiet for tags is quiet for the end of a description. -/
theorem quiet_endsDescription {t after : Text} {prev : Option CodePoint} (hstar : .char '*' ∉ t)
    (h : Quiet (isTagStart [k]) prev t after) : Quiet (endsDescription [k]) prev t after := by
  induction t generalizing prev with
  | nil => trivial
  | cons c t ih =>
    obtain ⟨hc, ht⟩ : .char '*' ≠ c ∧ .char '*' ∉ t := by simpa using hstar
    refine ⟨?_, ih ht h.2⟩
    simp [endsDescription, h.1, isPrefixOf_commentEnd, Ne.symm hc]

/-- Text without stars is quiet if none of its words begins like a tag. -/
theorem quiet_of_wordsFrom (hk : k.IsMarker) {prev : Option CodePoint} {run t after : Text}
    (hstar : .char '*' ∉ t) (hwords : ∀ w ∈ Text.wordsFrom run t, opensTag [k] w = false)
    (hafter : after.head?.any CodePoint.isWord = false)
    (hprev : run = [] ∨ opensFragment prev = false) :
    Quiet (isTagStart [k]) prev t after := by
  induction t generalizing run prev with
  | nil => trivial
  | cons c t ih =>
    have hstar' : .char '*' ∉ t := fun h => hstar (List.mem_cons_of_mem c h)
    cases hc : c.isBlank with
    | true =>
      have hne : k ≠ c := (CodePoint.ne_of_isBlank hc hk.not_blank).symm
      refine ⟨isTagStart_of_ne hne _ _, ?_⟩
      refine @ih (some c) [] hstar' (fun w hw => hwords w ?_) (.inl rfl)
      simp only [Text.wordsFrom, hc, ↓reduceIte]
      exact List.mem_append_right _ hw
    | false =>
      have hwords' : ∀ w ∈ Text.wordsFrom (c :: run) t, opensTag [k] w = false := by
        simpa [Text.wordsFrom, hc] using hwords
      have hopens : opensFragment (some c) = false := by
        have hne : c ≠ .char '*' := by
          rintro rfl
          exact hstar List.mem_cons_self
        simp [opensFragment, hc, hne]
      refine ⟨?_, @ih (some c) (c :: run) hstar' hwords' (.inr hopens)⟩
      rcases hprev with rfl | hprev
      · -- the word that begins here does not begin like a tag, and nothing behind it helps
        have hword := hwords' _ (Text.mem_wordsFrom (by simp) t)
        rw [isTagStart_eq, opensTag_cons]
        simp only [List.reverse_cons, List.reverse_nil, List.nil_append, List.cons_append,
          opensTag_cons] at hword
        cases t with
        | nil => simp [hafter]
        | cons d t =>
          cases hd : d.isBlank with
          | true => simp [CodePoint.isWord_of_isBlank hd]
          | false =>
            simp only [hd, Bool.not_false, List.takeWhile_cons_of_pos, List.head?_cons,
              List.cons_append] at hword ⊢
            rw [hword, Bool.and_false]
      · simp [isTagStart_eq, hprev]

theorem quiet_of_words (hk : k.IsMarker) (prev : Option CodePoint) {t after : Text}
    (hstar : .char '*' ∉ t) (hwords : ∀ w ∈ t.words, opensTag [k] w = false)
    (hafter : after.head?.any CodePoint.isWord = false) :
    Quiet (isTagStart [k]) prev t after :=
  quiet_of_wordsFrom hk hstar hwords hafter (.inl rfl)

end Marker

end CommentTags
