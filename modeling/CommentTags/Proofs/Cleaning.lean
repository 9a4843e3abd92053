import CommentTags.Grammar.Cleaning

/-!
The theory of cleaned text. Delimiters are taken out on each side of a blank by itself, since none
of them holds a blank; so the words of a cleaned text are those of its parts, one after the other.
A text that cleaning leaves alone has no stars, and its blanks are single spaces between words.
-/

namespace CommentTags

theorem CodePoint.ne_of_isBlank {b c : CodePoint} (hb : b.isBlank) (hc : c.isBlank = false) :
    b ≠ c := by
  rintro rfl
  simp [hc] at hb

namespace Text

/-! Removal of a delimiter. -/

theorem prefix_of_prefix_append_cons {p u v : Text} {b : CodePoint} (hb : b ∉ p)
    (h : p <+: u ++ b :: v) : p <+: u := by
  by_cases hlen : p.length ≤ u.length
  · exact List.prefix_of_prefix_length_le h (List.prefix_append u _) hlen
  · have hub : u ++ [b] <+: p := by
      refine List.prefix_of_prefix_length_le ⟨v, by simp⟩ h ?_
      simp only [List.length_append, List.length_cons, List.length_nil]
      omega
    exact absurd (hub.mem (by simp)) hb

theorem isPrefixOf_append_cons {p : Text} {b : CodePoint} (hb : b ∉ p) (u v : Text) :
    p.isPrefixOf (u ++ b :: v) = p.isPrefixOf u := by
  rw [Bool.eq_iff_iff, List.isPrefixOf_iff_prefix, List.isPrefixOf_iff_prefix]
  exact ⟨prefix_of_prefix_append_cons hb, fun h => h.trans (List.prefix_append u _)⟩

theorem removeFrom_append_cons {p : Text} {b : CodePoint} (hb : b ∉ p) (u v : Text) (n : Nat)
    (hn : n ≤ u.length) :
    removeFrom p n (u ++ b :: v) = removeFrom p n u ++ b :: removeFrom p 0 v := by
  induction u generalizing n with
  | nil =>
    obtain rfl : n = 0 := by simpa using hn
    have hstop : p.isPrefixOf (b :: v) = p.isPrefixOf [] := isPrefixOf_append_cons hb [] v
    cases p with
    | nil => simp [removeFrom]
    | cons a p => simp [removeFrom, hstop]
  | cons c u ih =>
    cases n with
    | succ n => exact ih n (by simpa using hn)
    | zero =>
      have hsame : p.isPrefixOf (c :: (u ++ b :: v)) = p.isPrefixOf (c :: u) :=
        isPrefixOf_append_cons hb (c :: u) v
      simp only [List.cons_append, removeFrom, hsame]
      split
      · rename_i h
        have hlen : p.length ≤ (c :: u).length := by
          simp only [Bool.and_eq_true, List.isPrefixOf_iff_prefix] at h
          exact h.2.length_le
        exact ih _ (by simp only [List.length_cons] at hlen; omega)
      · simp [ih 0 (Nat.zero_le _)]

/-- No occurrence of `p` goes across a code point that `p` does not hold. -/
theorem remove_append_cons {p : Text} {b : CodePoint} (hb : b ∉ p) (u v : Text) :
    remove p (u ++ b :: v) = remove p u ++ b :: remove p v :=
  removeFrom_append_cons hb u v 0 (Nat.zero_le _)

theorem remove_of_not_mem {p t : Text} {c : CodePoint} (hc : c ∈ p) (ht : c ∉ t) :
    remove p t = t := by
  unfold remove
  induction t with
  | nil => rfl
  | cons a t ih =>
    have hno : ¬ p.isPrefixOf (a :: t) := fun h =>
      ht (List.IsPrefix.mem hc (List.isPrefixOf_iff_prefix.mp h))
    simp only [removeFrom, hno, Bool.and_false, Bool.false_eq_true, ↓reduceIte]
    rw [ih (fun h => ht (List.mem_cons_of_mem a h))]

theorem remove_singleton (c : CodePoint) (t : Text) : remove [c] t = t.filter (· ≠ c) := by
  unfold remove
  induction t with
  | nil => rfl
  | cons a t ih =>
    by_cases h : c = a
    · subst h
      simp [removeFrom, ih]
    · simp [removeFrom, h, Ne.symm h, ih]

/-! Words. -/

theorem wordsFrom_append_cons {b : CodePoint} (hb : b.isBlank) (run u v : Text) :
    wordsFrom run (u ++ b :: v) = wordsFrom run u ++ words v := by
  induction u generalizing run with
  | nil => simp [wordsFrom, hb, words]
  | cons c u ih =>
    simp only [List.cons_append, wordsFrom]
    split
    · rw [ih, List.append_assoc]
    · exact ih _

/-- The words on both sides of a blank. -/
theorem words_append_cons {b : CodePoint} (hb : b.isBlank) (u v : Text) :
    words (u ++ b :: v) = words u ++ words v :=
  wordsFrom_append_cons hb [] u v

theorem words_of_blank {t : Text} (h : ∀ c ∈ t, c.isBlank) : words t = [] := by
  induction t with
  | nil => rfl
  | cons c t ih =>
    have hc := h c List.mem_cons_self
    have := ih fun d hd => h d (List.mem_cons_of_mem c hd)
    simpa [words, wordsFrom, hc, flush] using this

/-- The word that is being read is one of the words. -/
theorem mem_wordsFrom {run : Text} (hrun : run ≠ []) (t : Text) :
    run.reverse ++ t.takeWhile (!·.isBlank) ∈ wordsFrom run t := by
  induction t generalizing run with
  | nil => simp [wordsFrom, flush, hrun]
  | cons c t ih =>
    cases hc : c.isBlank with
    | true => simp [wordsFrom, flush, hrun, hc]
    | false =>
      have := @ih (c :: run) (by simp)
      simpa [wordsFrom, hc] using this

/-- One word: not empty, and without blanks. -/
def IsWord (w : Text) : Prop := w ≠ [] ∧ ∀ c ∈ w, c.isBlank = false

instance (w : Text) : Decidable (IsWord w) :=
  inferInstanceAs (Decidable (w ≠ [] ∧ ∀ c ∈ w, c.isBlank = false))

theorem mem_flush {run w : Text} : w ∈ flush run ↔ run ≠ [] ∧ w = run.reverse := by
  cases run <;> simp [flush]

theorem isWord_of_mem_wordsFrom {run t w : Text} (hrun : ∀ c ∈ run, c.isBlank = false)
    (hw : w ∈ wordsFrom run t) : IsWord w := by
  have hflush : w ∈ flush run → IsWord w := by
    rw [mem_flush]
    rintro ⟨hne, rfl⟩
    exact ⟨by simpa using hne, fun c hc => hrun c (List.mem_reverse.mp hc)⟩
  induction t generalizing run with
  | nil => exact hflush hw
  | cons c t ih =>
    cases hc : c.isBlank with
    | true =>
      simp only [wordsFrom, hc, ↓reduceIte, List.mem_append] at hw
      rcases hw with hw | hw
      · exact hflush hw
      · exact ih (by simp) hw (by simp [flush])
    | false =>
      have hrun' : ∀ d ∈ c :: run, d.isBlank = false := by simpa [hc] using hrun
      simp only [wordsFrom, hc, Bool.false_eq_true, ↓reduceIte] at hw
      refine ih hrun' hw ?_
      rw [mem_flush]
      rintro ⟨hne, rfl⟩
      exact ⟨by simp, fun d hd => hrun' d (List.mem_reverse.mp hd)⟩

theorem isWord_of_mem_words {t w : Text} (hw : w ∈ words t) : IsWord w :=
  isWord_of_mem_wordsFrom (by simp) hw

theorem mem_of_mem_wordsFrom {run t w : Text} {c : CodePoint} (hw : w ∈ wordsFrom run t)
    (hc : c ∈ w) : c ∈ run ∨ c ∈ t := by
  induction t generalizing run with
  | nil =>
    obtain ⟨-, rfl⟩ := mem_flush.mp hw
    exact .inl (List.mem_reverse.mp hc)
  | cons a t ih =>
    simp only [wordsFrom] at hw
    split at hw
    · rcases List.mem_append.mp hw with hw | hw
      · obtain ⟨-, rfl⟩ := mem_flush.mp hw
        exact .inl (List.mem_reverse.mp hc)
      · exact .inr (List.mem_cons_of_mem a (by simpa using ih hw))
    · rcases ih hw with h | h
      · rcases List.mem_cons.mp h with rfl | h
        · exact .inr List.mem_cons_self
        · exact .inl h
      · exact .inr (List.mem_cons_of_mem a h)

/-! Folded text. -/

theorem joinWith_singleton (sep u : Text) : joinWith sep [u] = u := List.intercalate_singleton

theorem joinWith_cons_cons (sep u v : Text) (us : List Text) :
    joinWith sep (u :: v :: us) = u ++ sep ++ joinWith sep (v :: us) := List.intercalate_cons_cons

/-- The blanks are single spaces, each before another code point, and none stands at the beginning
if `atBlank` says that a blank comes before the text. -/
def Spaced : Bool → Text → Prop
  | atBlank, [] => atBlank = false
  | atBlank, c :: t =>
    if c.isBlank then c = .char ' ' ∧ atBlank = false ∧ Spaced true t else Spaced false t

theorem spaced_cons_of_not_blank {c : CodePoint} (hc : c.isBlank = false) (atBlank : Bool)
    (t : Text) : Spaced atBlank (c :: t) ↔ Spaced false t := by
  simp [Spaced, hc]

theorem spaced_cons_of_blank {c : CodePoint} (hc : c.isBlank) (atBlank : Bool) (t : Text) :
    Spaced atBlank (c :: t) ↔ c = .char ' ' ∧ atBlank = false ∧ Spaced true t := by
  simp [Spaced, hc]

theorem spaced_space (t : Text) : Spaced false (.char ' ' :: t) ↔ Spaced true t := by
  simp [spaced_cons_of_blank (c := .char ' ') rfl]

theorem Spaced.weaken {atBlank : Bool} {t : Text} (h : Spaced true t) : Spaced atBlank t := by
  cases t with
  | nil => simp [Spaced] at h
  | cons c t =>
    cases hc : c.isBlank with
    | true => simp [spaced_cons_of_blank hc] at h
    | false =>
      rw [spaced_cons_of_not_blank hc] at h ⊢
      exact h

/-- Spaced texts are put together where the second does not begin with a blank of the first. -/
theorem Spaced.append {atBlank : Bool} {t u : Text} (ht : Spaced atBlank t)
    (hu : Spaced false u) : Spaced atBlank (t ++ u) := by
  induction t generalizing atBlank with
  | nil =>
    obtain rfl : atBlank = false := ht
    exact hu
  | cons c t ih =>
    rw [List.cons_append]
    cases hc : c.isBlank with
    | true =>
      rw [spaced_cons_of_blank hc] at ht ⊢
      exact ⟨ht.1, ht.2.1, ih ht.2.2⟩
    | false =>
      rw [spaced_cons_of_not_blank hc] at ht ⊢
      exact ih ht

theorem IsWord.spaced {w : Text} (h : IsWord w) (atBlank : Bool) : Spaced atBlank w := by
  obtain ⟨hne, hblank⟩ := h
  induction w generalizing atBlank with
  | nil => exact absurd rfl hne
  | cons c w ih =>
    rw [spaced_cons_of_not_blank (hblank c List.mem_cons_self)]
    cases w with
    | nil => rfl
    | cons d w => exact ih false (by simp) fun x hx => hblank x (List.mem_cons_of_mem c hx)

theorem joinWith_wordsFrom {run t : Text} (h : Spaced run.isEmpty t) :
    joinWith [.char ' '] (wordsFrom run t) = run.reverse ++ t := by
  induction t generalizing run with
  | nil =>
    have hne : run ≠ [] := by simpa [Spaced] using h
    simp [wordsFrom, flush, hne, joinWith]
  | cons c t ih =>
    cases hc : c.isBlank with
    | true =>
      obtain ⟨rfl, hrun, ht⟩ := (spaced_cons_of_blank hc _ _).mp h
      have hrest : joinWith [.char ' '] (wordsFrom [] t) = t := @ih [] ht
      have hne : wordsFrom [] t ≠ [] := by
        intro hnil
        rw [hnil] at hrest
        subst hrest
        simp [Spaced, joinWith] at ht
      simp only [wordsFrom, hc, ↓reduceIte, flush, hrun, Bool.false_eq_true, List.singleton_append]
      rw [joinWith, List.intercalate_cons_of_ne_nil hne]
      change run.reverse ++ [_] ++ joinWith [.char ' '] (wordsFrom [] t) = _
      rw [hrest]
      simp
    | false =>
      rw [spaced_cons_of_not_blank hc] at h
      have := @ih (c :: run) h
      simpa [wordsFrom, hc] using this

/-- Folding leaves a spaced text alone. -/
theorem fold_of_spaced {t : Text} (h : Spaced true t) : fold t = t :=
  @joinWith_wordsFrom [] t h

theorem spaced_joinWith {ws : List Text} (hne : ws ≠ []) (hws : ∀ w ∈ ws, IsWord w) :
    Spaced true (joinWith [.char ' '] ws) := by
  induction ws with
  | nil => exact absurd rfl hne
  | cons w ws ih =>
    have hw := (hws w List.mem_cons_self).spaced true
    cases ws with
    | nil => simpa [joinWith] using hw
    | cons w' ws =>
      have hrest := ih (by simp) fun x hx => hws x (List.mem_cons_of_mem w hx)
      rw [joinWith, List.intercalate_cons_cons, List.append_assoc]
      exact hw.append ((spaced_space _).mpr hrest)

/-- A folded text is spaced, unless it is empty. -/
theorem spaced_fold {t : Text} (h : fold t ≠ []) : Spaced true (fold t) := by
  refine spaced_joinWith (fun hnil => h ?_) fun w hw => isWord_of_mem_words hw
  simp [fold, hnil, joinWith]

theorem mem_joinWith {sep : Text} {ws : List Text} {c : CodePoint} (h : c ∈ joinWith sep ws) :
    c ∈ sep ∨ ∃ w ∈ ws, c ∈ w := by
  induction ws with
  | nil => simp [joinWith] at h
  | cons w ws ih =>
    cases ws with
    | nil => exact .inr ⟨w, by simp, by simpa [joinWith] using h⟩
    | cons w' ws =>
      rw [joinWith, List.intercalate_cons_cons, List.append_assoc, List.mem_append,
        List.mem_append] at h
      rcases h with h | h | h
      · exact .inr ⟨w, List.mem_cons_self, h⟩
      · exact .inl h
      · rcases ih h with h | ⟨x, hx, hc⟩
        · exact .inl h
        · exact .inr ⟨x, List.mem_cons_of_mem w hx, hc⟩

theorem mem_of_mem_fold {t : Text} {c : CodePoint} (h : c ∈ fold t) : c = .char ' ' ∨ c ∈ t := by
  rcases mem_joinWith h with h | ⟨w, hw, hc⟩
  · exact .inl (by simpa using h)
  · exact .inr (by simpa using mem_of_mem_wordsFrom hw hc)

/-! Cleaned text. -/

/-- A text without delimiters and stars, before it is folded. -/
def bare (t : Text) : Text :=
  remove (text "*") (remove (text "*/") (remove (text "/**") t))

theorem clean_eq_fold_bare (t : Text) : t.clean = fold (bare t) := rfl

theorem bare_append_cons {b : CodePoint} (hslash : b ≠ .char '/') (hstar : b ≠ .char '*')
    (u v : Text) : bare (u ++ b :: v) = bare u ++ b :: bare v := by
  unfold bare
  rw [remove_append_cons (by simp [text, hslash, hstar]),
    remove_append_cons (by simp [text, hslash, hstar]),
    remove_append_cons (by simp [text, hstar])]

theorem bare_of_no_star {t : Text} (h : .char '*' ∉ t) : bare t = t := by
  unfold bare
  rw [remove_of_not_mem (by simp [text]) h, remove_of_not_mem (by simp [text]) h,
    remove_of_not_mem (by simp [text]) h]

theorem star_not_mem_bare (t : Text) : .char '*' ∉ bare t := by
  unfold bare
  change _ ∉ remove [.char '*'] _
  simp [remove_singleton]

theorem star_not_mem_clean (t : Text) : .char '*' ∉ t.clean := by
  intro h
  rcases mem_of_mem_fold h with h | h
  · simp at h
  · exact star_not_mem_bare t h

/-- The words of a cleaned text. -/
def cleanWords (t : Text) : List Text := words (bare t)

theorem clean_eq_joinWith (t : Text) : t.clean = joinWith [.char ' '] (cleanWords t) := rfl

/-- The words on both sides of a blank are cleaned apart. -/
theorem cleanWords_append_cons {b : CodePoint} (hb : b.isBlank) (u v : Text) :
    cleanWords (u ++ b :: v) = cleanWords u ++ cleanWords v := by
  have hslash : b ≠ .char '/' := CodePoint.ne_of_isBlank hb rfl
  have hstar : b ≠ .char '*' := CodePoint.ne_of_isBlank hb rfl
  rw [cleanWords, bare_append_cons hslash hstar, words_append_cons hb]
  rfl

/-- Blanks and stars alone have no words. -/
theorem cleanWords_of_margin {t : Text} (h : ∀ c ∈ t, c.isBlank ∨ c = .char '*') :
    cleanWords t = [] := by
  have hslash : .char '/' ∉ t := by
    intro hmem
    rcases h _ hmem with hb | hb
    · cases hb
    · simp at hb
  have hbare : bare t = t.filter (· ≠ .char '*') := by
    unfold bare
    rw [remove_of_not_mem (c := .char '/') (by simp [text]) hslash,
      remove_of_not_mem (c := .char '/') (by simp [text]) hslash]
    exact remove_singleton _ t
  rw [cleanWords, hbare]
  refine words_of_blank fun c hc => ?_
  obtain ⟨hmem, hstar⟩ := List.mem_filter.mp hc
  exact (h c hmem).resolve_right (by simpa using hstar)

theorem clean_of_spaced {t : Text} (hstar : .char '*' ∉ t) (h : Spaced true t) : t.clean = t := by
  rw [clean_eq_fold_bare, bare_of_no_star hstar, fold_of_spaced h]

/-- What cleaning leaves alone has no stars and is spaced. -/
theorem spaced_of_clean_eq_self {t : Text} (h : t.clean = t) (hne : t ≠ []) : Spaced true t := by
  rw [← h] at hne ⊢
  exact spaced_fold hne

theorem star_not_mem_of_clean_eq_self {t : Text} (h : t.clean = t) : .char '*' ∉ t :=
  h ▸ star_not_mem_clean t

end Text
end CommentTags
