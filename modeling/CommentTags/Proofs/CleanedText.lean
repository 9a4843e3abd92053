import CommentTags.Proofs.Layout
import CommentTags.Proofs.TokenInvariants

/-!
Cleaned text is a normal form: words without stars, with one space between two of them. Cleaning
leaves exactly such texts alone, takes out nothing but blanks, stars and slashes, and cleans what
stands on the two sides of blanks apart.
-/

namespace CommentTags

/-- Neither a blank nor a part of a delimiter. -/
def CodePoint.isKept (c : CodePoint) : Bool := !c.isBlank && c ≠ .char '*' && c ≠ .char '/'

namespace Text

/-- Words without stars, with one space between two of them. -/
def IsCleaned (t : Text) : Prop :=
  ∃ ws : List Text, (∀ w ∈ ws, IsWord w ∧ .char '*' ∉ w) ∧ t = joinWith [.char ' '] ws

theorem isCleaned_clean (t : Text) : IsCleaned t.clean := by
  refine ⟨cleanWords t, fun w hw => ⟨isWord_of_mem_words hw, fun hstar => ?_⟩, clean_eq_joinWith t⟩
  have hbare : .char '*' ∈ bare t := by simpa using mem_of_mem_wordsFrom hw hstar
  exact star_not_mem_bare t hbare

theorem clean_of_isCleaned {t : Text} (h : IsCleaned t) : t.clean = t := by
  obtain ⟨ws, hws, rfl⟩ := h
  cases ws with
  | nil => rfl
  | cons w ws =>
    have hstar : .char '*' ∉ joinWith [.char ' '] (w :: ws) := by
      intro hmem
      rcases mem_joinWith hmem with hsep | ⟨x, hx, hstar⟩
      · simp at hsep
      · exact (hws x hx).2 hstar
    exact clean_of_spaced hstar (spaced_joinWith (by simp) fun x hx => (hws x hx).1)

theorem clean_eq_self_iff {t : Text} : t.clean = t ↔ IsCleaned t :=
  ⟨fun h => h ▸ isCleaned_clean t, clean_of_isCleaned⟩

/-! What is kept. -/

/-- The `n` code points that are still to be skipped are none that are kept. -/
theorem filter_removeFrom {p : Text} (hp : ∀ c ∈ p, c.isKept = false) (t : Text) (n : Nat)
    (hn : ∀ c ∈ t.take n, c.isKept = false) :
    (removeFrom p n t).filter CodePoint.isKept = t.filter CodePoint.isKept := by
  induction t generalizing n with
  | nil => cases n <;> rfl
  | cons c t ih =>
    cases n with
    | succ n =>
      rw [List.take_succ_cons] at hn
      obtain ⟨hc, hn⟩ := List.forall_mem_cons.mp hn
      simp [removeFrom, hc, ih n hn]
    | zero =>
      simp only [removeFrom]
      split
      · rename_i h
        simp only [Bool.and_eq_true, List.isPrefixOf_iff_prefix] at h
        obtain ⟨d, p', rfl⟩ : ∃ d p', p = d :: p' := List.exists_cons_of_ne_nil (by simpa using h.1)
        obtain ⟨rfl, hprefix⟩ := List.cons_prefix_cons.mp h.2
        have hskip : ∀ c ∈ t.take p'.length, c.isKept = false := by
          rw [← List.prefix_iff_eq_take.mp hprefix]
          exact fun c hc => hp c (List.mem_cons_of_mem d hc)
        simp [hp d List.mem_cons_self, ih _ hskip]
      · rw [List.filter_cons, List.filter_cons, ih 0 (by simp)]

theorem filter_remove {p : Text} (hp : ∀ c ∈ p, c.isKept = false) (t : Text) :
    (remove p t).filter CodePoint.isKept = t.filter CodePoint.isKept :=
  filter_removeFrom hp t 0 (by simp)

theorem filter_bare (t : Text) : (bare t).filter CodePoint.isKept = t.filter CodePoint.isKept := by
  unfold bare
  rw [filter_remove (by decide), filter_remove (by decide), filter_remove (by decide)]

theorem flatten_wordsFrom (run t : Text) :
    (wordsFrom run t).flatten = run.reverse ++ t.filter (!·.isBlank) := by
  have hflush : ∀ run : Text, (flush run).flatten = run.reverse := by
    intro run
    cases run <;> simp [flush]
  induction t generalizing run with
  | nil => simp [wordsFrom, hflush]
  | cons c t ih =>
    cases hc : c.isBlank with
    | true => simp [wordsFrom, hc, hflush, ih]
    | false => simp [wordsFrom, hc, ih]

theorem filter_joinWith (ws : List Text) :
    (joinWith [.char ' '] ws).filter CodePoint.isKept = ws.flatten.filter CodePoint.isKept := by
  have hspace : CodePoint.isKept (.char ' ') = false := rfl
  induction ws with
  | nil => rfl
  | cons w ws ih =>
    cases ws with
    | nil => simp [joinWith_singleton]
    | cons w' ws =>
      rw [joinWith_cons_cons, List.filter_append, List.filter_append, List.flatten_cons,
        List.filter_append, ← ih]
      simp [hspace]

theorem filter_clean (t : Text) : t.clean.filter CodePoint.isKept = t.filter CodePoint.isKept := by
  have hblank : ∀ c : CodePoint, (c.isKept && !c.isBlank) = c.isKept := by
    intro c
    cases hc : c.isBlank <;> simp [CodePoint.isKept, hc]
  rw [clean_eq_joinWith, filter_joinWith, cleanWords, words, flatten_wordsFrom, ← filter_bare t]
  simp [List.filter_filter, hblank]

/-! Both sides of blanks. -/

theorem isGap_of_blank {w : Text} (hne : w ≠ []) (hw : ∀ c ∈ w, c.isBlank) : isGap w := by
  have hhead := hw _ (List.head_mem hne)
  have hlast := hw _ (List.getLast_mem hne)
  simp only [isGap, List.head?_eq_some_head hne, List.getLast?_eq_some_getLast hne, Option.any_some,
    hhead, hlast, Bool.and_true, List.all_eq_true]
  intro c hc
  simp [hw c hc]

theorem joinWith_ne_nil {ws : List Text} (hne : ws ≠ []) (hws : ∀ w ∈ ws, IsWord w) :
    joinWith [.char ' '] ws ≠ [] := by
  intro hnil
  have hspaced := spaced_joinWith hne hws
  rw [hnil] at hspaced
  cases hspaced

theorem joinWith_append {us vs : List Text} (hus : us ≠ []) (hvs : vs ≠ []) (sep : Text) :
    joinWith sep (us ++ vs) = joinWith sep us ++ sep ++ joinWith sep vs := by
  induction us with
  | nil => exact absurd rfl hus
  | cons u us ih =>
    cases us with
    | nil =>
      obtain ⟨v, vs, rfl⟩ := List.exists_cons_of_ne_nil hvs
      rw [List.singleton_append, joinWith_cons_cons, joinWith_singleton]
    | cons u' us =>
      have hrest : joinWith sep (u' :: (us ++ vs)) =
          joinWith sep (u' :: us) ++ sep ++ joinWith sep vs := ih (by simp)
      rw [List.cons_append, List.cons_append, joinWith_cons_cons, hrest, joinWith_cons_cons]
      simp

/-- Words may be joined in two parts, of which the empty ones do not count. -/
theorem joinWith_words_append {us vs : List Text} (hus : ∀ w ∈ us, IsWord w)
    (hvs : ∀ w ∈ vs, IsWord w) :
    joinWith [.char ' '] (us ++ vs) =
      joinWith [.char ' ']
        ([joinWith [.char ' '] us, joinWith [.char ' '] vs].filter (· ≠ [])) := by
  have hone : ∀ t : Text, joinWith [.char ' '] ([t].filter (· ≠ [])) = t := by
    intro t
    cases t with
    | nil => rfl
    | cons c t => exact joinWith_singleton _ _
  by_cases hu : us = []
  · subst hu
    exact (hone _).symm
  by_cases hv : vs = []
  · subst hv
    have hdrop : [joinWith [.char ' '] us, joinWith [.char ' '] []].filter (· ≠ []) =
        [joinWith [.char ' '] us].filter (· ≠ []) := by
      simp [joinWith, List.filter_cons]
    rw [hdrop, hone, List.append_nil]
  · have hboth : [joinWith [.char ' '] us, joinWith [.char ' '] vs].filter (· ≠ []) =
        [joinWith [.char ' '] us] ++ [joinWith [.char ' '] vs] := by
      simp [joinWith_ne_nil hu hus, joinWith_ne_nil hv hvs]
    rw [hboth, joinWith_append hu hv, joinWith_append (by simp) (by simp), joinWith_singleton,
      joinWith_singleton]

/-- Cleaned text is in normal form, which is what cleaning leaves alone; so it is not changed by
cleaning it again. Nothing but blanks, stars and slashes is taken out. A text with blanks in it can
be cleaned in two parts: one space stands between them, unless one of them is empty then. -/
theorem clean_normal_form (t : Text) :
    IsCleaned t.clean ∧ (t.clean = t ↔ IsCleaned t) ∧ t.clean.clean = t.clean ∧
      t.clean.filter CodePoint.isKept = t.filter CodePoint.isKept ∧
      ∀ u w v : Text, w ≠ [] → (∀ c ∈ w, c.isBlank) →
        (u ++ w ++ v).clean = joinWith [.char ' '] ([u.clean, v.clean].filter (· ≠ [])) := by
  refine ⟨isCleaned_clean t, clean_eq_self_iff, clean_clean t, filter_clean t, ?_⟩
  intro u w v hne hw
  have hwords : ∀ t : Text, ∀ x ∈ cleanWords t, IsWord x := fun t x hx => isWord_of_mem_words hx
  rw [clean_eq_joinWith, cleanWords_gap (isGap_of_blank hne hw)]
  exact joinWith_words_append (hwords u) (hwords v)

/-- Delimiters that are found only once others are taken out, on both sides of a line break. -/
theorem clean_normal_form_nested :
    (text "*/**/a" ++ text " \n" ++ text "/*/***").clean = text "a /" ∧
      (text "*/**/a").clean = text "a" ∧ (text "/*/***").clean = text "/" := by
  have hleft : (text "*/**/a").clean = text "a" := by decide
  have hright : (text "/*/***").clean = text "/" := by decide
  have hparts := (clean_normal_form []).2.2.2.2 (text "*/**/a") (text " \n") (text "/*/***")
    (by decide) (by decide)
  rw [hleft, hright] at hparts
  exact ⟨hparts, hleft, hright⟩

end Text
end CommentTags
