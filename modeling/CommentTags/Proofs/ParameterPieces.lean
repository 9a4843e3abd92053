import CommentTags.Proofs.Fields
import CommentTags.Proofs.StringLiterals

/-!
Splitting a parameter list loses nothing, whatever the text. A list is found exactly where pieces
that the scan passes over are written between commas, with the first parenthesis of the text in
front of them and a closing one behind them. The parameters stand in these pieces, one after the
other and without overlap.
-/

namespace CommentTags

namespace ListScan

/-- No string is open, and no bracket is to be closed. -/
structure AtTop (s : ListScan) : Prop where
  no_quote : s.quote = none
  no_closers : s.closers = []

/-! One code point. -/

/-- Everything that a step can do: the code point goes to the piece that is being read, or it is a
comma or a closing parenthesis outside of all strings and brackets. -/
theorem step_cases (s : ListScan) (c : CodePoint) :
    (∃ s', s.step c = .within s' ∧ s'.piece = c :: s.piece) ∨
      (s.step c = .comma ∧ c = .char ',' ∧ s.AtTop) ∨
      (s.step c = .done ∧ c = .char ')' ∧ s.AtTop) := by
  unfold step
  dsimp only
  split
  · exact .inl ⟨_, rfl, rfl⟩
  · rename_i hquote
    split
    · exact .inl ⟨_, rfl, rfl⟩
    · split
      · exact .inl ⟨_, rfl, rfl⟩
      · split
        · split
          · exact .inl ⟨_, rfl, rfl⟩
          · exact .inl ⟨_, rfl, rfl⟩
        · rename_i hclosers
          split
          · rename_i hcomma
            exact .inr (.inl ⟨rfl, hcomma, hquote, hclosers⟩)
          · split
            · rename_i hparen
              exact .inr (.inr ⟨rfl, hparen, hquote, hclosers⟩)
            · exact .inl ⟨_, rfl, rfl⟩

theorem AtTop.step_comma {s : ListScan} (h : s.AtTop) : s.step (.char ',') = .comma := by
  simp [step, h.no_quote, h.no_closers, CodePoint.opensString, CodePoint.closer?]

theorem AtTop.step_done {s : ListScan} (h : s.AtTop) : s.step (.char ')') = .done := by
  simp [step, h.no_quote, h.no_closers, CodePoint.opensString, CodePoint.closer?]

theorem piece_after? {s s' : ListScan} {t : Text} (h : s.after? t = some s') :
    s'.piece = t.reverse ++ s.piece := by
  induction t generalizing s with
  | nil =>
    obtain rfl : s = s' := by simpa [after?] using h
    rfl
  | cons c t ih =>
    rcases s.step_cases c with ⟨s₁, hstep, hpiece⟩ | ⟨hstep, -⟩ | ⟨hstep, -⟩
    · rw [after?_of_within hstep] at h
      rw [ih h, hpiece, List.reverse_cons, List.append_assoc]
      rfl
    · simp [after?, hstep] at h
    · simp [after?, hstep] at h

/-- What stands in front of a piece does not matter to it. -/
theorem exists_after?_start {t : Text} {p : CodePoint}
    (h : ∃ s, ({ prev := p } : ListScan).after? t = some s ∧ s.AtTop) (q : CodePoint) :
    ∃ s, ({ prev := q } : ListScan).after? t = some s ∧ s.AtTop := by
  cases t with
  | nil => exact ⟨_, rfl, rfl, rfl⟩
  | cons c t => exact h

end ListScan

open ListScan

/-- A text that a list can have between two commas: the scan passes over it and comes out of all
strings and brackets. -/
def IsListPiece (t : Text) : Prop :=
  ∃ s, ({ prev := .char ',' } : ListScan).after? t = some s ∧ s.AtTop

/-! Whole lists. -/

theorem cons_joinWith (c : CodePoint) (u : Text) (us : List Text) (sep : Text) :
    c :: Text.joinWith sep (u :: us) = Text.joinWith sep ((c :: u) :: us) := by
  cases us with
  | nil => simp [Text.joinWith_singleton]
  | cons u' us => simp [Text.joinWith_cons_cons]

theorem joinWith_comma (u v : Text) (us : List Text) :
    Text.joinWith [.char ','] (u :: v :: us) =
      u ++ .char ',' :: Text.joinWith [.char ','] (v :: us) := by
  rw [Text.joinWith_cons_cons, List.append_assoc]
  rfl

/-- **Run.** A list that is found is the piece that is being read, up to where the scan is out of
all strings and brackets, and then whole pieces, with commas between them. The induction is on the
text that is still to be read. -/
theorem exists_pieces_of_splitList {s : ListScan} {t : Text} {ps : List Text}
    (h : splitList s t = some ps) :
    ∃ u us after, t = Text.joinWith [.char ','] (u :: us) ++ .char ')' :: after ∧
      ps = (s.piece.reverse ++ u) :: us ∧ (∃ s', s.after? u = some s' ∧ s'.AtTop) ∧
      ∀ v ∈ us, IsListPiece v := by
  induction t generalizing s ps with
  | nil => cases h
  | cons c t ih =>
    rcases s.step_cases c with ⟨s₁, hstep, hpiece⟩ | ⟨hstep, rfl, htop⟩ | ⟨hstep, rfl, htop⟩
    · rw [splitList_of_within hstep] at h
      obtain ⟨u, us, after, rfl, rfl, hu, hus⟩ := ih h
      refine ⟨c :: u, us, after, ?_, ?_, ?_, hus⟩
      · rw [← cons_joinWith, List.cons_append]
      · simp [hpiece]
      · rw [after?_of_within hstep]
        exact hu
    · rw [splitList, hstep] at h
      obtain ⟨qs, hqs, rfl⟩ := Option.map_eq_some_iff.mp h
      obtain ⟨u, us, after, rfl, rfl, hu, hus⟩ := ih hqs
      refine ⟨[], u :: us, after, ?_, by simp, ⟨s, rfl, htop⟩, ?_⟩
      · rw [joinWith_comma]
        rfl
      · exact List.forall_mem_cons.mpr ⟨hu, hus⟩
    · rw [splitList, hstep] at h
      cases h
      exact ⟨[], [], t, rfl, by simp, ⟨s, rfl, htop⟩, by simp⟩

/-- **Run.** Pieces that are written with commas between them are found again. -/
theorem splitList_pieces {us : List Text} (hus : ∀ v ∈ us, IsListPiece v) {s s' : ListScan}
    {u : Text} (hu : s.after? u = some s') (htop : s'.AtTop) (after : Text) :
    splitList s (Text.joinWith [.char ','] (u :: us) ++ .char ')' :: after) =
      some ((s.piece.reverse ++ u) :: us) := by
  have hpiece : s'.piece.reverse = s.piece.reverse ++ u := by simp [piece_after? hu]
  induction us generalizing s s' u with
  | nil =>
    rw [Text.joinWith_singleton, splitList_of_after? hu, splitList, htop.step_done, hpiece]
  | cons v us ih =>
    obtain ⟨⟨s₁, hv, htop₁⟩, hus⟩ := List.forall_mem_cons.mp hus
    have hrest := ih hus hv htop₁ (by simp [piece_after? hv])
    rw [joinWith_comma, List.append_assoc, List.cons_append, splitList_of_after? hu, splitList,
      htop.step_comma, hpiece]
    dsimp only
    rw [hrest]
    simp

/-- A parameter list with what stands before and behind it. -/
structure WrittenList where
  before : Text
  pieces : List Text
  after : Text
  before_no_paren : .char '(' ∉ before
  pieces_ne_nil : pieces ≠ []
  pieces_whole : ∀ u ∈ pieces, IsListPiece u

namespace WrittenList

/-- The text between the two parentheses of the list. -/
def inside (l : WrittenList) : Text := Text.joinWith [.char ','] l.pieces

/-- The whole text. -/
def spelling (l : WrittenList) : Text :=
  l.before ++ .char '(' :: (l.inside ++ .char ')' :: l.after)

/-- The pieces that can hold a parameter. -/
def nonblank (l : WrittenList) : List Text := l.pieces.filter (!·.all CodePoint.isBlank)

theorem splitParameters_spelling (l : WrittenList) :
    splitParameters l.spelling = some l.nonblank := by
  obtain ⟨u, us, hpieces⟩ := List.exists_cons_of_ne_nil l.pieces_ne_nil
  obtain ⟨hu, hus⟩ := List.forall_mem_cons.mp (hpieces ▸ l.pieces_whole)
  obtain ⟨s, hs, htop⟩ := exists_after?_start hu (.char '(')
  have hopen : l.spelling.dropWhile (· ≠ .char '(') =
      .char '(' :: (l.inside ++ .char ')' :: l.after) := by
    refine dropWhile_append_of_head (fun c hc => ?_) (by simp)
    have hne : c ≠ .char '(' := fun h => l.before_no_paren (h ▸ hc)
    simpa using hne
  rw [splitParameters, hopen]
  dsimp only
  rw [inside, hpieces, splitList_pieces hus hs htop, nonblank, hpieces]
  rfl

theorem exists_of_splitParameters {t : Text} {ps : List Text} (h : splitParameters t = some ps) :
    ∃ l : WrittenList, t = l.spelling ∧ ps = l.nonblank := by
  have hsplit := List.takeWhile_append_dropWhile (l := t) (p := (· ≠ .char '('))
  unfold splitParameters at h
  split at h
  · cases h
  · rename_i p r hdrop
    obtain rfl : p = .char '(' := by
      have hhead := head_dropWhile (· ≠ .char '(') t p (by rw [hdrop]; rfl)
      simpa using hhead
    obtain ⟨all, hall, rfl⟩ := Option.map_eq_some_iff.mp h
    obtain ⟨u, us, after, rfl, rfl, hu, hus⟩ := exists_pieces_of_splitList hall
    rw [hdrop] at hsplit
    refine ⟨{ before := t.takeWhile (· ≠ .char '(')
              pieces := u :: us
              after := after
              before_no_paren := fun hmem => by simpa using List.mem_takeWhile_imp hmem
              pieces_ne_nil := by simp
              pieces_whole :=
                List.forall_mem_cons.mpr ⟨exists_after?_start hu (.char ','), hus⟩ },
      hsplit.symm, rfl⟩

end WrittenList

/-! The parameters in their pieces. -/

/-- The parameter of a piece. -/
def parameterOf (piece : Text) : Option Entry := (parameterName piece).map (⟨·, piece.trim⟩)

theorem parameters_spelling (l : WrittenList) :
    parameters l.spelling = l.pieces.filterMap parameterOf := by
  rw [parameters, l.splitParameters_spelling, Option.getD_some, WrittenList.nonblank,
    List.filterMap_filter]
  congr 1
  funext piece
  cases hblank : piece.all CodePoint.isBlank with
  | false => rfl
  | true =>
    have hnil : piece.trimLeft = [] := List.dropWhile_eq_nil_iff.mpr (List.all_eq_true.mp hblank)
    simp [parameterOf, parameterName, hnil, text, cutIdentifier]

/-- Only blanks are cut off behind. -/
theorem exists_trimLeft_eq (t : Text) :
    ∃ right, t.trimLeft = t.trim ++ right ∧ ∀ c ∈ right, c.isBlank := by
  obtain ⟨right, hright, hblank⟩ := exists_trim_append (Text.head_trimLeft t)
  have htrim : t.trimLeft.trim = t.trim := by
    rw [Text.trim, Text.trimLeft_of_head (Text.head_trimLeft t), ← Text.trim]
  rw [htrim] at hright
  exact ⟨right, hright, hblank⟩

/-- What leads a text and does not end in a blank leads it when it is trimmed. -/
theorem prefix_trim {t u : Text} (hu : u <+: t.trimLeft)
    (hlast : ∀ c ∈ u.getLast?, c.isBlank = false) : u <+: t.trim := by
  obtain ⟨right, hright, hblank⟩ := exists_trimLeft_eq t
  rw [hright] at hu
  rcases List.prefix_or_prefix_of_prefix hu (List.prefix_append t.trim right) with h | ⟨w, rfl⟩
  · exact h
  · have hw : w <+: right := (List.prefix_append_right_inj _).mp hu
    cases hend : w.getLast? with
    | none => simp [List.getLast?_eq_none_iff.mp hend]
    | some c =>
      have hc := hblank c (hw.subset (List.mem_of_getLast? hend))
      have := hlast c (by simp [List.getLast?_append, hend])
      simp [hc] at this

theorem IsIdentifier.isBlank_last {name : Text} (h : IsIdentifier name) (u : Text) :
    ∀ c ∈ (u ++ name).getLast?, c.isBlank = false := by
  intro c hc
  have hne : name ≠ [] := by
    obtain ⟨d, r, rfl, -⟩ := h
    simp
  rw [List.getLast?_append, List.getLast?_eq_some_getLast hne, Option.some_or] at hc
  have hpart := h.isIdentifierPart c (Option.mem_some.mp hc ▸ List.getLast_mem hne)
  cases hblank : c.isBlank with
  | false => rfl
  | true => simp [CodePoint.isIdentifierPart_of_isBlank hblank] at hpart

/-- The value begins with the name, perhaps behind three dots. -/
theorem name_leads_value {piece : Text} {e : Entry} (h : parameterOf piece = some e) :
    e.name <+: e.value ∨ text "..." ++ e.name <+: e.value := by
  obtain ⟨name, hname, rfl⟩ := Option.map_eq_some_iff.mp h
  unfold parameterName at hname
  dsimp only at hname
  obtain ⟨⟨_, rest⟩, hcut, rfl⟩ := Option.map_eq_some_iff.mp hname
  obtain ⟨hident, -, hrest⟩ := cutIdentifier_eq_some.mp hcut
  split at hrest
  · rename_i hdots
    obtain ⟨behind, hbehind⟩ := List.isPrefixOf_iff_prefix.mp hdots
    have hdrop : piece.trimLeft.drop 3 = behind := by
      rw [← hbehind]
      rfl
    rw [hdrop] at hrest
    refine .inr (prefix_trim ⟨rest, ?_⟩ (hident.isBlank_last _))
    rw [← hbehind, hrest, List.append_assoc]
  · exact .inl (prefix_trim ⟨rest, hrest.symm⟩ (hident.isBlank_last []))

/-- A parameter at a position of a text. -/
structure PlacedEntry where
  place : Nat
  entry : Entry

namespace PlacedEntry

/-- The position behind the value. -/
def finish (o : PlacedEntry) : Nat := o.place + o.entry.value.length

/-- The same parameter further on. -/
def later (n : Nat) (o : PlacedEntry) : PlacedEntry := { o with place := n + o.place }

@[simp]
theorem place_later (n : Nat) (o : PlacedEntry) : (o.later n).place = n + o.place := rfl

@[simp]
theorem entry_later (n : Nat) (o : PlacedEntry) : (o.later n).entry = o.entry := rfl

@[simp]
theorem finish_later (n : Nat) (o : PlacedEntry) : (o.later n).finish = n + o.finish :=
  Nat.add_assoc ..

end PlacedEntry

/-- The values stand in the text, one after the other and apart from each other. -/
structure Placed (t : Text) (os : List PlacedEntry) : Prop where
  stands : ∀ o ∈ os, o.entry.value <+: t.drop o.place
  fits : ∀ o ∈ os, o.finish ≤ t.length
  ordered : os.Pairwise fun o p => o.finish < p.place

/-- A piece holds its one parameter. -/
theorem placed_piece (u : Text) :
    ∃ os, Placed u os ∧ (parameterOf u).toList = os.map (·.entry) := by
  cases hentry : parameterOf u with
  | none => exact ⟨[], ⟨by simp, by simp, .nil⟩, rfl⟩
  | some e =>
    obtain ⟨name, -, rfl⟩ := Option.map_eq_some_iff.mp hentry
    obtain ⟨right, hright, -⟩ := exists_trimLeft_eq u
    have hu : u = u.takeWhile CodePoint.isBlank ++ (u.trim ++ right) := by
      rw [← hright, Text.trimLeft, List.takeWhile_append_dropWhile]
    have hlength := congrArg List.length hu
    have hdrop : u.drop (u.takeWhile CodePoint.isBlank).length = u.trim ++ right := by
      have hleft := @List.drop_left _ (u.takeWhile CodePoint.isBlank) (u.trim ++ right)
      rwa [← hu] at hleft
    refine ⟨[⟨(u.takeWhile CodePoint.isBlank).length, ⟨name, u.trim⟩⟩], ⟨?_, ?_, by simp⟩, rfl⟩
    · intro o ho
      obtain rfl := List.mem_singleton.mp ho
      exact ⟨right, hdrop.symm⟩
    · intro o ho
      obtain rfl := List.mem_singleton.mp ho
      simp only [List.length_append] at hlength
      simp only [PlacedEntry.finish]
      omega

/-- **Step.** A piece in front of a separator comes before what stands behind it. -/
theorem Placed.append {u t : Text} {os os' : List PlacedEntry} (hu : Placed u os)
    (ht : Placed t os') (sep : CodePoint) :
    Placed (u ++ sep :: t) (os ++ os'.map (·.later (u.length + 1))) where
  stands := by
    refine List.forall_mem_append.mpr ⟨fun o ho => ?_, List.forall_mem_map.mpr fun o ho => ?_⟩
    · have hplace : o.place ≤ u.length := Nat.le_trans (Nat.le_add_right _ _) (hu.fits o ho)
      rw [List.drop_append_of_le_length hplace]
      exact (hu.stands o ho).trans (List.prefix_append _ _)
    · have hdrop : (u ++ sep :: t).drop (u.length + 1 + o.place) = t.drop o.place := by
        rw [Nat.add_assoc, List.drop_length_add_append, Nat.add_comm 1, List.drop_succ_cons]
      rw [PlacedEntry.place_later, PlacedEntry.entry_later, hdrop]
      exact ht.stands o ho
  fits := by
    have hlength : (u ++ sep :: t).length = u.length + 1 + t.length := by simp; omega
    refine List.forall_mem_append.mpr ⟨fun o ho => ?_, List.forall_mem_map.mpr fun o ho => ?_⟩
    · have := hu.fits o ho
      omega
    · have := ht.fits o ho
      rw [PlacedEntry.finish_later]
      omega
  ordered := by
    refine List.pairwise_append.mpr ⟨hu.ordered, ?_, fun o ho => ?_⟩
    · refine List.pairwise_map.mpr (ht.ordered.imp fun hlt => ?_)
      simpa using hlt
    · refine List.forall_mem_map.mpr fun p _ => ?_
      have := hu.fits o ho
      rw [PlacedEntry.place_later]
      omega

/-- **Run.** The parameters of a list stand in what is written between its parentheses. -/
theorem exists_placed {us : List Text} (hne : us ≠ []) :
    ∃ os, Placed (Text.joinWith [.char ','] us) os ∧
      us.filterMap parameterOf = os.map (·.entry) := by
  induction us with
  | nil => exact absurd rfl hne
  | cons u us ih =>
    obtain ⟨first, hfirst, hentry⟩ := placed_piece u
    have hcons : (u :: us).filterMap parameterOf =
        (parameterOf u).toList ++ us.filterMap parameterOf := by
      cases hu : parameterOf u <;> simp [hu]
    rw [hcons, hentry]
    cases us with
    | nil =>
      rw [Text.joinWith_singleton]
      exact ⟨first, hfirst, by simp⟩
    | cons u' us =>
      obtain ⟨os, hos, hentries⟩ := ih (by simp)
      rw [joinWith_comma, hentries]
      refine ⟨_, hfirst.append hos (.char ','), ?_⟩
      rw [List.map_append, List.map_map]
      rfl

/-- The first parenthesised list is split without loss, whatever stands in it: there is a result
exactly if a list is written in the text, with the first parenthesis in front of its pieces and one
behind them, and the result is its pieces, in order and unchanged, without those that are blank
throughout. The parameters are trimmed parts of what stands between the parentheses, one after the
other and without overlap, and each begins with its name. -/
theorem splitParameters_lossless (t : Text) (ps : List Text) :
    splitParameters t = some ps ↔
      ∃ l : WrittenList, t = l.spelling ∧ ps = l.pieces.filter (!·.all CodePoint.isBlank) ∧
        ∃ os : List PlacedEntry, parameters t = os.map (·.entry) ∧ Placed l.inside os ∧
          ∀ o ∈ os, o.entry.Sound ∧
            (o.entry.name <+: o.entry.value ∨ text "..." ++ o.entry.name <+: o.entry.value) := by
  constructor
  · intro h
    obtain ⟨l, rfl, rfl⟩ := WrittenList.exists_of_splitParameters h
    obtain ⟨os, hplaced, hentries⟩ := exists_placed l.pieces_ne_nil
    have hparameters := (parameters_spelling l).trans hentries
    refine ⟨l, rfl, rfl, os, hparameters, hplaced, fun o ho => ?_⟩
    have hmem : o.entry ∈ os.map (·.entry) := List.mem_map_of_mem ho
    obtain ⟨piece, -, hpiece⟩ := List.mem_filterMap.mp (hentries ▸ hmem)
    exact ⟨sound_of_mem_parameters (hparameters ▸ hmem), name_leads_value hpiece⟩
  · rintro ⟨l, rfl, rfl, -⟩
    exact l.splitParameters_spelling

end CommentTags
