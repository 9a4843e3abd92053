import CommentTags.Grammar.Parameter

/-!
Parameter lists with nested brackets and quoted strings. Balanced text is what may stand between
two commas of a list: the scan comes out of it with the brackets and the quote it went in with, so
the pieces that are cut out are those that were put together.
-/

namespace CommentTags

namespace CodePoint

def isBracket (c : CodePoint) : Bool :=
  [.char '(', .char ')', .char '[', .char ']', .char '{', .char '}', .char '<', .char '>'].contains c

/-- A code point that a parameter list gives no meaning of its own. -/
def isOrdinary (c : CodePoint) : Bool := !c.opensString && !c.isBracket && c ≠ .char ','

theorem cases_of_closer? {o k : CodePoint} (h : o.closer? = some k) :
    (o = .char '(' ∧ k = .char ')') ∨ (o = .char '[' ∧ k = .char ']') ∨
      (o = .char '{' ∧ k = .char '}') ∨ (o = .char '<' ∧ k = .char '>') := by
  unfold closer? at h
  split at h
  · cases h
    exact .inl ⟨rfl, rfl⟩
  · cases h
    exact .inr (.inl ⟨rfl, rfl⟩)
  · cases h
    exact .inr (.inr (.inl ⟨rfl, rfl⟩))
  · cases h
    exact .inr (.inr (.inr ⟨rfl, rfl⟩))
  · cases h

theorem isBracket_of_closer? {o k : CodePoint} (h : o.closer? = some k) :
    o.isBracket ∧ k.isBracket := by
  rcases cases_of_closer? h with ⟨rfl, rfl⟩ | ⟨rfl, rfl⟩ | ⟨rfl, rfl⟩ | ⟨rfl, rfl⟩ <;> decide

theorem closer?_of_not_isBracket {c : CodePoint} (h : c.isBracket = false) : c.closer? = none := by
  cases hk : c.closer? with
  | none => rfl
  | some k =>
    have := (isBracket_of_closer? hk).1
    simp [h] at this

end CodePoint

/-- Ordinary code points, arrows, bracketed groups and quoted strings, one after the other. Commas
stand in the groups, and outside of them only if `inner` says that a group is around the text. The
inside of an angle group does not end in `=`, which would make an arrow of its end. -/
inductive Balanced : (inner : Bool) → Text → Prop
  | nil {inner : Bool} : Balanced inner []
  | ordinary {inner : Bool} {c : CodePoint} {t : Text} :
      c.isOrdinary → Balanced inner t → Balanced inner (c :: t)
  | comma {t : Text} : Balanced true t → Balanced true (.char ',' :: t)
  | arrow {inner : Bool} {t : Text} :
      Balanced inner t → Balanced inner (.char '=' :: .char '>' :: t)
  | group {inner : Bool} {o k : CodePoint} {inside t : Text} :
      o.closer? = some k → Balanced true inside →
      (k = .char '>' → inside.getLast? ≠ some (.char '=')) →
      Balanced inner t → Balanced inner (o :: (inside ++ k :: t))
  | quoted {inner : Bool} {q : CodePoint} {body t : Text} :
      q.opensString → q ∉ body → .char '\\' ∉ body →
      Balanced inner t → Balanced inner (q :: (body ++ q :: t))

namespace ListScan

/-- The scan after some more code points that change neither its brackets nor its quote. -/
def skip (s : ListScan) (t : Text) : ListScan :=
  { s with prev := t.getLast?.getD s.prev, piece := t.reverse ++ s.piece }

theorem skip_cons (s : ListScan) (c : CodePoint) (t : Text) :
    s.skip (c :: t) = (s.skip [c]).skip t := by
  cases h : t.getLast? <;> simp [skip, List.getLast?_cons, h]

theorem skip_append (s : ListScan) (t u : Text) : s.skip (t ++ u) = (s.skip t).skip u := by
  induction t generalizing s with
  | nil => rfl
  | cons c t ih => rw [List.cons_append, skip_cons, skip_cons s c t, ih]

theorem prev_skip_mem (s : ListScan) (c : CodePoint) (t : Text) :
    (s.skip (c :: t)).prev ∈ c :: t := by
  have hlast : (c :: t).getLast? = some ((c :: t).getLast (by simp)) :=
    List.getLast?_eq_some_getLast (by simp)
  simp only [skip, hlast, Option.getD_some]
  exact List.getLast_mem _

/-- The scan with one more bracket to be closed. -/
def awaiting (s : ListScan) (k : CodePoint) : ListScan := { s with closers := k :: s.closers }

/-- The scan with a string open. -/
def quoting (s : ListScan) (q : CodePoint) : ListScan := { s with quote := some q }

/-- No string is open, and the brackets that are to be closed are brackets. -/
structure Between (s : ListScan) : Prop where
  no_quote : s.quote = none
  closers_bracket : ∀ k ∈ s.closers, k.isBracket

theorem Between.skip {s : ListScan} (hs : s.Between) (t : Text) : (s.skip t).Between :=
  ⟨hs.no_quote, hs.closers_bracket⟩

theorem Between.awaiting {s : ListScan} (hs : s.Between) {o k : CodePoint}
    (h : o.closer? = some k) : (s.awaiting k).Between :=
  ⟨hs.no_quote, List.forall_mem_cons.mpr ⟨(CodePoint.isBracket_of_closer? h).2,
    hs.closers_bracket⟩⟩

/-! One code point. -/

theorem step_ordinary {s : ListScan} (hs : s.Between) {c : CodePoint} (hc : c.isOrdinary) :
    s.step c = .within (s.skip [c]) := by
  simp only [CodePoint.isOrdinary, Bool.and_eq_true, Bool.not_eq_true', decide_eq_true_eq] at hc
  obtain ⟨⟨hquote, hbracket⟩, hcomma⟩ := hc
  have hparen : c ≠ .char ')' := by
    rintro rfl
    cases hbracket
  simp only [step, hs.no_quote, hquote, CodePoint.closer?_of_not_isBracket hbracket]
  cases hclosers : s.closers with
  | nil => simp [hcomma, hparen, skip, hs.no_quote, hclosers]
  | cons k ks =>
    have hk : k.isBracket := hs.closers_bracket k (by rw [hclosers]; exact List.mem_cons_self)
    have hne : c ≠ k := by
      rintro rfl
      simp [hbracket] at hk
    simp [hne, skip, hs.no_quote, hclosers]

/-- Within a group a comma is like any other code point. -/
theorem step_inner_comma {s : ListScan} (hs : s.Between) (hopen : s.closers ≠ []) :
    s.step (.char ',') = .within (s.skip [.char ',']) := by
  obtain ⟨k, ks, hclosers⟩ := List.exists_cons_of_ne_nil hopen
  have hk : k.isBracket := hs.closers_bracket k (by rw [hclosers]; exact List.mem_cons_self)
  have hne : .char ',' ≠ k := by
    rintro rfl
    cases hk
  simp [step, hs.no_quote, CodePoint.opensString, CodePoint.closer?, hclosers, hne, skip]

/-- The end of an arrow closes nothing. -/
theorem step_arrow {s : ListScan} (hs : s.Between) (hprev : s.prev = .char '=') :
    s.step (.char '>') = .within (s.skip [.char '>']) := by
  cases hclosers : s.closers with
  | nil => simp [step, hs.no_quote, CodePoint.opensString, CodePoint.closer?, hclosers, skip]
  | cons k ks =>
    simp [step, hs.no_quote, CodePoint.opensString, CodePoint.closer?, hclosers, hprev, skip]

theorem step_open {s : ListScan} (hs : s.Between) {o k : CodePoint} (h : o.closer? = some k) :
    s.step o = .within ((s.awaiting k).skip [o]) := by
  have hquote : o.opensString = false := by
    rcases CodePoint.cases_of_closer? h with ⟨rfl, -⟩ | ⟨rfl, -⟩ | ⟨rfl, -⟩ | ⟨rfl, -⟩ <;> rfl
  simp [step, hs.no_quote, hquote, h, skip, awaiting]

/-- The bracket that is awaited closes its group, unless it is the end of an arrow. -/
theorem step_close {s : ListScan} (hs : s.Between) {o k : CodePoint} (h : o.closer? = some k)
    {t : Text} (hprev : k = .char '>' → (s.skip t).prev ≠ .char '=') :
    ((s.awaiting k).skip t).step k = .within (s.skip (t ++ [k])) := by
  have hquote : k.opensString = false := by
    rcases CodePoint.cases_of_closer? h with ⟨-, rfl⟩ | ⟨-, rfl⟩ | ⟨-, rfl⟩ | ⟨-, rfl⟩ <;> rfl
  have hcloser : k.closer? = none := by
    rcases CodePoint.cases_of_closer? h with ⟨-, rfl⟩ | ⟨-, rfl⟩ | ⟨-, rfl⟩ | ⟨-, rfl⟩ <;> rfl
  have harrow : ¬ (k = .char '>' ∧ (s.skip t).prev = .char '=') := fun ⟨hk, he⟩ => hprev hk he
  simp only [skip] at harrow
  simp [step, hs.no_quote, hquote, hcloser, harrow, skip, awaiting]

theorem step_openString {s : ListScan} (hs : s.Between) {q : CodePoint} (hq : q.opensString) :
    s.step q = .within ((s.quoting q).skip [q]) := by
  simp [step, hs.no_quote, hq, skip, quoting]

theorem step_inString {s : ListScan} {q c : CodePoint} (hc : c ≠ q) :
    (s.quoting q).step c = .within ((s.quoting q).skip [c]) := by
  simp [step, hc, skip, quoting]

theorem step_closeString {s : ListScan} (hs : s.Between) {q : CodePoint} {t : Text}
    (hprev : (s.skip t).prev ≠ .char '\\') :
    ((s.quoting q).skip t).step q = .within (s.skip (t ++ [q])) := by
  simp only [skip] at hprev
  simp [step, hprev, skip, quoting, hs.no_quote]

end ListScan

/-! Whole texts. -/

open ListScan

theorem splitList_of_within {s s' : ListScan} {c : CodePoint} (h : s.step c = .within s')
    (rest : Text) : splitList s (c :: rest) = splitList s' rest := by
  rw [splitList, h]

/-- The body of a string is passed over. -/
theorem splitList_inString {s : ListScan} {q : CodePoint} {body : Text} (hbody : q ∉ body)
    (rest : Text) :
    splitList (s.quoting q) (body ++ rest) = splitList ((s.quoting q).skip body) rest := by
  induction body generalizing s with
  | nil => rfl
  | cons c body ih =>
    obtain ⟨hc, hrest⟩ : q ≠ c ∧ q ∉ body := by simpa using hbody
    have hnext : splitList ((s.quoting q).skip [c]) (body ++ rest) =
        splitList (((s.quoting q).skip [c]).skip body) rest := @ih (s.skip [c]) hrest
    rw [List.cons_append, splitList_of_within (step_inString (Ne.symm hc)), hnext, ← skip_cons]

/-- A string is passed over from its opening quote to its closing one. -/
theorem splitList_string {s : ListScan} (hs : s.Between) {q : CodePoint} (hq : q.opensString)
    {body : Text} (hbody : q ∉ body) (hescape : .char '\\' ∉ body) (rest : Text) :
    splitList s (q :: (body ++ q :: rest)) = splitList (s.skip (q :: (body ++ [q]))) rest := by
  have hprev : (s.skip (q :: body)).prev ≠ .char '\\' := by
    intro heq
    rcases List.mem_cons.mp (heq ▸ prev_skip_mem s q body) with rfl | hmem
    · cases hq
    · exact hescape hmem
  have hinside : splitList ((s.quoting q).skip [q]) (body ++ q :: rest) =
      splitList (((s.quoting q).skip [q]).skip body) (q :: rest) :=
    @splitList_inString (s.skip [q]) q body hbody (q :: rest)
  rw [splitList_of_within (step_openString hs hq), hinside, ← skip_cons,
    splitList_of_within (step_closeString hs hprev), List.cons_append]

/-- **Balanced text is passed over**: the scan is then as it was, with the text added to its
piece. The induction is on how the text is built; a group is entered with its closing bracket on
top of those that were to be closed before. -/
theorem splitList_balanced {inner : Bool} {t : Text} (ht : Balanced inner t) {s : ListScan}
    (hs : s.Between) (hinner : inner = true → s.closers ≠ []) (rest : Text) :
    splitList s (t ++ rest) = splitList (s.skip t) rest := by
  induction ht generalizing s rest with
  | nil => rfl
  | @ordinary inner c t hc _ ih =>
    rw [List.cons_append, splitList_of_within (step_ordinary hs hc), skip_cons s c t]
    exact ih (hs.skip _) hinner rest
  | @comma t _ ih =>
    rw [List.cons_append, splitList_of_within (step_inner_comma hs (hinner rfl)), skip_cons s _ t]
    exact ih (hs.skip _) hinner rest
  | @arrow inner t _ ih =>
    have hequals : s.step (.char '=') = .within (s.skip [.char '=']) := step_ordinary hs rfl
    have harrow := step_arrow (hs.skip [.char '=']) rfl
    rw [List.cons_append, List.cons_append, splitList_of_within hequals,
      splitList_of_within harrow, skip_cons s _ (_ :: t), skip_cons _ _ t]
    exact ih ((hs.skip _).skip _) hinner rest
  | @group inner o k inside t hk _ hend _ ihinside iht =>
    have hprev : k = .char '>' → (s.skip (o :: inside)).prev ≠ .char '=' := by
      intro hangle
      cases hlast : inside.getLast? with
      | none =>
        rcases CodePoint.cases_of_closer? hk with ⟨rfl, -⟩ | ⟨rfl, -⟩ | ⟨rfl, -⟩ | ⟨rfl, -⟩ <;>
          simp [skip, List.getLast?_cons, hlast]
      | some c =>
        have hne := hend hangle
        rw [hlast] at hne
        simpa [skip, List.getLast?_cons, hlast] using hne
    have hsplit : o :: (inside ++ k :: t) = (o :: inside ++ [k]) ++ t := by simp
    rw [List.cons_append, List.append_assoc, List.cons_append, splitList_of_within (step_open hs hk),
      ihinside ((hs.awaiting hk).skip [o]) (by simp [awaiting, skip]) (k :: (t ++ rest)), ← skip_cons,
      splitList_of_within (step_close hs hk hprev), hsplit, skip_append s _ t]
    exact iht (hs.skip _) hinner rest
  | @quoted inner q body t hq hbody hescape _ ih =>
    have hsplit : q :: (body ++ q :: t) = (q :: (body ++ [q])) ++ t := by simp
    rw [List.cons_append, List.append_assoc, List.cons_append,
      splitList_string hs hq hbody hescape, hsplit, skip_append s _ t]
    exact ih (hs.skip _) hinner rest

/-! Parameter lists. -/

theorem between_start (p : CodePoint) : ({ prev := p } : ListScan).Between :=
  ⟨rfl, by simp⟩

theorem splitList_piece {p : CodePoint} {t : Text} (ht : Balanced false t) (rest : Text) :
    splitList { prev := p } (t ++ rest) = splitList (({ prev := p } : ListScan).skip t) rest :=
  splitList_balanced ht (between_start p) (by simp) rest

/-- A comma outside of all groups ends a piece. -/
theorem splitList_comma {p : CodePoint} {t : Text} (ht : Balanced false t) (rest : Text) :
    splitList { prev := p } (t ++ .char ',' :: rest) =
      (splitList { prev := .char ',' } rest).map (t :: ·) := by
  rw [splitList_piece ht]
  simp [splitList, step, skip, CodePoint.opensString, CodePoint.closer?]

/-- So does the parenthesis that closes the list, with the last piece. -/
theorem splitList_done {p : CodePoint} {t : Text} (ht : Balanced false t) (rest : Text) :
    splitList { prev := p } (t ++ .char ')' :: rest) = some [t] := by
  rw [splitList_piece ht]
  simp [splitList, step, skip, CodePoint.opensString, CodePoint.closer?]

/-- The pieces of a list with at least one piece. -/
theorem splitList_joinWith {ps : List Text} (hne : ps ≠ []) (hps : ∀ p ∈ ps, Balanced false p)
    (prev : CodePoint) (after : Text) :
    splitList { prev := prev } (Text.joinWith [.char ','] ps ++ .char ')' :: after) = some ps := by
  induction ps generalizing prev with
  | nil => exact absurd rfl hne
  | cons p ps ih =>
    have hp := hps p List.mem_cons_self
    cases ps with
    | nil =>
      have hone : Text.joinWith [.char ','] [p] = p := by simp [Text.joinWith]
      rw [hone, splitList_done hp]
    | cons p' ps =>
      have hmore : Text.joinWith [.char ','] (p :: p' :: ps) =
          p ++ .char ',' :: Text.joinWith [.char ','] (p' :: ps) := by
        simp [Text.joinWith, List.intercalate_cons_cons]
      rw [hmore, List.append_assoc, List.cons_append, splitList_comma hp,
        ih (by simp) fun x hx => hps x (List.mem_cons_of_mem p hx)]
      rfl

/-- The first parenthesised list is split exactly at the commas that were put between balanced
texts: they come back in order and unchanged, without those that are blank throughout. -/
theorem splitParameters_balanced {before : Text} (hbefore : .char '(' ∉ before) {ps : List Text}
    (hps : ∀ p ∈ ps, Balanced false p) (after : Text) :
    splitParameters
        (before ++ .char '(' :: (Text.joinWith [.char ','] ps ++ .char ')' :: after)) =
      some (ps.filter (!·.all CodePoint.isBlank)) := by
  have hfirst : ∀ rest : Text, (before ++ .char '(' :: rest).dropWhile (· ≠ .char '(') =
      .char '(' :: rest := by
    intro rest
    rw [List.dropWhile_append_of_pos]
    · simp
    · intro c hc
      have hne : c ≠ .char '(' := by
        rintro rfl
        exact hbefore hc
      simpa using hne
  unfold splitParameters
  rw [hfirst]
  cases ps with
  | nil => rfl
  | cons p ps =>
    dsimp only
    rw [splitList_joinWith (by simp) hps]
    rfl

theorem Balanced.ordinary_append {inner : Bool} {u t : Text} (hu : ∀ c ∈ u, c.isOrdinary)
    (ht : Balanced inner t) : Balanced inner (u ++ t) := by
  induction u with
  | nil => exact ht
  | cons c u ih =>
    obtain ⟨hc, hu⟩ := List.forall_mem_cons.mp hu
    exact .ordinary hc (ih hu)

/-- A string with brackets, commas and another quote in it, a callback whose type has commas in an
angle group, and a blank piece. -/
theorem splitParameters_balanced_callback :
    let quoted : Text := text "a = '),(\"'"
    let callback : Text := text " cb: (m: Map<string, int[]>) => void"
    splitParameters (text "function f" ++ .char '(' ::
        (Text.joinWith [.char ','] [quoted, callback, text " "] ++ .char ')' :: text " \x7b g(1) \x7d")) =
      some [quoted, callback] := by
  intro quoted callback
  have hquoted : Balanced false quoted := by
    refine .ordinary_append (u := text "a = ") (by decide) ?_
    exact @Balanced.quoted _ (.char '\x27') (text "),(\"") _ rfl (by decide) (by decide) .nil
  have hangle : Balanced true (text "m: Map<string, int[]>") := by
    refine .ordinary_append (u := text "m: Map") (by decide) ?_
    refine @Balanced.group _ (.char '<') _ (text "string, int[]") _ rfl ?_ (by decide) .nil
    refine .ordinary_append (u := text "string") (by decide) (.comma ?_)
    refine .ordinary_append (u := text " int") (by decide) ?_
    exact @Balanced.group _ (.char '[') _ [] _ rfl .nil (by decide) .nil
  have hcallback : Balanced false callback := by
    refine .ordinary_append (u := text " cb: ") (by decide) ?_
    refine @Balanced.group _ (.char '(') _ (text "m: Map<string, int[]>") _ rfl hangle (by decide) ?_
    refine .ordinary (c := .char ' ') rfl (.arrow ?_)
    exact .ordinary_append (u := text " void") (t := []) (by decide) .nil
  have hblank : Balanced false (text " ") := .ordinary rfl .nil
  have hsplit := @splitParameters_balanced (text "function f") (by decide)
    [quoted, callback, text " "] (by simp [hquoted, hcallback, hblank]) (text " \x7b g(1) \x7d")
  rw [hsplit]
  decide +kernel

end CommentTags
