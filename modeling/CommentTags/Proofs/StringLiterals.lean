import CommentTags.Proofs.ParameterNesting
import CommentTags.Proofs.Scanning
import CommentTags.Proofs.TokenInvariants

/-!
String literals with escapes in a parameter list. The scan stays in a string up to its closing
quote, since an escaped quote has a backslash before it. It leaves the string there unless the body
ends in an escaped backslash, which it takes for a backslash that escapes the quote.
-/

namespace CommentTags

/-- The body of a string literal: code points other than its quote and the backslash, and
backslashes each with the one code point that it escapes. -/
inductive LiteralBody (q : CodePoint) : Text → Prop
  | nil : LiteralBody q []
  | plain {c : CodePoint} {t : Text} :
      c ≠ q → c ≠ .char '\\' → LiteralBody q t → LiteralBody q (c :: t)
  | escaped {c : CodePoint} {t : Text} : LiteralBody q t → LiteralBody q (.char '\\' :: c :: t)

/-- A backslash is the last of a body only if it is itself escaped. -/
theorem LiteralBody.getLast?_eq_backslash {q : CodePoint} {body : Text} (h : LiteralBody q body) :
    body.getLast? = some (.char '\\') ↔
      ∃ u, LiteralBody q u ∧ body = u ++ [.char '\\', .char '\\'] := by
  constructor
  · intro hlast
    induction h with
    | nil => cases hlast
    | @plain c t hc hescape _ ih =>
      rw [List.getLast?_cons, Option.some.injEq] at hlast
      cases ht : t.getLast? with
      | none =>
        rw [ht] at hlast
        exact absurd hlast hescape
      | some d =>
        rw [ht] at hlast
        obtain ⟨u, hu, rfl⟩ := ih (ht.trans (congrArg some hlast))
        exact ⟨c :: u, .plain hc hescape hu, rfl⟩
    | @escaped c t hbody ih =>
      rw [List.getLast?_cons_cons, List.getLast?_cons, Option.some.injEq] at hlast
      cases ht : t.getLast? with
      | none =>
        rw [ht] at hlast
        obtain rfl : c = .char '\\' := hlast
        obtain rfl : t = [] := List.getLast?_eq_none_iff.mp ht
        exact ⟨[], .nil, rfl⟩
      | some d =>
        rw [ht] at hlast
        obtain ⟨u, hu, rfl⟩ := ih (ht.trans (congrArg some hlast))
        exact ⟨.char '\\' :: c :: u, .escaped hu, rfl⟩
  · rintro ⟨u, -, rfl⟩
    simp

namespace ListScan

/-- The scan after some more code points, if they all belong to the piece that is being read. -/
def after? (s : ListScan) : Text → Option ListScan
  | [] => some s
  | c :: t =>
    match s.step c with
    | .within s' => after? s' t
    | _ => none

theorem after?_of_within {s s' : ListScan} {c : CodePoint} (h : s.step c = .within s') (t : Text) :
    s.after? (c :: t) = s'.after? t := by
  rw [after?, h]

theorem after?_append (s : ListScan) (t u : Text) :
    s.after? (t ++ u) = (s.after? t).bind (·.after? u) := by
  induction t generalizing s with
  | nil => rfl
  | cons c t ih =>
    simp only [List.cons_append, after?]
    cases s.step c with
    | within s' => exact ih s'
    | comma => rfl
    | done => rfl

theorem splitList_of_after? {s s' : ListScan} {t : Text} (h : s.after? t = some s') (rest : Text) :
    splitList s (t ++ rest) = splitList s' rest := by
  induction t generalizing s with
  | nil =>
    obtain rfl : s = s' := by simpa [after?] using h
    rfl
  | cons c t ih =>
    simp only [after?] at h
    split at h
    · rename_i s'' hstep
      rw [List.cons_append, splitList_of_within hstep]
      exact ih h
    · cases h

/-- Behind a backslash a string goes on, whatever comes. -/
theorem step_escaped {s : ListScan} {q : CodePoint} {t : Text}
    (hprev : (s.skip t).prev = .char '\\') (c : CodePoint) :
    ((s.quoting q).skip t).step c = .within ((s.quoting q).skip (t ++ [c])) := by
  simp only [skip] at hprev
  simp [step, hprev, skip, quoting]

end ListScan

open ListScan

theorem ne_backslash_of_opensString {q : CodePoint} (hq : q.opensString) : .char '\\' ≠ q := by
  rintro rfl
  cases hq

/-- **A literal is not left in its body.** The induction is on the body, with any front part of it
read so far: an escaped code point is read right behind its backslash. -/
theorem LiteralBody.after? {q : CodePoint} (hq : q.opensString) {body : Text}
    (hbody : LiteralBody q body) {u : Text} (hu : u <+: body) (s : ListScan) :
    (s.quoting q).after? u = some ((s.quoting q).skip u) := by
  induction hbody generalizing u s with
  | nil =>
    obtain rfl : u = [] := List.prefix_nil.mp hu
    rfl
  | @plain c t hc _ _ ih =>
    rcases List.prefix_cons_iff.mp hu with rfl | ⟨u', rfl, hu'⟩
    · rfl
    · rw [after?_of_within (step_inString hc), skip_cons (s.quoting q) c u']
      exact ih hu' (s.skip [c])
  | @escaped c t _ ih =>
    have hopen := @step_inString s q _ (ne_backslash_of_opensString hq)
    rcases List.prefix_cons_iff.mp hu with rfl | ⟨u', rfl, hu'⟩
    · rfl
    · rcases List.prefix_cons_iff.mp hu' with rfl | ⟨u'', rfl, hu''⟩
      · rw [after?_of_within hopen]
        rfl
      · have hescaped := @step_escaped s q [.char '\\'] rfl c
        rw [after?_of_within hopen, after?_of_within hescaped,
          show .char '\\' :: c :: u'' = [.char '\\', c] ++ u'' from rfl,
          skip_append (s.quoting q) _ u'']
        exact ih hu'' (s.skip [.char '\\', c])

/-- The body is read with the opening quote in front of it. -/
theorem after?_openString {s : ListScan} (hs : s.Between) {q : CodePoint} (hq : q.opensString)
    {body : Text} (hbody : LiteralBody q body) {u : Text} (hu : u <+: body) :
    s.after? (q :: u) = some ((s.quoting q).skip (q :: u)) := by
  rw [after?_of_within (step_openString hs hq), skip_cons (s.quoting q) q u]
  exact hbody.after? hq hu (s.skip [q])

theorem prev_skip_openString (s : ListScan) {q : CodePoint} (hq : q.opensString) (body : Text) :
    (s.skip (q :: body)).prev = .char '\\' ↔ body.getLast? = some (.char '\\') := by
  cases hlast : body.getLast? with
  | none => simp [skip, List.getLast?_cons, hlast, (ne_backslash_of_opensString hq).symm]
  | some c => simp [skip, List.getLast?_cons, hlast]

/-- The scan behind the closing quote of a literal: out of the string, unless the body ends in a
backslash. -/
theorem after?_literal {s : ListScan} (hs : s.Between) {q : CodePoint} (hq : q.opensString)
    {body : Text} (hbody : LiteralBody q body) :
    s.after? (q :: body ++ [q]) =
      if body.getLast? = some (.char '\\') then some ((s.quoting q).skip (q :: body ++ [q]))
      else some (s.skip (q :: body ++ [q])) := by
  rw [after?_append, after?_openString hs hq hbody List.prefix_rfl, Option.bind_some]
  split
  · rename_i hlast
    have hprev := (prev_skip_openString s hq body).mpr hlast
    rw [after?_of_within (step_escaped hprev q)]
    rfl
  · rename_i hlast
    have hprev : (s.skip (q :: body)).prev ≠ .char '\\' := fun h =>
      hlast ((prev_skip_openString s hq body).mp h)
    rw [after?_of_within (step_closeString hs hprev)]
    rfl

/-! Parameters with a string for their default. -/

/-- The code points that a parameter list gives a meaning of its own. -/
def listSigns : Text := text "'\"\x60()[]\x7b\x7d<>,"

theorem isOrdinary_of_not_mem {c : CodePoint} (h : c ∉ listSigns) : c.isOrdinary := by
  simpa [listSigns, text, CodePoint.isOrdinary, CodePoint.opensString, CodePoint.isBracket,
    and_assoc] using h

/-- Identifiers are made of ordinary code points. -/
theorem isOrdinary_of_identifier {c : CodePoint} (h : c.isIdentifierStart ∨ c.isIdentifierPart) :
    c.isOrdinary := by
  have hsigns : ∀ c ∈ listSigns, c.isIdentifierStart = false ∧ c.isIdentifierPart = false := by
    decide +kernel
  apply isOrdinary_of_not_mem
  intro hmem
  obtain ⟨hstart, hpart⟩ := hsigns c hmem
  rcases h with h | h
  · rw [hstart] at h
    cases h
  · rw [hpart] at h
    cases h

theorem isOrdinary_of_mem_identifier {t : Text} (h : IsIdentifier t) {c : CodePoint} (hc : c ∈ t) :
    c.isOrdinary := by
  obtain ⟨d, r, rfl, hd, hr⟩ := h
  rcases List.mem_cons.mp hc with rfl | hc
  · exact isOrdinary_of_identifier (.inl hd)
  · exact isOrdinary_of_identifier (.inr (hr c hc))

/-- A text with an identifier in it is not blank throughout. -/
theorem all_isBlank_eq_false {name t : Text} (hname : IsIdentifier name) (hsub : name ⊆ t) :
    t.all CodePoint.isBlank = false := by
  have hblanks : ∀ n ∈ blankNumbers, CodePoint.isIdentifierStart (.char (Char.ofNat n)) = false := by
    decide +kernel
  obtain ⟨c, r, rfl, hc, -⟩ := hname
  have hblank : c.isBlank = false := by
    cases hb : c.isBlank with
    | false => rfl
    | true =>
      obtain ⟨n, hn, rfl⟩ := CodePoint.exists_blankNumber hb
      rw [hblanks n hn] at hc
      cases hc
  exact List.all_eq_false.mpr ⟨c, hsub List.mem_cons_self, by simp [hblank]⟩

theorem after?_ordinary {s : ListScan} (hs : s.Between) {t : Text} (ht : ∀ c ∈ t, c.isOrdinary) :
    s.after? t = some (s.skip t) := by
  induction t generalizing s with
  | nil => rfl
  | cons c t ih =>
    obtain ⟨hc, ht⟩ := List.forall_mem_cons.mp ht
    rw [after?_of_within (step_ordinary hs hc), ih (hs.skip [c]) ht, ← skip_cons]

/-- A parameter with a string literal for its default. -/
def withDefault (name : Text) (q : CodePoint) (body : Text) : Text :=
  name ++ text " = " ++ (q :: body ++ [q])

theorem after?_withDefault {s : ListScan} (hs : s.Between) {q : CodePoint} (hq : q.opensString)
    {body : Text} (hbody : LiteralBody q body) {name : Text} (hname : IsIdentifier name) :
    s.after? (withDefault name q body) =
      if body.getLast? = some (.char '\\') then some ((s.quoting q).skip (withDefault name q body))
      else some (s.skip (withDefault name q body)) := by
  have hfront : ∀ c ∈ name ++ text " = ", c.isOrdinary := by
    intro c hc
    rcases List.mem_append.mp hc with hc | hc
    · exact isOrdinary_of_mem_identifier hname hc
    · have hsign : ∀ c ∈ text " = ", c.isOrdinary := by decide
      exact hsign c hc
  rw [withDefault, after?_append, after?_ordinary hs hfront, Option.bind_some,
    after?_literal (hs.skip _) hq hbody]
  split
  · rw [skip_append (s.quoting q) (name ++ text " = ")]
    rfl
  · rw [skip_append s (name ++ text " = ")]

/-- A string that is never closed takes in the rest of the text. -/
theorem splitList_unclosed (s : ListScan) {q : CodePoint} {t : Text} (ht : q ∉ t) :
    splitList (s.quoting q) t = none := by
  have hall := @splitList_inString s q t ht []
  rw [List.append_nil] at hall
  rw [hall]
  rfl

theorem opensString_of_isOrdinary {c : CodePoint} (h : c.isOrdinary) : c.opensString = false := by
  simp only [CodePoint.isOrdinary, Bool.and_eq_true, Bool.not_eq_true'] at h
  exact h.1.1

/-- No quote stands in the rest of the list. -/
theorem quote_not_mem_rest {q : CodePoint} (hq : q.opensString) {b : Text} (hb : IsIdentifier b) :
    q ∉ .char ',' :: (.char ' ' :: b ++ [.char ')']) := by
  have hnone : ∀ c ∈ .char ',' :: (.char ' ' :: b ++ [.char ')']), c.opensString = false := by
    intro c hc
    simp only [List.cons_append, List.mem_cons, List.mem_append, List.not_mem_nil, or_false] at hc
    rcases hc with rfl | rfl | hc | rfl
    · rfl
    · rfl
    · exact opensString_of_isOrdinary (isOrdinary_of_mem_identifier hb hc)
    · rfl
  intro hmem
  rw [hnone q hmem] at hq
  cases hq

theorem balanced_of_identifier {b : Text} (hb : IsIdentifier b) :
    Balanced false (.char ' ' :: b) := by
  have hbalanced : Balanced false (b ++ []) :=
    .ordinary_append (fun c hc => isOrdinary_of_mem_identifier hb hc) .nil
  rw [List.append_nil] at hbalanced
  exact .ordinary rfl hbalanced

/-- The pieces of a list of two parameters, the first with a string for its default. -/
theorem splitList_withDefault {q : CodePoint} (hq : q.opensString) {body : Text}
    (hbody : LiteralBody q body) {a b : Text} (ha : IsIdentifier a) (hb : IsIdentifier b)
    (p : CodePoint) :
    splitList { prev := p }
        (withDefault a q body ++ .char ',' :: (.char ' ' :: b ++ [.char ')'])) =
      if body.getLast? = some (.char '\\') then none
      else some [withDefault a q body, .char ' ' :: b] := by
  have hafter := after?_withDefault (between_start p) hq hbody ha
  split at hafter
  · rename_i hlast
    rw [splitList_of_after? hafter, if_pos hlast]
    exact splitList_unclosed (({ prev := p } : ListScan).skip _) (quote_not_mem_rest hq hb)
  · rename_i hlast
    rw [splitList_of_after? hafter, if_neg hlast]
    have hcomma : (({ prev := p } : ListScan).skip (withDefault a q body)).step (.char ',') =
        .comma := rfl
    have hpiece : (({ prev := p } : ListScan).skip (withDefault a q body)).piece.reverse =
        withDefault a q body := by
      simp [skip]
    rw [splitList, hcomma, hpiece]
    dsimp only
    rw [splitList_done (balanced_of_identifier hb)]
    rfl

/-- A string literal is passed over from its opening quote up to its closing one, and never left
before. It is left there unless its body ends in an escaped backslash; in that case the string goes
on, and the text holds no complete parameter list. -/
theorem splitParameters_literal {q : CodePoint} (hq : q.opensString) {body : Text}
    (hbody : LiteralBody q body) {a b : Text} (ha : IsIdentifier a) (hb : IsIdentifier b) :
    splitParameters (text "f(" ++ withDefault a q body ++ text ", " ++ b ++ text ")") =
        (if body.getLast? = some (.char '\\') then none
          else some [withDefault a q body, text " " ++ b]) ∧
      (∀ s : ListScan, s.Between →
        (∀ u, u <+: body → (s.after? (q :: u)).map (·.quote) = some (some q)) ∧
        (s.after? (q :: body ++ [q])).map (·.quote) =
          some (if body.getLast? = some (.char '\\') then some q else none)) ∧
      (body.getLast? = some (.char '\\') ↔
        ∃ u, LiteralBody q u ∧ body = u ++ [.char '\\', .char '\\']) := by
  refine ⟨?_, fun s hs => ⟨fun u hu => ?_, ?_⟩, hbody.getLast?_eq_backslash⟩
  · have hopen : splitParameters
        (text "f(" ++ withDefault a q body ++ text ", " ++ b ++ text ")") =
        (splitList { prev := .char '(' }
          (withDefault a q body ++ .char ',' :: (.char ' ' :: b ++ [.char ')']))).map
          (·.filter (!·.all CodePoint.isBlank)) := by
      simp [splitParameters, text]
    rw [hopen, splitList_withDefault hq hbody ha hb]
    split
    · rfl
    · have hfirst : (withDefault a q body).all CodePoint.isBlank = false :=
        all_isBlank_eq_false ha (by simp [withDefault])
      have hsecond : (.char ' ' :: b : Text).all CodePoint.isBlank = false :=
        all_isBlank_eq_false hb (List.subset_cons_self _ _)
      simp [hfirst, hsecond, text]
  · rw [after?_openString hs hq hbody hu]
    rfl
  · rw [after?_literal hs hq hbody]
    split
    · rfl
    · exact congrArg some hs.no_quote

/-- An escaped quote, and then a parenthesis, a comma and another quote, in a string. -/
theorem splitParameters_literal_escapedQuote :
    LiteralBody (.char '\x22') (text "\\\"),'") ∧
      splitParameters (text "f(sep = \"\\\"),'\", n)") =
        some [text "sep = \"\\\"),'\"", text " n"] := by
  have hbody : LiteralBody (.char '\x22') (text "\\\"),'") :=
    .escaped (.plain (by decide) (by decide) (.plain (by decide) (by decide)
      (.plain (by decide) (by decide) .nil)))
  have hsep : IsIdentifier (text "sep") := ⟨_, _, rfl, rfl, by decide +kernel⟩
  have hn : IsIdentifier (text "n") := ⟨_, _, rfl, rfl, by decide⟩
  exact ⟨hbody, (splitParameters_literal rfl hbody hsep hn).1⟩

/-- A string whose body is an escaped backslash is not left at its closing quote, so the list after
it is lost. -/
theorem splitParameters_escaped_backslash :
    let q : CodePoint := .char '\x27'
    let body : Text := text "\\\\"
    LiteralBody q body ∧ IsIdentifier (text "a") ∧ IsIdentifier (text "b") ∧
      text "f(" ++ withDefault (text "a") q body ++ text ", " ++ text "b" ++ text ")" =
        text "f(a = '\\\\', b)" ∧
      splitParameters (text "f(a = '\\\\', b)") = none ∧
      splitParameters (text "f(a = '\\\\', b)") ≠
        some [withDefault (text "a") q body, text " " ++ text "b"] := by
  have hsplit : splitParameters (text "f(a = '\\\\', b)") = none := by decide
  exact ⟨.escaped .nil, ⟨_, _, rfl, rfl, by decide⟩, ⟨_, _, rfl, rfl, by decide⟩, by decide, hsplit,
    by simp [hsplit]⟩

end CommentTags
