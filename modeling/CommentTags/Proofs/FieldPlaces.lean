import Mathlib.Data.List.Induction
import CommentTags.Proofs.Fields

/-!
Where the fields of a text stand. Every field that is found is written out in the text, from left to
right and without overlap, and no field is missed but those that begin within another. A key is the
whole of an identifier; the scan does not ask what else stands in front of it, so a word that begins
with a digit or a letter outside of ASCII is cut at its first ASCII letter. Nor does it ask what
stands in front of the opening quote of a key.
-/

namespace CommentTags

/-- A field at a position of a text. -/
structure Occurrence where
  place : Nat
  field : WrittenField

namespace Occurrence

/-- The position behind the value. -/
def finish (o : Occurrence) : Nat := o.place + o.field.spelling.length

/-- The position of the key. -/
def keyPlace (o : Occurrence) : Nat := o.place + o.field.quote.toList.length

/-- The same field further on. -/
def later (n : Nat) (o : Occurrence) : Occurrence := { o with place := n + o.place }

@[simp]
theorem place_later (n : Nat) (o : Occurrence) : (o.later n).place = n + o.place := rfl

@[simp]
theorem field_later (n : Nat) (o : Occurrence) : (o.later n).field = o.field := rfl

@[simp]
theorem finish_later (n : Nat) (o : Occurrence) : (o.later n).finish = n + o.finish :=
  Nat.add_assoc ..

@[simp]
theorem keyPlace_later (n : Nat) (o : Occurrence) : (o.later n).keyPlace = n + o.keyPlace :=
  Nat.add_assoc ..

end Occurrence

/-- What the scan finds in a text: fields that are written there one after the other, with no
identifier right in front of a key. A field that begins anywhere begins within one of them. -/
structure Occurrences (t : Text) (os : List Occurrence) : Prop where
  leads : ∀ o ∈ os, ∃ rest, o.field.Leads (t.drop o.place) rest
  ordered : os.Pairwise fun o p => o.finish < p.place
  whole : ∀ o ∈ os, ∀ u, u <:+ t.take o.keyPlace → ¬ IsIdentifier u
  covered : ∀ i (f : WrittenField) rest, f.Leads (t.drop i) rest →
    ∃ o ∈ os, o.place ≤ i ∧ i < o.finish

/-! One step of the scan. -/

theorem WrittenField.Leads.exists_cons {f : WrittenField} {t rest : Text} (h : f.Leads t rest) :
    ∃ c r, t = c :: r ∧ c.beginsKey := by
  obtain ⟨blanks, rfl, -, -⟩ := h
  obtain ⟨c, r, hspelling, hc⟩ := f.exists_spelling_eq_cons
  exact ⟨c, r ++ (blanks ++ rest), by simp [hspelling], hc⟩

theorem occurrences_nil : Occurrences [] [] where
  leads := by simp
  ordered := .nil
  whole := by simp
  covered i f rest h := by
    obtain ⟨c, r, hnil, -⟩ := h.exists_cons
    simp at hnil

/-- An identifier may be put in front of a bare key. -/
theorem WrittenField.Leads.lengthen {f : WrittenField} {t rest u : Text} (h : f.Leads t rest)
    (hquote : f.quote = none) (hu : IsIdentifier u) :
    ∃ g : WrittenField, g.Leads (u ++ t) rest := by
  obtain ⟨blanks, rfl, hblanks, hrest⟩ := h
  refine ⟨{ f with key := u ++ f.key
                   key_identifier := hu.append f.key_identifier.isIdentifierPart },
    blanks, ?_, hblanks, hrest⟩
  simp [WrittenField.spelling, WrittenField.behindKey, hquote]

/-- Nothing that is no part of an identifier is right in front of one. -/
theorem suffix_of_isIdentifier {u v w : Text} {d : CodePoint} (hd : d.isIdentifierPart = false)
    (hu : IsIdentifier u) (h : u <:+ v ++ d :: w) : u <:+ d :: w := by
  rcases List.suffix_or_suffix_of_suffix h (List.suffix_append v (d :: w)) with h | h
  · exact h
  · have := hu.isIdentifierPart d (h.subset List.mem_cons_self)
    simp [hd] at this

/-- A quoted key has its quote in front of it. -/
theorem Occurrence.quote_mem_take {o : Occurrence} {t rest : Text} {q : CodePoint}
    (h : o.field.Leads (t.drop o.place) rest) (hquote : o.field.quote = some q) :
    q ∈ t.take o.keyPlace := by
  obtain ⟨blanks, ht, -, -⟩ := h
  rw [keyPlace, List.take_add, ht]
  simp [WrittenField.spelling, hquote]

/-- The text up to a key is no identifier if no field begins with it. -/
theorem Occurrence.not_isIdentifier_take {o : Occurrence} {t rest : Text} {c : CodePoint}
    (h : o.field.Leads (t.drop o.place) rest) (hnone : cutField (c :: t) = none) :
    ¬ IsIdentifier (c :: t.take o.keyPlace) := by
  intro hident
  cases hquote : o.field.quote with
  | some q =>
    have hpart := hident.isIdentifierPart q
      (List.mem_cons_of_mem c (quote_mem_take h hquote))
    have hmark := o.field.quote_mark q hquote
    simp [CodePoint.isQuoteMark_of_isIdentifierPart hpart] at hmark
  | none =>
    have hplace : o.keyPlace = o.place := by simp [keyPlace, hquote]
    rw [hplace] at hident
    obtain ⟨g, hg⟩ := h.lengthen hquote hident
    rw [List.cons_append, List.take_append_drop] at hg
    exact cutField_eq_none.mp hnone g rest hg

/-- **Step.** Nothing is found at the first code point. -/
theorem Occurrences.skip {t : Text} {os : List Occurrence} (h : Occurrences t os) {c : CodePoint}
    (hnone : cutField (c :: t) = none) : Occurrences (c :: t) (os.map (·.later 1)) where
  leads := by
    refine List.forall_mem_map.mpr fun o ho => ?_
    simpa [Nat.add_comm 1] using h.leads o ho
  ordered := by
    refine List.pairwise_map.mpr (h.ordered.imp fun hlt => ?_)
    simpa using hlt
  whole := by
    refine List.forall_mem_map.mpr fun o ho u hsuffix hu => ?_
    rw [Occurrence.keyPlace_later, Nat.add_comm, List.take_succ_cons,
      List.suffix_cons_iff] at hsuffix
    rcases hsuffix with rfl | hsuffix
    · obtain ⟨rest, hleads⟩ := h.leads o ho
      exact Occurrence.not_isIdentifier_take hleads hnone hu
    · exact h.whole o ho u hsuffix hu
  covered i f rest hleads := by
    cases i with
    | zero => exact absurd hleads (cutField_eq_none.mp hnone f rest)
    | succ i =>
      obtain ⟨o, ho, hplace, hfinish⟩ := h.covered i f rest hleads
      exact ⟨o.later 1, List.mem_map_of_mem ho, by simp; omega, by simp; omega⟩

/-- A field does not begin where the value in front of it ends. -/
theorem Occurrences.place_pos {t : Text} {os : List Occurrence} (h : Occurrences t os)
    (hends : ∀ c ∈ t.head?, c.endsValue) : ∀ o ∈ os, 0 < o.place := by
  intro o ho
  rcases Nat.eq_zero_or_pos o.place with hzero | hpos
  · obtain ⟨rest, hleads⟩ := h.leads o ho
    rw [hzero, List.drop_zero] at hleads
    obtain ⟨c, r, rfl, hc⟩ := hleads.exists_cons
    simp [CodePoint.beginsKey_of_endsValue (hends c rfl)] at hc
  · exact hpos

/-- **Step.** A field is found, and the scan goes on behind it. -/
theorem Occurrences.found {rest : Text} {os : List Occurrence} (h : Occurrences rest os)
    (f : WrittenField) {blanks : Text} (hblanks : ∀ c ∈ blanks, c.isBlank ∧ c.endsValue = false)
    (hrest : ∀ c ∈ rest.head?, c.endsValue) :
    Occurrences (f.spelling ++ blanks ++ rest)
      (⟨0, f⟩ :: os.map (·.later (f.spelling ++ blanks).length)) where
  leads := by
    refine List.forall_mem_cons.mpr ⟨⟨rest, blanks, rfl, hblanks, hrest⟩, ?_⟩
    refine List.forall_mem_map.mpr fun o ho => ?_
    rw [Occurrence.place_later, List.drop_length_add_append]
    exact h.leads o ho
  ordered := by
    refine List.pairwise_cons.mpr ⟨List.forall_mem_map.mpr fun o ho => ?_, ?_⟩
    · have hpos := h.place_pos hrest o ho
      simp only [Occurrence.finish, Occurrence.place_later, List.length_append]
      omega
    · refine List.pairwise_map.mpr (h.ordered.imp fun hlt => ?_)
      simpa using hlt
  whole := by
    refine List.forall_mem_cons.mpr ⟨fun u hsuffix hu => ?_, ?_⟩
    · -- in front of the first key there is nothing but its quote
      have hfront : (f.spelling ++ blanks ++ rest).take (Occurrence.keyPlace ⟨0, f⟩) =
          f.quote.toList := by
        simp [Occurrence.keyPlace, WrittenField.spelling]
      rw [hfront] at hsuffix
      obtain ⟨c, r, rfl, hc, -⟩ := hu
      have hmark := f.quote_mark c (Option.mem_toList.mp (hsuffix.subset List.mem_cons_self))
      simp [CodePoint.isQuoteMark_of_isIdentifierPart
        (CodePoint.isIdentifierPart_of_isIdentifierStart hc)] at hmark
    · refine List.forall_mem_map.mpr fun o ho u hsuffix hu => ?_
      rw [Occurrence.keyPlace_later, List.take_length_add_append] at hsuffix
      -- what ended the value stands between it and the key
      have hpos : 0 < o.keyPlace :=
        Nat.lt_of_lt_of_le (h.place_pos hrest o ho) (Nat.le_add_right _ _)
      obtain ⟨k, hk⟩ : ∃ k, o.keyPlace = k + 1 := ⟨o.keyPlace - 1, by omega⟩
      refine h.whole o ho u ?_ hu
      cases rest with
      | nil =>
        obtain ⟨r, hleads⟩ := h.leads o ho
        obtain ⟨c, r, hnil, -⟩ := hleads.exists_cons
        simp at hnil
      | cons d rest =>
        have hd := CodePoint.isIdentifierPart_of_mem_fieldSigns
          (CodePoint.mem_fieldSigns_of_endsValue (hrest d rfl))
        rw [hk, List.take_succ_cons] at hsuffix ⊢
        exact suffix_of_isIdentifier hd hu hsuffix
  covered i g r hleads := by
    rcases Nat.lt_or_ge i f.spelling.length with hin | hbehind
    · exact ⟨⟨0, f⟩, List.mem_cons_self, Nat.zero_le i, by simpa [Occurrence.finish] using hin⟩
    · rcases Nat.lt_or_ge i (f.spelling ++ blanks).length with hblank | hlater
      · -- blanks begin no field
        obtain ⟨j, rfl⟩ := Nat.exists_eq_add_of_le hbehind
        have hj : j < blanks.length := by
          rw [List.length_append] at hblank
          omega
        obtain ⟨c, r', hdrop, hc⟩ := hleads.exists_cons
        rw [List.append_assoc, List.drop_length_add_append,
          List.drop_append_of_le_length (Nat.le_of_lt hj), List.drop_eq_getElem_cons hj,
          List.cons_append, List.cons.injEq] at hdrop
        have hmem : c ∈ blanks := hdrop.1 ▸ List.getElem_mem hj
        simp [CodePoint.beginsKey_of_isBlank (hblanks c hmem).1] at hc
      · obtain ⟨j, rfl⟩ := Nat.exists_eq_add_of_le hlater
        rw [List.drop_length_add_append] at hleads
        obtain ⟨o, ho, hplace, hfinish⟩ := h.covered j g r hleads
        refine ⟨o.later _, List.mem_cons_of_mem _ (List.mem_map_of_mem ho), ?_, ?_⟩
        · rw [Occurrence.place_later]
          omega
        · rw [Occurrence.finish_later]
          omega

/-- **Run.** -/
theorem exists_occurrences (t : Text) :
    ∃ os, Occurrences t os ∧ fields t = os.map (·.field.entry) := by
  fun_induction fields t with
  | case1 t e rest hcut ih =>
    obtain ⟨os, hos, hfields⟩ := ih
    obtain ⟨f, ⟨blanks, rfl, hblanks, hrest⟩, rfl⟩ := exists_leads_of_cutField hcut
    refine ⟨_, hos.found f hblanks hrest, ?_⟩
    rw [hfields, List.map_cons, List.map_map]
    rfl
  | case2 => exact ⟨[], occurrences_nil, rfl⟩
  | case3 c t hcut ih =>
    obtain ⟨os, hos, hfields⟩ := ih
    refine ⟨_, hos.skip hcut, ?_⟩
    rw [hfields, List.map_map]
    rfl

/-! Whole keys. -/

/-- The key ends where it is reported to end. -/
theorem Occurrence.head_behind_key {o : Occurrence} {t rest : Text}
    (h : o.field.Leads (t.drop o.place) rest) :
    ∀ c ∈ (t.drop (o.keyPlace + o.field.key.length)).head?, c.isIdentifierPart = false := by
  obtain ⟨blanks, ht, -, -⟩ := h
  have hbehind : t.drop (o.keyPlace + o.field.key.length) =
      o.field.quote.toList ++ (o.field.behindKey ++ (blanks ++ rest)) := by
    have hsplit : o.field.spelling ++ blanks ++ rest = (o.field.quote.toList ++ o.field.key) ++
        (o.field.quote.toList ++ (o.field.behindKey ++ (blanks ++ rest))) := by
      simp [WrittenField.spelling]
    rw [keyPlace, Nat.add_assoc, ← List.drop_drop, ht, hsplit, ← List.length_append, List.drop_left]
  rw [hbehind]
  exact o.field.head_behindKey _

/-- Every word of the text begins as an identifier does: an identifier character that begins no
identifier has another one right in front of it. -/
def WordsAreIdentifiers (t : Text) : Prop :=
  ∀ v c w, t = v ++ c :: w → c.isIdentifierPart → c.isIdentifierStart = false →
    ∃ d ∈ v.getLast?, d.isIdentifierPart

/-- A run of identifier characters in front of a position goes back to an identifier. -/
theorem WordsAreIdentifiers.exists_suffix {t : Text} (h : WordsAreIdentifiers t) {v w r : Text}
    (ht : t = v ++ w ++ r) (hne : w ≠ []) (hw : ∀ c ∈ w, c.isIdentifierPart) :
    ∃ u, u <:+ v ++ w ∧ IsIdentifier u := by
  induction v using List.reverseRecOn generalizing w with
  | nil =>
    obtain ⟨c, w, rfl⟩ := List.exists_cons_of_ne_nil hne
    obtain ⟨hc, hw⟩ := List.forall_mem_cons.mp hw
    cases hstart : c.isIdentifierStart with
    | true => exact ⟨c :: w, List.suffix_refl _, c, w, rfl, hstart, hw⟩
    | false =>
      obtain ⟨d, hd, -⟩ := h [] c (w ++ r) (by simpa using ht) hc hstart
      simp at hd
  | append_singleton v x ih =>
    obtain ⟨c, w, rfl⟩ := List.exists_cons_of_ne_nil hne
    obtain ⟨hc, hw'⟩ := List.forall_mem_cons.mp hw
    cases hstart : c.isIdentifierStart with
    | true => exact ⟨c :: w, List.suffix_append _ _, c, w, rfl, hstart, hw'⟩
    | false =>
      obtain ⟨d, hd, hpart⟩ := h (v ++ [x]) c (w ++ r) (by simpa using ht) hc hstart
      obtain rfl : x = d := by simpa using hd
      have := ih (w := x :: c :: w) (by simpa using ht) (by simp)
        (List.forall_mem_cons.mpr ⟨hpart, hw⟩)
      simpa using this

/-- An identifier character right in front of a position ends an identifier. -/
theorem WordsAreIdentifiers.exists_suffix_take {t : Text} (h : WordsAreIdentifiers t) {i : Nat}
    {c : CodePoint} (hc : c ∈ (t.take i).getLast?) (hpart : c.isIdentifierPart) :
    ∃ u, u <:+ t.take i ∧ IsIdentifier u := by
  obtain ⟨v, hv⟩ := List.getLast?_eq_some_iff.mp hc
  have ht : t = v ++ [c] ++ t.drop i := by rw [← hv, List.take_append_drop]
  rw [hv]
  exact h.exists_suffix ht (by simp) (by simpa using hpart)

/-- The fields of a text are written in it one after the other. No identifier is right in front of a
key or goes on behind it; so where every word of the text begins as an identifier does, no
identifier character stands on either side of a key. In front of the whole field one can stand only
if the field begins with a quote. Wherever a field is written, one is found. -/
theorem fields_occur (t : Text) :
    ∃ os : List Occurrence,
      fields t = os.map (fun o => ⟨o.field.key, o.field.value⟩) ∧
      os.Pairwise (fun o p => o.finish < p.place) ∧
      (∀ o ∈ os, o.field.spelling <+: t.drop o.place ∧
        (∀ u, u <:+ t.take o.keyPlace → ¬ IsIdentifier u) ∧
        (∀ u, u <:+ t.take o.place → IsIdentifier u → o.field.quote.isSome) ∧
        (WordsAreIdentifiers t →
          (∀ c ∈ (t.take o.keyPlace).getLast?, c.isIdentifierPart = false) ∧
          ∀ c ∈ (t.take o.place).getLast?, c.isIdentifierPart → o.field.quote.isSome) ∧
        ∀ c ∈ (t.drop (o.keyPlace + o.field.key.length)).head?, c.isIdentifierPart = false) ∧
      ∀ i (f : WrittenField) rest, f.Leads (t.drop i) rest →
        ∃ o ∈ os, o.place ≤ i ∧ i < o.finish := by
  obtain ⟨os, hos, hfields⟩ := exists_occurrences t
  refine ⟨os, hfields, hos.ordered, fun o ho => ?_, hos.covered⟩
  obtain ⟨rest, hleads⟩ := hos.leads o ho
  -- a bare key is where the field is
  have hquoted : ∀ u, u <:+ t.take o.place → IsIdentifier u → o.field.quote.isSome := by
    intro u hu hident
    cases hquote : o.field.quote with
    | some q => rfl
    | none =>
      have hplace : o.keyPlace = o.place := by simp [Occurrence.keyPlace, hquote]
      exact absurd hident (hos.whole o ho u (hplace ▸ hu))
  refine ⟨?_, hos.whole o ho, hquoted, fun hwords => ⟨fun c hc => ?_, fun c hc hpart => ?_⟩,
    Occurrence.head_behind_key hleads⟩
  · obtain ⟨blanks, ht, -, -⟩ := hleads
    exact ⟨blanks ++ rest, by rw [ht, List.append_assoc]⟩
  · cases hpart : c.isIdentifierPart with
    | false => rfl
    | true =>
      obtain ⟨u, hu, hident⟩ := hwords.exists_suffix_take hc hpart
      exact absurd hident (hos.whole o ho u hu)
  · obtain ⟨u, hu, hident⟩ := hwords.exists_suffix_take hc hpart
    exact hquoted u hu hident

/-- What is behind a bare key begins with no quote. -/
theorem WrittenField.isQuoteMark_head_behindKey (f : WrittenField) (rest : Text) :
    ∀ c ∈ (f.behindKey ++ rest).head?, c.isQuoteMark = false := by
  intro c hc
  unfold behindKey markOf at hc
  cases hoptional : f.optional with
  | true =>
    obtain rfl : .char '?' = c := by simpa [hoptional] using hc
    decide
  | false =>
    cases hgap : f.gap with
    | nil =>
      obtain rfl : .char ':' = c := by simpa [hoptional, hgap] using hc
      decide
    | cons d gap =>
      obtain rfl : d = c := by simpa [hoptional, hgap] using hc
      have hblank := f.gap_blank d (by simp [hgap])
      cases hmark : d.isQuoteMark with
      | false => rfl
      | true =>
        have hcases : d = .char '\x27' ∨ d = .char '\x22' := by
          simpa [CodePoint.isQuoteMark] using hmark
        rcases hcases with rfl | rfl <;> cases hblank

/-- A key is read off the text at its position. -/
theorem Occurrence.drop_keyPlace {o : Occurrence} {t : Text}
    (h : o.field.spelling <+: t.drop o.place) :
    ∃ rest, t.drop o.keyPlace =
      o.field.key ++ (o.field.quote.toList ++ (o.field.behindKey ++ rest)) := by
  obtain ⟨rest, hrest⟩ := h
  refine ⟨rest, ?_⟩
  rw [keyPlace, ← List.drop_drop, ← hrest]
  simp [WrittenField.spelling]

/-- The fields of a text are written in it one after the other, with no identifier character right
in front of a field or right behind its key. -/
def FieldsStandApart (t : Text) : Prop :=
  ∃ os : List Occurrence,
    fields t = os.map (fun o => ⟨o.field.key, o.field.value⟩) ∧
    os.Pairwise (fun o p => o.finish < p.place) ∧
    ∀ o ∈ os, o.field.spelling <+: t.drop o.place ∧
      (∀ c ∈ (t.take o.place).getLast?, c.isIdentifierPart = false) ∧
      ∀ c ∈ (t.drop (o.keyPlace + o.field.key.length)).head?, c.isIdentifierPart = false

/-- The one field of a text, if its key begins with a letter that is in the text once. -/
theorem FieldsStandApart.exists_occurrence {t : Text} (h : FieldsStandApart t) {e : Entry}
    (hfields : fields t = [e]) {c : CodePoint} (hc : e.name.head? = some c) {i : Nat}
    (hi : ∀ j < t.length, (t.drop j).head? = some c → j = i) :
    ∃ o : Occurrence, o.field.spelling <+: t.drop o.place ∧ o.keyPlace = i ∧
      o.field.key = e.name ∧ ∀ c ∈ (t.take o.place).getLast?, c.isIdentifierPart = false := by
  obtain ⟨os, hentries, -, hall⟩ := h
  rw [hfields] at hentries
  obtain ⟨o, rfl, rfl⟩ := List.map_eq_singleton_iff.mp hentries.symm
  obtain ⟨hspelled, hbefore, -⟩ := hall o List.mem_cons_self
  obtain ⟨rest, hdrop⟩ := Occurrence.drop_keyPlace hspelled
  have hhead : (t.drop o.keyPlace).head? = some c := by
    rw [hdrop, List.head?_append, hc]
    rfl
  have hlt : o.keyPlace < t.length := by
    rcases Nat.lt_or_ge o.keyPlace t.length with hlt | hge
    · exact hlt
    · rw [List.drop_eq_nil_of_le hge] at hhead
      cases hhead
  exact ⟨o, hspelled, hi _ hlt hhead, rfl, hbefore⟩

/-- A key that begins with a letter outside of ASCII is cut, so that an identifier character is
right in front of the field that is found. So it is with a quoted key right behind a word. -/
theorem fields_cut_key :
    let cut := text "\x7b éa: 1 \x7d"
    let quoted := text "\x7b x'a': 1 \x7d"
    (fields cut = [⟨text "a", text "1"⟩] ∧ ¬ FieldsStandApart cut) ∧
      fields quoted = [⟨text "a", text "1"⟩] ∧ ¬ FieldsStandApart quoted := by
  intro cut quoted
  have hcut : fields cut = [⟨text "a", text "1"⟩] := by decide +kernel
  have hquoted : fields quoted = [⟨text "a", text "1"⟩] := by decide +kernel
  refine ⟨⟨hcut, fun h => ?_⟩, hquoted, fun h => ?_⟩
  · obtain ⟨o, hspelled, hplace, -, hbefore⟩ := h.exists_occurrence hcut rfl (i := 3) (by decide)
    cases hquote : o.field.quote with
    | some q =>
      -- the text has no quotes
      have hnone : ∀ c ∈ cut, c.isQuoteMark = false := by decide
      have hmem : q ∈ o.field.spelling := by simp [WrittenField.spelling, hquote]
      have hmark := o.field.quote_mark q hquote
      simp [hnone q (List.mem_of_mem_drop (hspelled.subset hmem))] at hmark
    | none =>
      have hplace : o.place = 3 := by simpa [Occurrence.keyPlace, hquote] using hplace
      rw [hplace] at hbefore
      have hletter := hbefore (.char 'é') (by decide)
      revert hletter
      decide +kernel
  · obtain ⟨o, hspelled, hplace, hkey, hbefore⟩ :=
      h.exists_occurrence hquoted rfl (i := 4) (by decide)
    cases hquote : o.field.quote with
    | some q =>
      have hplace : o.place = 3 := by simpa [Occurrence.keyPlace, hquote] using hplace
      rw [hplace] at hbefore
      have hletter := hbefore (.char 'x') (by decide)
      revert hletter
      decide +kernel
    | none =>
      -- a quote is right behind the letter
      obtain ⟨rest, hdrop⟩ := Occurrence.drop_keyPlace hspelled
      rw [hplace, hquote, hkey] at hdrop
      have hnext : quoted.drop 5 = o.field.behindKey ++ rest := (List.cons.inj hdrop).2
      have hmark := o.field.isQuoteMark_head_behindKey rest (.char '\x27') (by rw [← hnext]; rfl)
      revert hmark
      decide

end CommentTags
