import CommentTags.Proofs.Scanning
import CommentTags.Proofs.TokenInvariants

/-!
The field at the beginning of a text, and the scan for fields. A field is cut off exactly where one
is written out in full, up to something that ends its value. No field goes across a comma, a
semicolon or a brace, so the fields of a text are those of the pieces between them.
-/

namespace CommentTags

/-! Classes of code points. -/

namespace CodePoint

/-- The code points other than identifiers and blanks that a field gives a meaning of its own. -/
def fieldSigns : Text := text "'\"?:,;\n\x7b\x7d"

theorem mem_fieldSigns_of_isQuoteMark {c : CodePoint} (h : c.isQuoteMark) : c ∈ fieldSigns := by
  have hcases : c = .char '\x27' ∨ c = .char '\x22' := by simpa [isQuoteMark] using h
  rcases hcases with rfl | rfl <;> decide

theorem mem_fieldSigns_of_endsValue {c : CodePoint} (h : c.endsValue) : c ∈ fieldSigns := by
  have hcases : (((c = .char ',' ∨ c = .char ';') ∨ c = .char '\n') ∨ c = .char '{') ∨
      c = .char '}' := by simpa [endsValue] using h
  rcases hcases with (((rfl | rfl) | rfl) | rfl) | rfl <;> decide

theorem isIdentifierPart_of_isIdentifierStart {c : CodePoint} (h : c.isIdentifierStart) :
    c.isIdentifierPart := by
  cases c with
  | half k => cases h
  | char c =>
    have hcases : (c.isAlpha ∨ c = '_') ∨ c = '$' := by simpa [isIdentifierStart] using h
    rcases hcases with (halpha | rfl) | rfl
    · have hlow : c.toNat < 0x80 := by
        unfold Char.isAlpha Char.isUpper Char.isLower at halpha
        simp only [Bool.or_eq_true, Bool.and_eq_true, decide_eq_true_eq,
          UInt32.le_iff_toNat_le] at halpha
        have hvalue : c.val.toNat = c.toNat := rfl
        rw [hvalue] at halpha
        change _ ∧ c.toNat ≤ 90 ∨ _ ∧ c.toNat ≤ 122 at halpha
        omega
      simp [isIdentifierPart, isWord, isAlphanumeric, hlow, Char.isAlphanum, halpha]
    · decide
    · decide

theorem isIdentifierPart_of_mem_fieldSigns {c : CodePoint} (h : c ∈ fieldSigns) :
    c.isIdentifierPart = false := by
  have hsigns : ∀ c ∈ fieldSigns, c.isIdentifierPart = false := by decide +kernel
  exact hsigns c h

theorem isIdentifierPart_of_isBlank {c : CodePoint} (h : c.isBlank) :
    c.isIdentifierPart = false := by
  have hne : c ≠ .char '$' := ne_of_isBlank h rfl
  simp [isIdentifierPart, isWord_of_isBlank h, hne]

theorem isQuoteMark_of_isIdentifierPart {c : CodePoint} (h : c.isIdentifierPart) :
    c.isQuoteMark = false := by
  cases hq : c.isQuoteMark with
  | false => rfl
  | true => simp [isIdentifierPart_of_mem_fieldSigns (mem_fieldSigns_of_isQuoteMark hq)] at h

end CodePoint

theorem IsIdentifier.isIdentifierPart {t : Text} (h : IsIdentifier t) :
    ∀ c ∈ t, c.isIdentifierPart := by
  obtain ⟨c, r, rfl, hc, hr⟩ := h
  exact List.forall_mem_cons.mpr ⟨CodePoint.isIdentifierPart_of_isIdentifierStart hc, hr⟩

theorem IsIdentifier.append {t u : Text} (ht : IsIdentifier t) (hu : ∀ c ∈ u, c.isIdentifierPart) :
    IsIdentifier (t ++ u) := by
  obtain ⟨c, r, rfl, hc, hr⟩ := ht
  refine ⟨c, r ++ u, rfl, hc, fun d hd => ?_⟩
  rcases List.mem_append.mp hd with hd | hd
  · exact hr d hd
  · exact hu d hd

/-! Fields as they are written. -/

/-- A field as it is written: the key, bare or between two equal quotes, perhaps a question mark, a
colon with blanks around it, and the value. -/
structure WrittenField where
  quote : Option CodePoint := none
  key : Text
  optional : Bool := false
  /-- The blanks before the colon. -/
  gap : Text := []
  /-- The blanks after the colon. -/
  margin : Text := [.char ' ']
  value : Text
  quote_mark : ∀ q ∈ quote, q.isQuoteMark
  key_identifier : IsIdentifier key
  gap_blank : ∀ c ∈ gap, c.isBlank
  margin_blank : ∀ c ∈ margin, c.isBlank
  value_ne_nil : value ≠ []
  value_trimmed : value.Trimmed
  value_goes_on : ∀ c ∈ value, c.endsValue = false

namespace WrittenField

/-- A question mark, if the field is optional. -/
def markOf (optional : Bool) : Text := if optional then [.char '?'] else []

/-- What stands behind the key and its quotes. -/
def behindKey (f : WrittenField) : Text :=
  markOf f.optional ++ f.gap ++ .char ':' :: (f.margin ++ f.value)

def spelling (f : WrittenField) : Text :=
  f.quote.toList ++ f.key ++ f.quote.toList ++ f.behindKey

def entry (f : WrittenField) : Entry := ⟨f.key, f.value⟩

/-- The text begins with the field and goes on with `rest`, perhaps after more blanks. Something
that ends a value is next, or nothing. -/
def Leads (f : WrittenField) (t rest : Text) : Prop :=
  ∃ blanks, t = f.spelling ++ blanks ++ rest ∧
    (∀ c ∈ blanks, c.isBlank ∧ c.endsValue = false) ∧ ∀ c ∈ rest.head?, c.endsValue

end WrittenField

/-! The field at the beginning of a text. -/

theorem cutIdentifier_eq_some {t name rest : Text} :
    cutIdentifier t = some (name, rest) ↔
      IsIdentifier name ∧ (∀ c ∈ rest.head?, c.isIdentifierPart = false) ∧ t = name ++ rest := by
  constructor
  · intro h
    have hname := isIdentifier_of_cutIdentifier h
    cases t with
    | nil => cases h
    | cons c r =>
      simp only [cutIdentifier] at h
      split at h
      · cases h
        refine ⟨hname, head_dropWhile _ _, ?_⟩
        rw [List.cons_append, List.takeWhile_append_dropWhile]
      · cases h
  · rintro ⟨⟨c, r, rfl, hc, hr⟩, hrest, rfl⟩
    rw [List.cons_append, cutIdentifier, if_pos hc, takeWhile_append_of_head hr hrest,
      dropWhile_append_of_head hr hrest]

theorem cutKey_eq_some {t key rest : Text} :
    cutKey t = some (key, rest) ↔
      ∃ quote : Option CodePoint, (∀ q ∈ quote, q.isQuoteMark) ∧ IsIdentifier key ∧
        (∀ c ∈ (quote.toList ++ rest).head?, c.isIdentifierPart = false) ∧
        t = quote.toList ++ key ++ quote.toList ++ rest := by
  constructor
  · intro h
    cases t with
    | nil => cases h
    | cons q r =>
      simp only [cutKey] at h
      split at h
      · rename_i hq
        split at h
        · rename_i key' q' rest' hcut
          split at h
          · rename_i heq
            cases h
            obtain ⟨hkey, hrest, rfl⟩ := cutIdentifier_eq_some.mp hcut
            refine ⟨some q, by simpa using hq, hkey, ?_, ?_⟩
            · simpa [heq] using hrest
            · simp [heq]
          · cases h
        · cases h
      · obtain ⟨hkey, hrest, ht⟩ := cutIdentifier_eq_some.mp h
        exact ⟨none, by simp, hkey, by simpa using hrest, by simpa using ht⟩
  · rintro ⟨quote, hquote, hkey, hrest, rfl⟩
    have hcut := cutIdentifier_eq_some.mpr ⟨hkey, hrest, rfl⟩
    cases quote with
    | none =>
      obtain ⟨c, r, rfl, hc, hr⟩ := hkey
      have hq : c.isQuoteMark = false := CodePoint.isQuoteMark_of_isIdentifierPart
        (CodePoint.isIdentifierPart_of_isIdentifierStart hc)
      simpa [cutKey, hq] using hcut
    | some q =>
      have hq : q.isQuoteMark := hquote q rfl
      simp only [Option.toList_some, List.cons_append, List.nil_append, List.append_assoc] at hcut ⊢
      simp [cutKey, hq, hcut]

/-- Blanks, a colon and blanks. -/
theorem trimLeft_eq_colon {t v : Text} :
    Text.trimLeft t = .char ':' :: v ↔
      ∃ gap, (∀ c ∈ gap, c.isBlank) ∧ t = gap ++ .char ':' :: v := by
  constructor
  · intro h
    refine ⟨t.takeWhile CodePoint.isBlank, fun c hc => List.mem_takeWhile_imp hc, ?_⟩
    rw [← h, Text.trimLeft, List.takeWhile_append_dropWhile]
  · rintro ⟨gap, hgap, rfl⟩
    exact dropWhile_append_of_head hgap (by simp [CodePoint.isBlank])

/-- Where no question mark is first, the blanks before the colon are. -/
theorem afterColon_of_head {t : Text} (ht : t.head? ≠ some (.char '?')) :
    afterColon t = afterColon (.char '?' :: t) := by
  unfold afterColon
  split
  · simp at ht
  · rfl

theorem afterColon_question {gap margin value : Text} (hgap : ∀ c ∈ gap, c.isBlank)
    (hmargin : ∀ c ∈ margin, c.isBlank) (hvalue : ∀ c ∈ value.head?, c.isBlank = false) :
    afterColon (.char '?' :: (gap ++ .char ':' :: (margin ++ value))) = some value := by
  have hcolon : Text.trimLeft (gap ++ .char ':' :: (margin ++ value)) =
      .char ':' :: (margin ++ value) := trimLeft_eq_colon.mpr ⟨gap, hgap, rfl⟩
  have hvalue' : Text.trimLeft (margin ++ value) = value := dropWhile_append_of_head hmargin hvalue
  simp only [afterColon, hcolon, hvalue']

theorem afterColon_eq_some {t value : Text} :
    afterColon t = some value ↔
      ∃ optional gap margin, (∀ c ∈ gap, c.isBlank) ∧ (∀ c ∈ margin, c.isBlank) ∧
        (∀ c ∈ value.head?, c.isBlank = false) ∧
        t = WrittenField.markOf optional ++ gap ++ .char ':' :: (margin ++ value) := by
  constructor
  · intro h
    have hvalue := head_afterColon h
    unfold afterColon at h
    dsimp only at h
    split at h
    · rename_i v hv
      cases h
      have hmargin : v = v.takeWhile CodePoint.isBlank ++ Text.trimLeft v :=
        List.takeWhile_append_dropWhile.symm
      split at hv
      · obtain ⟨gap, hgap, rfl⟩ := trimLeft_eq_colon.mp hv
        exact ⟨true, gap, _, hgap, fun c hc => List.mem_takeWhile_imp hc, hvalue,
          by rw [← hmargin]; rfl⟩
      · obtain ⟨gap, hgap, rfl⟩ := trimLeft_eq_colon.mp hv
        exact ⟨false, gap, _, hgap, fun c hc => List.mem_takeWhile_imp hc, hvalue,
          by rw [← hmargin]; rfl⟩
    · cases h
  · rintro ⟨optional, gap, margin, hgap, hmargin, hvalue, rfl⟩
    have hquestion := afterColon_question hgap hmargin hvalue
    cases optional with
    | true => exact hquestion
    | false =>
      have hhead : (gap ++ .char ':' :: (margin ++ value)).head? ≠ some (.char '?') := by
        cases gap with
        | nil => simp
        | cons b gap => simpa using CodePoint.ne_of_isBlank (hgap b List.mem_cons_self) rfl
      exact (afterColon_of_head hhead).trans hquestion

/-- A text that begins with no blank is what is left of it when it is trimmed, and blanks. -/
theorem exists_trim_append {t : Text} (ht : ∀ c ∈ t.head?, c.isBlank = false) :
    ∃ blanks, t = t.trim ++ blanks ∧ ∀ c ∈ blanks, c.isBlank := by
  refine ⟨(t.reverse.takeWhile CodePoint.isBlank).reverse, ?_, fun c hc => ?_⟩
  · rw [Text.trim, Text.trimLeft_of_head ht, ← List.reverse_append, Text.trimLeft,
      List.takeWhile_append_dropWhile, List.reverse_reverse]
  · exact List.mem_takeWhile_imp (List.mem_reverse.mp hc)

theorem trim_append_blanks {t blanks : Text} (hne : t ≠ []) (ht : t.Trimmed)
    (hblanks : ∀ c ∈ blanks, c.isBlank) : Text.trim (t ++ blanks) = t := by
  obtain ⟨c, r, rfl⟩ := List.exists_cons_of_ne_nil hne
  have hleft : Text.trimLeft (c :: r ++ blanks) = c :: r ++ blanks :=
    Text.trimLeft_of_head (by simpa using ht.head)
  have hright : Text.trimLeft (blanks.reverse ++ (c :: r).reverse) = (c :: r).reverse :=
    dropWhile_append_of_head (by simpa using hblanks) ht.reverse.head
  rw [Text.trim, hleft, List.reverse_append, hright, List.reverse_reverse]

/-- The key ends where it is written to end. -/
theorem WrittenField.head_behindKey (f : WrittenField) (t : Text) :
    ∀ c ∈ (f.quote.toList ++ (f.behindKey ++ t)).head?, c.isIdentifierPart = false := by
  intro c hc
  cases hquote : f.quote with
  | some q =>
    obtain rfl : q = c := by simpa [hquote] using hc
    exact CodePoint.isIdentifierPart_of_mem_fieldSigns
      (CodePoint.mem_fieldSigns_of_isQuoteMark (f.quote_mark q hquote))
  | none =>
    cases hoptional : f.optional with
    | true =>
      obtain rfl : .char '?' = c := by simpa [hquote, behindKey, markOf, hoptional] using hc
      decide
    | false =>
      cases hgap : f.gap with
      | nil =>
        obtain rfl : .char ':' = c := by
          simpa [hquote, behindKey, markOf, hoptional, hgap] using hc
        decide
      | cons b gap =>
        obtain rfl : b = c := by simpa [hquote, behindKey, markOf, hoptional, hgap] using hc
        exact CodePoint.isIdentifierPart_of_isBlank (f.gap_blank b (by simp [hgap]))

theorem cutField_of_leads {f : WrittenField} {t rest : Text} (h : f.Leads t rest) :
    cutField t = some (f.entry, rest) := by
  obtain ⟨blanks, rfl, hblanks, hrest⟩ := h
  obtain ⟨c, v, hvalue⟩ := List.exists_cons_of_ne_nil f.value_ne_nil
  have hkey : cutKey (f.spelling ++ blanks ++ rest) =
      some (f.key, f.behindKey ++ (blanks ++ rest)) :=
    cutKey_eq_some.mpr ⟨f.quote, f.quote_mark, f.key_identifier, f.head_behindKey _,
      by simp [WrittenField.spelling]⟩
  have hcolon : afterColon (f.behindKey ++ (blanks ++ rest)) =
      some (c :: (v ++ blanks ++ rest)) := by
    refine afterColon_eq_some.mpr ⟨f.optional, f.gap, f.margin, f.gap_blank, f.margin_blank, ?_, ?_⟩
    · simpa [hvalue] using f.value_trimmed.head
    · simp [WrittenField.behindKey, hvalue]
  have hc : c.endsValue = false := f.value_goes_on c (by simp [hvalue])
  have hrun : ∀ d ∈ v ++ blanks, (!d.endsValue) = true := by
    intro d hd
    rcases List.mem_append.mp hd with hd | hd
    · simpa using f.value_goes_on d (by simp [hvalue, hd])
    · simpa using (hblanks d hd).2
  have hstop : ∀ d ∈ rest.head?, (!d.endsValue) = false := fun d hd => by simpa using hrest d hd
  have htrim : Text.trim (c :: (v ++ blanks)) = f.value := by
    have := trim_append_blanks f.value_ne_nil f.value_trimmed fun d hd => (hblanks d hd).1
    rwa [hvalue] at this ⊢
  simp only [cutField, hkey, hcolon, hc, Bool.false_eq_true, if_false,
    takeWhile_append_of_head hrun hstop, dropWhile_append_of_head hrun hstop, htrim]
  rfl

theorem exists_leads_of_cutField {t rest : Text} {e : Entry} (h : cutField t = some (e, rest)) :
    ∃ f : WrittenField, f.Leads t rest ∧ f.entry = e := by
  unfold cutField at h
  split at h
  · cases h
  · rename_i key r hkey
    split at h
    · rename_i c v hcolon
      obtain ⟨quote, hquote, hident, -, rfl⟩ := cutKey_eq_some.mp hkey
      obtain ⟨optional, gap, margin, hgap, hmargin, hvalue, rfl⟩ := afterColon_eq_some.mp hcolon
      have hc : c.isBlank = false := hvalue c rfl
      split at h
      · cases h
      · rename_i hends
        cases h
        -- the value with the blanks that are trimmed off behind it
        have hrun : ∀ d ∈ c :: v.takeWhile (!·.endsValue), d.endsValue = false := by
          intro d hd
          rcases List.mem_cons.mp hd with rfl | hd
          · simpa using hends
          · simpa using List.mem_takeWhile_imp hd
        obtain ⟨blanks, happ, hblanks⟩ := exists_trim_append (t := c :: v.takeWhile (!·.endsValue))
          (by simpa using hc)
        have hmem : ∀ d, d ∈ Text.trim (c :: v.takeWhile (!·.endsValue)) ∨ d ∈ blanks →
            d.endsValue = false := by
          intro d hd
          refine hrun d ?_
          rw [happ]
          exact List.mem_append.mpr hd
        refine ⟨{ quote, key, optional, gap, margin
                  value := Text.trim (c :: v.takeWhile (!·.endsValue))
                  quote_mark := hquote
                  key_identifier := hident
                  gap_blank := hgap
                  margin_blank := hmargin
                  value_ne_nil := Text.trim_ne_nil List.mem_cons_self hc
                  value_trimmed := Text.trimmed_trim _
                  value_goes_on := fun d hd => hmem d (.inl hd) }, ?_, rfl⟩
        refine ⟨blanks, ?_, fun d hd => ⟨hblanks d hd, hmem d (.inr hd)⟩, ?_⟩
        · have hsplit : c :: v = Text.trim (c :: v.takeWhile (!·.endsValue)) ++ blanks ++
              v.dropWhile (!·.endsValue) := by
            rw [← happ, List.cons_append, List.takeWhile_append_dropWhile]
          rw [hsplit]
          simp [WrittenField.spelling, WrittenField.behindKey]
        · intro d hd
          simpa using head_dropWhile _ _ d hd
    · cases h

/-- **A field is cut off exactly where one is written**, and behind it the scan goes on at what
ended its value. -/
theorem cutField_eq_some {t rest : Text} {e : Entry} :
    cutField t = some (e, rest) ↔ ∃ f : WrittenField, f.Leads t rest ∧ f.entry = e :=
  ⟨exists_leads_of_cutField, fun ⟨_, hf, he⟩ => he ▸ cutField_of_leads hf⟩

theorem cutField_eq_none {t : Text} :
    cutField t = none ↔ ∀ (f : WrittenField) (rest : Text), ¬ f.Leads t rest := by
  constructor
  · intro h f rest hf
    rw [cutField_of_leads hf] at h
    cases h
  · intro h
    cases hcut : cutField t with
    | none => rfl
    | some p =>
      obtain ⟨f, hf, -⟩ := exists_leads_of_cutField hcut
      exact absurd hf (h f p.2)

/-! What a field is made of. -/

/-- Fields begin with a quote or with an identifier. -/
def CodePoint.beginsKey (c : CodePoint) : Bool := c.isQuoteMark || c.isIdentifierStart

theorem CodePoint.isIdentifierStart_of_not_part {c : CodePoint} (h : c.isIdentifierPart = false) :
    c.isIdentifierStart = false := by
  cases hc : c.isIdentifierStart with
  | false => rfl
  | true => simp [isIdentifierPart_of_isIdentifierStart hc] at h

theorem CodePoint.isQuoteMark_of_endsValue {c : CodePoint} (h : c.endsValue) :
    c.isQuoteMark = false := by
  cases hq : c.isQuoteMark with
  | false => rfl
  | true =>
    have hcases : c = .char '\x27' ∨ c = .char '\x22' := by simpa [isQuoteMark] using hq
    rcases hcases with rfl | rfl <;> cases h

theorem CodePoint.beginsKey_of_isBlank {c : CodePoint} (h : c.isBlank) : c.beginsKey = false := by
  have hapos : c ≠ .char '\x27' := ne_of_isBlank h rfl
  have hquote : c ≠ .char '\x22' := ne_of_isBlank h rfl
  simp [beginsKey, isQuoteMark, hapos, hquote,
    isIdentifierStart_of_not_part (isIdentifierPart_of_isBlank h)]

theorem CodePoint.beginsKey_of_endsValue {c : CodePoint} (h : c.endsValue) :
    c.beginsKey = false := by
  have hpart := isIdentifierPart_of_mem_fieldSigns (mem_fieldSigns_of_endsValue h)
  simp [beginsKey, isQuoteMark_of_endsValue h, isIdentifierStart_of_not_part hpart]

namespace WrittenField

variable (f : WrittenField)

theorem exists_spelling_eq_cons : ∃ c r, f.spelling = c :: r ∧ c.beginsKey := by
  cases hquote : f.quote with
  | some q =>
    exact ⟨q, f.key ++ q :: f.behindKey, by simp [spelling, hquote],
      by simp [CodePoint.beginsKey, f.quote_mark q hquote]⟩
  | none =>
    obtain ⟨c, r, hkey, hc, -⟩ := f.key_identifier
    exact ⟨c, r ++ f.behindKey, by simp [spelling, hquote, hkey], by simp [CodePoint.beginsKey, hc]⟩

theorem colon_mem_spelling : .char ':' ∈ f.spelling := by
  simp [spelling, behindKey]

/-- Nothing that separates two fields is in one. -/
theorem not_mem_spelling {c : CodePoint} (hends : c.endsValue) (hblank : c.isBlank = false) :
    c ∉ f.spelling := by
  have hquote : c ∉ f.quote.toList := by
    intro hc
    have := f.quote_mark c (Option.mem_toList.mp hc)
    simp [CodePoint.isQuoteMark_of_endsValue hends] at this
  have hkey : c ∉ f.key := by
    intro hc
    have := f.key_identifier.isIdentifierPart c hc
    simp [CodePoint.isIdentifierPart_of_mem_fieldSigns
      (CodePoint.mem_fieldSigns_of_endsValue hends)] at this
  have hmark : c ∉ markOf f.optional := by
    unfold markOf
    split
    · rw [List.mem_singleton]
      rintro rfl
      cases hends
    · exact List.not_mem_nil
  have hgap : c ∉ f.gap := fun hc => by simp [f.gap_blank c hc] at hblank
  have hcolon : c ≠ .char ':' := by
    rintro rfl
    cases hends
  have hmargin : c ∉ f.margin := fun hc => by simp [f.margin_blank c hc] at hblank
  have hvalue : c ∉ f.value := fun hc => by simp [f.value_goes_on c hc] at hends
  simp [spelling, behindKey, -Option.mem_toList, hquote, hkey, hmark, hgap, hcolon, hmargin, hvalue]

theorem last_spelling : ∀ c ∈ f.spelling.getLast?, c.isBlank = false := by
  intro c hc
  refine f.value_trimmed.last c ?_
  have hsplit : f.spelling = (f.quote.toList ++ f.key ++ f.quote.toList ++
      (markOf f.optional ++ f.gap ++ .char ':' :: f.margin)) ++ f.value := by
    simp [spelling, behindKey]
  rw [hsplit, List.getLast?_append, List.getLast?_eq_some_getLast f.value_ne_nil,
    Option.some_or] at hc
  rwa [List.getLast?_eq_some_getLast f.value_ne_nil]

end WrittenField

/-! The scan. -/

@[simp]
theorem fields_nil : fields [] = [] := by
  rw [fields]
  rfl

theorem fields_of_cutField {t rest : Text} {e : Entry} (h : cutField t = some (e, rest)) :
    fields t = e :: fields rest := by
  rw [fields]
  split
  · rename_i hcut
    rw [h] at hcut
    cases hcut
    rfl
  · rename_i hcut
    rw [h] at hcut
    cases hcut

theorem fields_cons_of_none {c : CodePoint} {t : Text} (h : cutField (c :: t) = none) :
    fields (c :: t) = fields t := by
  rw [fields]
  split
  · rename_i hcut
    rw [h] at hcut
    cases hcut
  · rfl

theorem cutField_cons_of_not_beginsKey {c : CodePoint} (h : c.beginsKey = false) (t : Text) :
    cutField (c :: t) = none := by
  refine cutField_eq_none.mpr fun f rest ⟨blanks, ht, _, _⟩ => ?_
  obtain ⟨d, r, hspelling, hd⟩ := f.exists_spelling_eq_cons
  obtain ⟨rfl, -⟩ : c = d ∧ _ := by simpa [hspelling] using ht
  simp [h] at hd

/-- What begins no key is passed over. -/
theorem fields_append_of_not_beginsKey {u : Text} (hu : ∀ c ∈ u, c.beginsKey = false) (t : Text) :
    fields (u ++ t) = fields t := by
  induction u with
  | nil => rfl
  | cons c u ih =>
    obtain ⟨hc, hu⟩ := List.forall_mem_cons.mp hu
    rw [List.cons_append, fields_cons_of_none (cutField_cons_of_not_beginsKey hc _), ih hu]

theorem fields_of_not_mem {t : Text} (h : .char ':' ∉ t) : fields t = [] := by
  induction t with
  | nil => exact fields_nil
  | cons c t ih =>
    have hnone : cutField (c :: t) = none := by
      refine cutField_eq_none.mpr fun f rest ⟨blanks, ht, _, _⟩ => ?_
      rw [ht, List.append_assoc] at h
      exact h (List.mem_append_left _ f.colon_mem_spelling)
    rw [fields_cons_of_none hnone]
    exact ih fun hmem => h (List.mem_cons_of_mem c hmem)

/-- **Step.** What stands behind a separator takes no part in cutting a field off. -/
theorem cutField_append_separator {c : CodePoint} (hends : c.endsValue) (hblank : c.isBlank = false)
    (u v : Text) :
    cutField (u ++ c :: v) = (cutField u).map fun p => (p.1, p.2 ++ c :: v) := by
  cases hcut : cutField u with
  | some p =>
    obtain ⟨f, ⟨blanks, rfl, hblanks, hrest⟩, he⟩ := exists_leads_of_cutField hcut
    refine cutField_eq_some.mpr ⟨f, ⟨blanks, by simp, hblanks, ?_⟩, he⟩
    cases hp : p.2 with
    | nil => simpa using hends
    | cons d r => simpa [hp] using hrest
  | none =>
    refine cutField_eq_none.mpr fun f rest ⟨blanks, ht, hblanks, hrest⟩ => ?_
    -- the field does not reach the separator, so it would be cut off without it
    have hfree : c ∉ f.spelling ++ blanks := by
      intro hc
      rcases List.mem_append.mp hc with hc | hc
      · exact f.not_mem_spelling hends hblank hc
      · simp [(hblanks c hc).2] at hends
    obtain ⟨w, rfl⟩ := Text.prefix_of_prefix_append_cons hfree ⟨rest, ht.symm⟩
    obtain rfl : w ++ c :: v = rest := by simpa using ht
    refine cutField_eq_none.mp hcut f w ⟨blanks, rfl, hblanks, ?_⟩
    cases w with
    | nil => simp
    | cons d w => simpa using hrest

/-- **Run.** The fields of a text with a separator in it are those on its two sides. -/
theorem fields_append_separator {c : CodePoint} (hends : c.endsValue) (hblank : c.isBlank = false)
    (u v : Text) : fields (u ++ c :: v) = fields u ++ fields v := by
  fun_induction fields u with
  | case1 u e rest hcut ih =>
    have hlonger := cutField_append_separator hends hblank u v
    rw [hcut, Option.map_some] at hlonger
    rw [fields_of_cutField hlonger, ih, List.cons_append]
  | case2 =>
    exact fields_cons_of_none
      (cutField_cons_of_not_beginsKey (CodePoint.beginsKey_of_endsValue hends) v)
  | case3 d u hcut ih =>
    have hlonger := cutField_append_separator hends hblank (d :: u) v
    rw [hcut, Option.map_none] at hlonger
    exact (fields_cons_of_none hlonger).trans ih

theorem fields_blanks {blanks : Text} (hblanks : ∀ c ∈ blanks, c.isBlank) : fields blanks = [] := by
  have := fields_append_of_not_beginsKey
    (fun c hc => CodePoint.beginsKey_of_isBlank (hblanks c hc)) []
  rwa [List.append_nil, fields_nil] at this

/-- A field does not reach into the blanks at the end of a text. -/
theorem WrittenField.Leads.of_append_blanks {f : WrittenField} {u blanks rest : Text}
    (hblanks : ∀ c ∈ blanks, c.isBlank) (h : f.Leads (u ++ blanks) rest) : ∃ w, f.Leads u w := by
  obtain ⟨gap, ht, hgap, hrest⟩ := h
  rw [List.append_assoc] at ht
  rcases List.append_eq_append_iff.mp ht with ⟨w, hspelling, hw⟩ | ⟨w, rfl, hw⟩
  · -- nothing of the field is blank at its end, so it ends with `u`
    cases hlast : w.getLast? with
    | none =>
      obtain rfl : w = [] := List.getLast?_eq_none_iff.mp hlast
      exact ⟨[], [], by simp [hspelling], by simp, by simp⟩
    | some c =>
      have hblank : c.isBlank := hblanks c (by simp [hw, List.mem_of_getLast? hlast])
      have hsolid := f.last_spelling c (by rw [hspelling, List.getLast?_append, hlast]; rfl)
      simp [hblank] at hsolid
  · rcases List.append_eq_append_iff.mp hw with ⟨x, rfl, rfl⟩ | ⟨x, rfl, -⟩
    · refine ⟨x, gap, by simp, hgap, ?_⟩
      cases x with
      | nil => simp
      | cons d x => simpa using hrest
    · exact ⟨[], w, by simp, fun c hc => hgap c (List.mem_append_left _ hc), by simp⟩

/-- Blanks at the end of a text make no difference. -/
theorem fields_append_blanks {blanks : Text} (hblanks : ∀ c ∈ blanks, c.isBlank) (u : Text) :
    fields (u ++ blanks) = fields u := by
  fun_induction fields u with
  | case1 u e rest hcut ih =>
    obtain ⟨f, ⟨gap, rfl, hgap, hrest⟩, rfl⟩ := exists_leads_of_cutField hcut
    cases rest with
    | nil =>
      -- the blanks belong to what is trimmed off the value, as far as they do not end it
      have hleads :
          f.Leads (f.spelling ++ gap ++ [] ++ blanks) (blanks.dropWhile (!·.endsValue)) := by
        refine ⟨gap ++ blanks.takeWhile (!·.endsValue), ?_, fun c hc => ?_, fun c hc => ?_⟩
        · simp [List.takeWhile_append_dropWhile]
        · rcases List.mem_append.mp hc with hc | hc
          · exact hgap c hc
          · exact ⟨hblanks c ((List.takeWhile_prefix _).subset hc),
              by simpa using List.mem_takeWhile_imp hc⟩
        · simpa using head_dropWhile _ _ c hc
      have hnothing : fields (blanks.dropWhile (!·.endsValue)) = [] :=
        fields_blanks fun c hc => hblanks c ((List.dropWhile_suffix _).subset hc)
      rw [fields_of_cutField (cutField_of_leads hleads), hnothing, fields_nil]
    | cons d r =>
      have hleads : f.Leads (f.spelling ++ gap ++ d :: r ++ blanks) (d :: r ++ blanks) :=
        ⟨gap, by simp, hgap, by simpa using hrest⟩
      rw [fields_of_cutField (cutField_of_leads hleads), ih]
  | case2 => exact fields_blanks hblanks
  | case3 d u hcut ih =>
    have hnone : cutField (d :: u ++ blanks) = none := by
      refine cutField_eq_none.mpr fun f rest hf => ?_
      obtain ⟨w, hw⟩ := hf.of_append_blanks hblanks
      exact cutField_eq_none.mp hcut f w hw
    exact (fields_cons_of_none hnone).trans ih

end CommentTags
