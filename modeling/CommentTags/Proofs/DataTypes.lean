import CommentTags.Comment.Declaration
import CommentTags.Proofs.Fields

/-!
Data types as they are commonly written: fields between two braces, with separators between them.
Extraction gives back the fields in order. Where a value is a string literal, the scan does not know
of it: the literal is whole exactly if nothing in it ends a value, and otherwise the scan goes on
inside it.
-/

namespace CommentTags

/-- What stands between braces has the fields that it has by itself, whatever is written in front of
them without a colon. -/
theorem fields_braces {before : Text} (hbefore : .char ':' ∉ before) (t : Text) :
    fields (before ++ text "\x7b " ++ t ++ text " \x7d") = fields t := by
  have hwritten : before ++ text "\x7b " ++ t ++ text " \x7d" =
      before ++ .char '{' :: ([.char ' '] ++ (t ++ [.char ' '] ++ .char '}' :: [])) := by
    simp [text]
  have hspace : ∀ c ∈ ([.char ' '] : Text), c.isBlank := by decide
  rw [hwritten, fields_append_separator rfl rfl, fields_of_not_mem hbefore, List.nil_append,
    fields_append_of_not_beginsKey fun c hc => CodePoint.beginsKey_of_isBlank (hspace c hc),
    fields_append_separator rfl rfl, fields_append_blanks hspace, fields_nil, List.append_nil]

/-! Fields with separators between them. -/

/-- What may stand between two fields. -/
inductive FieldSeparator : Text → Prop
  | comma : FieldSeparator (text ", ")
  | semicolon : FieldSeparator (text "; ")
  | line : FieldSeparator (text "\n")
  | commaLine {indentation : Text} :
      (∀ c ∈ indentation, c.isBlank) → FieldSeparator (text ",\n" ++ indentation)

/-- Some fields written one after the other, each two of them with any separator between them. -/
inductive FieldList : List WrittenField → Text → Prop
  | nil : FieldList [] []
  | one (f : WrittenField) : FieldList [f] f.spelling
  | more (f : WrittenField) {s t : Text} {g : WrittenField} {gs : List WrittenField} :
      FieldSeparator s → FieldList (g :: gs) t → FieldList (f :: g :: gs) (f.spelling ++ s ++ t)

/-- A separator ends the value in front of it. -/
theorem FieldSeparator.exists_cons {s : Text} (h : FieldSeparator s) :
    ∃ c r, s = c :: r ∧ c.endsValue := by
  cases h with
  | comma => exact ⟨_, _, rfl, rfl⟩
  | semicolon => exact ⟨_, _, rfl, rfl⟩
  | line => exact ⟨_, _, rfl, rfl⟩
  | commaLine => exact ⟨_, _, rfl, rfl⟩

theorem FieldSeparator.beginsKey {s : Text} (h : FieldSeparator s) :
    ∀ c ∈ s, c.beginsKey = false := by
  cases h with
  | comma => decide
  | semicolon => decide
  | line => decide
  | @commaLine indentation hblank =>
    intro c hc
    rcases List.mem_append.mp hc with hc | hc
    · have hsigns : ∀ c ∈ text ",\n", c.beginsKey = false := by decide
      exact hsigns c hc
    · exact CodePoint.beginsKey_of_isBlank (hblank c hc)

theorem FieldList.fields_eq {fs : List WrittenField} {t : Text} (h : FieldList fs t) :
    fields t = fs.map WrittenField.entry := by
  induction h with
  | nil => exact fields_nil
  | one f =>
    have hleads : f.Leads f.spelling [] := ⟨[], by simp, by simp, by simp⟩
    rw [fields_of_cutField (cutField_of_leads hleads), fields_nil]
    rfl
  | @more f s t g gs hs _ ih =>
    obtain ⟨c, r, rfl, hc⟩ := hs.exists_cons
    have hleads : f.Leads (f.spelling ++ (c :: r) ++ t) (c :: r ++ t) :=
      ⟨[], by simp, by simp, by simpa using hc⟩
    rw [fields_of_cutField (cutField_of_leads hleads), fields_append_of_not_beginsKey hs.beginsKey,
      ih]
    rfl

/-- A data type that is written from some fields gives back their keys and values in order, and so
many tokens are added behind those that a comment has. -/
theorem fields_dataType {before : Text} (hbefore : .char ':' ∉ before) {fs : List WrittenField}
    {t : Text} (ht : FieldList fs t) (c : Comment) :
    let declaration := before ++ text "\x7b " ++ t ++ text " \x7d"
    fields declaration = fs.map (fun f => ⟨f.key, f.value⟩) ∧
      (c.append (declarationTokens .dataType declaration)).children =
        c.children ++ fs.map (fun f => { label := f.key, content := f.value }) ∧
      (declarationTokens .dataType declaration).length = fs.length := by
  intro declaration
  have hfields : fields declaration = fs.map WrittenField.entry := by
    rw [fields_braces hbefore, ht.fields_eq]
  have htokens : declarationTokens .dataType declaration =
      fs.map fun f => { label := f.key, content := f.value } := by
    rw [declarationTokens, declarationEntries, hfields, List.map_map]
    rfl
  exact ⟨hfields, by rw [htokens]; rfl, by rw [htokens, List.length_map]⟩

/-- A quoted optional key, values with a colon and with quotes, and two kinds of separators, behind
a comment that has a token already. -/
theorem fields_dataType_interface :
    let declaration := text "interface Opts \x7b name: a:b; 'mode'?: \"x\" | 1,\n\t$n: ? \x7d"
    let c : Comment := ⟨[{ label := text "description", content := text "Doc" }]⟩
    .char ':' ∉ text "interface Opts " ∧
      fields declaration =
        [⟨text "name", text "a:b"⟩, ⟨text "mode", text "\"x\" | 1"⟩, ⟨text "$n", text "?"⟩] ∧
      (c.append (declarationTokens .dataType declaration)).children =
        [{ label := text "description", content := text "Doc" },
          { label := text "name", content := text "a:b" },
          { label := text "mode", content := text "\"x\" | 1" },
          { label := text "$n", content := text "?" }] ∧
      (declarationTokens .dataType declaration).length = 3 := by
  intro declaration c
  let name : WrittenField :=
    { key := text "name", value := text "a:b", quote_mark := by simp
      key_identifier := ⟨_, _, rfl, rfl, by decide⟩
      gap_blank := by simp, margin_blank := by decide
      value_ne_nil := by decide, value_trimmed := ⟨by decide, by decide⟩
      value_goes_on := by decide }
  let mode : WrittenField :=
    { quote := some (.char '\x27'), key := text "mode", optional := true
      value := text "\"x\" | 1", quote_mark := by decide
      key_identifier := ⟨_, _, rfl, rfl, by decide⟩
      gap_blank := by simp, margin_blank := by decide
      value_ne_nil := by decide, value_trimmed := ⟨by decide, by decide⟩
      value_goes_on := by decide }
  let n : WrittenField :=
    { key := text "$n", value := text "?", quote_mark := by simp
      key_identifier := ⟨_, _, rfl, rfl, by decide⟩
      gap_blank := by simp, margin_blank := by decide
      value_ne_nil := by decide, value_trimmed := ⟨by decide, by decide⟩
      value_goes_on := by decide }
  have hlist : FieldList [name, mode, n] (name.spelling ++ text "; " ++ (mode.spelling ++
      (text ",\n" ++ text "\t") ++ n.spelling)) :=
    .more name .semicolon (.more mode (.commaLine (by decide)) (.one n))
  have hwritten : text "interface Opts " ++ text "\x7b " ++ (name.spelling ++ text "; " ++
      (mode.spelling ++ (text ",\n" ++ text "\t") ++ n.spelling)) ++ text " \x7d" =
        declaration := by
    decide +kernel
  have hbefore : .char ':' ∉ text "interface Opts " := by decide
  have hdataType := fields_dataType hbefore hlist c
  dsimp only at hdataType
  rw [hwritten] at hdataType
  exact ⟨hbefore, hdataType⟩

/-! String literals. -/

/-- A string literal in single quotes. -/
def literal (body : Text) : Text := .char '\x27' :: (body ++ [.char '\x27'])

/-- A field that has a string literal for its value. -/
def literalField (key body : Text) : Text := key ++ text ": " ++ literal body

/-- What is taken for the value: the literal up to the first code point that ends a value. -/
def literalValue (body : Text) : Text := Text.trim ((literal body).takeWhile (!·.endsValue))

/-- What is left of the literal, where the scan goes on. -/
def literalRest (body : Text) : Text := (literal body).dropWhile (!·.endsValue)

theorem literal_goes_on {body : Text} (h : ∀ c ∈ body, c.endsValue = false) :
    ∀ c ∈ literal body, (!c.endsValue) = true := by
  intro c hc
  simp only [literal, List.mem_cons, List.mem_append, List.not_mem_nil, or_false] at hc
  rcases hc with rfl | hc | rfl
  · rfl
  · simpa using h c hc
  · rfl

/-- The value of a literal that nothing ends is the literal, and nothing of it is left. -/
theorem literalValue_of_goes_on {body : Text} (h : ∀ c ∈ body, c.endsValue = false) :
    literalValue body = literal body ∧ literalRest body = [] := by
  have hgoes := literal_goes_on h
  have htrimmed : (literal body).Trimmed := ⟨by simp [literal, CodePoint.isBlank],
    by simp [literal, List.getLast?_cons, CodePoint.isBlank]⟩
  constructor
  · rw [literalValue, List.takeWhile_eq_self_iff.mpr hgoes, Text.trim_of_trimmed htrimmed]
  · exact List.dropWhile_eq_nil_iff.mpr hgoes

/-- A literal is its value, perhaps blanks, and what is left. -/
theorem exists_literal_eq (body : Text) :
    ∃ blanks, literal body = literalValue body ++ blanks ++ literalRest body ∧
      (∀ c ∈ blanks, c.isBlank) ∧ ∀ c ∈ literalValue body ++ blanks, c.endsValue = false := by
  obtain ⟨blanks, hsplit, hblanks⟩ := exists_trim_append
    (t := (literal body).takeWhile (!·.endsValue))
    (by simp [literal, CodePoint.endsValue, CodePoint.isBlank])
  refine ⟨blanks, ?_, hblanks, fun c hc => ?_⟩
  · rw [literalValue, ← hsplit, literalRest, List.takeWhile_append_dropWhile]
  · rw [literalValue, ← hsplit] at hc
    simpa using List.mem_takeWhile_imp hc

/-- A literal that something ends is not the value. -/
theorem goes_on_of_literalValue {body : Text} (h : literalValue body = literal body) :
    ∀ c ∈ body, c.endsValue = false := by
  intro c hc
  obtain ⟨blanks, -, -, hgoes⟩ := exists_literal_eq body
  refine hgoes c (List.mem_append_left _ ?_)
  rw [h]
  simp [literal, hc]

theorem literalValue_ne_nil (body : Text) : literalValue body ≠ [] := by
  have hhead : .char '\x27' ∈ (literal body).takeWhile (!·.endsValue) := by
    simp [literal, CodePoint.endsValue]
  exact Text.trim_ne_nil hhead rfl

theorem fields_literalField {key : Text} (hkey : IsIdentifier key) (body : Text) :
    fields (literalField key body) = ⟨key, literalValue body⟩ :: fields (literalRest body) := by
  obtain ⟨blanks, hsplit, hblanks, hgoes⟩ := exists_literal_eq body
  let f : WrittenField :=
    { key
      value := literalValue body
      quote_mark := by simp
      key_identifier := hkey
      gap_blank := by simp
      margin_blank := by decide
      value_ne_nil := literalValue_ne_nil body
      value_trimmed := Text.trimmed_trim _
      value_goes_on := fun c hc => hgoes c (List.mem_append_left _ hc) }
  have hleads : f.Leads (literalField key body) (literalRest body) := by
    refine ⟨blanks, ?_, fun c hc => ⟨hblanks c hc, hgoes c (List.mem_append_right _ hc)⟩,
      fun c hc => ?_⟩
    · rw [literalField, hsplit]
      simp [f, WrittenField.spelling, WrittenField.behindKey, WrittenField.markOf, text]
    · simpa using head_dropWhile _ _ c hc
  exact fields_of_cutField (cutField_of_leads hleads)

theorem fields_joined_literals {es : List (Text × Text)} (hes : ∀ e ∈ es, IsIdentifier e.1) :
    fields (Text.joinWith (text ", ") (es.map fun e => literalField e.1 e.2)) =
      es.flatMap fun e => ⟨e.1, literalValue e.2⟩ :: fields (literalRest e.2) := by
  induction es with
  | nil => exact fields_nil
  | cons e es ih =>
    obtain ⟨he, hes⟩ := List.forall_mem_cons.mp hes
    cases es with
    | nil =>
      have hone : Text.joinWith (text ", ") [literalField e.1 e.2] = literalField e.1 e.2 := by
        simp [Text.joinWith]
      rw [List.map_singleton, hone, fields_literalField he]
      simp
    | cons e' es =>
      have hmore : Text.joinWith (text ", ") ((e :: e' :: es).map fun e => literalField e.1 e.2) =
          literalField e.1 e.2 ++ .char ',' :: ([.char ' '] ++
            Text.joinWith (text ", ") ((e' :: es).map fun e => literalField e.1 e.2)) := by
        simp [Text.joinWith, List.intercalate_cons_cons, text]
      rw [hmore, fields_append_separator rfl rfl, fields_append_of_not_beginsKey (by decide),
        ih hes, fields_literalField he]
      rfl

/-- **Literals stay whole exactly if nothing in them ends a value.** The induction is on the fields:
the first that is cut has another value than its literal, and those before it have none left. -/
theorem flatMap_literals_eq_iff (es : List (Text × Text)) :
    (es.flatMap fun e => (⟨e.1, literalValue e.2⟩ : Entry) :: fields (literalRest e.2)) =
        es.map (fun e => ⟨e.1, literal e.2⟩) ↔
      ∀ e ∈ es, ∀ c ∈ e.2, c.endsValue = false := by
  induction es with
  | nil => simp
  | cons e es ih =>
    rw [List.flatMap_cons, List.map_cons, List.cons_append, List.cons.injEq, List.forall_mem_cons]
    constructor
    · rintro ⟨hfirst, hrest⟩
      have hgoes := goes_on_of_literalValue (Entry.mk.inj hfirst).2
      rw [(literalValue_of_goes_on hgoes).2, fields_nil, List.nil_append] at hrest
      exact ⟨hgoes, ih.mp hrest⟩
    · rintro ⟨hgoes, hrest⟩
      obtain ⟨hvalue, hleft⟩ := literalValue_of_goes_on hgoes
      rw [hvalue, hleft, fields_nil, List.nil_append]
      exact ⟨rfl, ih.mpr hrest⟩

/-- The fields of a data type whose values are string literals. Each literal gives its field the
part of it in front of the first code point that ends a value, and what is left is scanned for more
fields. So there is one field for each key, with the whole literal, exactly if no body holds a
comma, a semicolon, a brace or a line break. -/
theorem fields_literals {es : List (Text × Text)} (hes : ∀ e ∈ es, IsIdentifier e.1) :
    let t := text "\x7b " ++ Text.joinWith (text ", ") (es.map fun e => literalField e.1 e.2) ++
      text " \x7d"
    fields t = es.flatMap (fun e => ⟨e.1, literalValue e.2⟩ :: fields (literalRest e.2)) ∧
      (fields t = es.map (fun e => ⟨e.1, literal e.2⟩) ↔
        ∀ e ∈ es, ∀ c ∈ e.2, c.endsValue = false) := by
  intro t
  have hfields : fields t =
      es.flatMap (fun e => ⟨e.1, literalValue e.2⟩ :: fields (literalRest e.2)) := by
    have hbraces := @fields_braces [] (by simp)
      (Text.joinWith (text ", ") (es.map fun e => literalField e.1 e.2))
    rw [List.nil_append, fields_joined_literals hes] at hbraces
    exact hbraces
  exact ⟨hfields, by rw [hfields]; exact flatMap_literals_eq_iff es⟩

/-- A key behind a comma in the first literal; nothing in the second ends a value. -/
theorem fields_literals_comma :
    let es : List (Text × Text) := [(text "sep", text "x , b: 1"), (text "n", text "a:b (c)")]
    (∀ e ∈ es, IsIdentifier e.1) ∧
      fields (text "\x7b sep: 'x , b: 1', n: 'a:b (c)' \x7d") =
        [⟨text "sep", text "'x"⟩, ⟨text "b", text "1'"⟩, ⟨text "n", text "'a:b (c)'"⟩] := by
  intro es
  have hes : ∀ e ∈ es, IsIdentifier e.1 := by
    intro e he
    simp only [es, List.mem_cons, List.not_mem_nil, or_false] at he
    rcases he with rfl | rfl
    · exact ⟨_, _, rfl, rfl, by decide +kernel⟩
    · exact ⟨_, _, rfl, rfl, by decide⟩
  refine ⟨hes, (fields_literals hes).1.trans ?_⟩
  decide +kernel

/-- A body without quotes, backslashes and line breaks can hold a comma: the literal is then cut,
and the text behind the comma is taken for a field of its own. -/
theorem fields_literals_cut :
    let es : List (Text × Text) := [(text "a", text "x, b: 1")]
    let t := text "\x7b " ++ Text.joinWith (text ", ") (es.map fun e => literalField e.1 e.2) ++
      text " \x7d"
    (∀ e ∈ es, IsIdentifier e.1 ∧
        ∀ c ∈ e.2, c.opensString = false ∧ c ≠ .char '\\' ∧ c ≠ .char '\n') ∧
      t = text "\x7b a: 'x, b: 1' \x7d" ∧
      fields t = [⟨text "a", text "'x"⟩, ⟨text "b", text "1'"⟩] ∧
      fields t ≠ es.map fun e => ⟨e.1, literal e.2⟩ := by
  intro es t
  have hfields : fields t = [⟨text "a", text "'x"⟩, ⟨text "b", text "1'"⟩] := by decide +kernel
  refine ⟨fun e he => ?_, by decide, hfields, by rw [hfields]; decide⟩
  obtain rfl : e = (text "a", text "x, b: 1") := by simpa [es] using he
  exact ⟨⟨_, _, rfl, rfl, by decide⟩, by decide⟩

end CommentTags
