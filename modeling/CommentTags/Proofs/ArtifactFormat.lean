import CommentTags.Proofs.ArtifactRoundTrip
import CommentTags.Proofs.Failure

/-!
Which texts are read as artifacts. The format is an object of the known version with an array of
comments, each an array of tokens; the fields of a token are texts or lists of texts. A text or an
object in the place of an array is gone through all the same, so that it is taken if there is
nothing in it. Everything else is refused, unless the JSON reader itself meets its limits.
-/

namespace CommentTags
namespace Artifact

/-- A field that holds a text, or is null or not there. -/
inductive HoldsText : Option Json → Option Text → Prop
  | absent : HoldsText none none
  | null : HoldsText (some .null) none
  | text (t : Text) : HoldsText (some (.str t)) (some t)

/-- A field that holds an array of texts, or is null or not there. -/
inductive HoldsTexts : Option Json → Option (List Text) → Prop
  | absent : HoldsTexts none none
  | null : HoldsTexts (some .null) none
  | texts (ts : List Text) : HoldsTexts (some (.array (ts.map .str))) (some ts)

/-- The fields that hold a token; fields with other keys may hold anything. -/
structure HoldsToken (fs : List (Text × Json)) (t : Token) : Prop where
  label : Json.lookup (text "label") fs = some (.str t.label)
  content : Json.lookup (text "content") fs = some (.str t.content)
  description : HoldsText (Json.lookup (text "description") fs) t.description
  types : HoldsTexts (Json.lookup (text "type") fs) t.types
  names : HoldsTexts (Json.lookup (text "name") fs) t.names
  argName : HoldsText (Json.lookup (text "argName") fs) t.argName

/-- The object of a token. -/
def IsToken (v : Json) (t : Token) : Prop := ∃ fs, v = .object fs ∧ HoldsToken fs t

/-- An array with one item for each of `xs`, in order. -/
def IsArrayOf {α : Type} (item : Json → α → Prop) (v : Json) (xs : List α) : Prop :=
  ∃ vs, v = .array vs ∧ List.Forall₂ item vs xs

/-- The array of the tokens of a comment. -/
def IsComment (v : Json) (c : Comment) : Prop := IsArrayOf IsToken v c.children

/-- An object of the known version that has no comments, or has a field that holds them. -/
def IsArtifact (comments : Json → List Comment → Prop) (v : Json) (tree : TokenTree) : Prop :=
  ∃ fs, v = .object fs ∧ Json.lookup (text "v") fs = some (.str version) ∧
    (Json.lookup (text "comments") fs = none ∧ tree.comments = [] ∨
      ∃ w, Json.lookup (text "comments") fs = some w ∧ comments w tree.comments)

/-- The format: an array of comments, each an array of tokens. -/
def InFormat : Json → TokenTree → Prop := IsArtifact (IsArrayOf IsComment)

/-- A text or an object with nothing in it. -/
def IsVacant (v : Json) : Prop := v = .str [] ∨ v = .object []

/-- What is taken for a comment. -/
def TakenComment (v : Json) (c : Comment) : Prop := IsComment v c ∨ IsVacant v ∧ c.children = []

/-- What is taken for the comments of a tree. The keys of an object are gone through as texts, and
an empty one is taken for a comment without tokens. -/
def TakenComments (v : Json) (cs : List Comment) : Prop :=
  IsArrayOf TakenComment v cs ∨ IsVacant v ∧ cs = [] ∨
    ∃ fs, v = .object fs ∧ (∀ f ∈ fs, f.1 = []) ∧ cs = fs.map fun _ => ⟨[]⟩

/-- What is taken for an artifact. -/
def Taken : Json → TokenTree → Prop := IsArtifact TakenComments

/-- A value that can be gone through although it is no array. -/
def StandsIn (v : Json) : Prop := (∃ t, v = .str t) ∨ ∃ fs, v = .object fs

/-- Neither the comments nor one of them is a text or an object. -/
def ArraysOnly (v : Json) : Prop :=
  ∀ fs w, v = .object fs → Json.lookup (text "comments") fs = some w →
    ¬ StandsIn w ∧ ∀ vs, w = .array vs → ∀ x ∈ vs, ¬ StandsIn x

/-! The fields of a token. -/

theorem required_eq_ok {field : Text} {o : Option Json} {t : Text} :
    LooseToken.required field o = .ok t ↔ o = some (.str t) := by
  constructor
  · intro h
    unfold LooseToken.required at h
    split at h
    · cases h
    · cases h
      rfl
    · cases h
  · rintro rfl
    rfl

theorem optional_eq_ok {field : Text} {o : Option Json} {r : Option Text} :
    LooseToken.optional field o = .ok r ↔ HoldsText o r := by
  constructor
  · intro h
    unfold LooseToken.optional at h
    split at h
    · cases h
      exact .absent
    · cases h
      exact .null
    · cases h
      exact .text _
    · cases h
  · rintro (_ | _ | t) <;> rfl

theorem eq_map_str_of_items {field : Text} {i : Nat} {vs : List Json} {ts : List Text}
    (h : LooseToken.items field i vs = .ok ts) : vs = ts.map .str := by
  induction vs generalizing i ts with
  | nil =>
    cases h
    rfl
  | cons v vs ih =>
    unfold LooseToken.items at h
    split at h
    · rename_i rest hrest
      cases h
      rw [List.map_cons, ← ih hrest]
    · cases h
    · cases h
    · cases h

theorem optionalList_eq_ok {field : Text} {o : Option Json} {r : Option (List Text)} :
    LooseToken.optionalList field o = .ok r ↔ HoldsTexts o r := by
  constructor
  · intro h
    unfold LooseToken.optionalList at h
    split at h
    · cases h
      exact .absent
    · cases h
      exact .null
    · rename_i vs
      cases hitems : LooseToken.items field 0 vs with
      | error ds =>
        rw [hitems] at h
        cases h
      | ok ts =>
        rw [hitems] at h
        cases h
        rw [eq_map_str_of_items hitems]
        exact .texts ts
    · cases h
  · rintro (_ | _ | ts)
    · rfl
    · rfl
    · exact optionalList_map_str field (some ts)

theorem check_eq_ok {l : LooseToken} {t : Token} :
    l.check = .ok t ↔
      LooseToken.required (text "label") l.label = .ok t.label ∧
      LooseToken.required (text "content") l.content = .ok t.content ∧
      LooseToken.optional (text "description") l.description = .ok t.description ∧
      LooseToken.optionalList (text "type") l.types = .ok t.types ∧
      LooseToken.optionalList (text "name") l.names = .ok t.names ∧
      LooseToken.optional l.argNameKey l.argName = .ok t.argName := by
  constructor
  · intro h
    unfold LooseToken.check at h
    dsimp only at h
    split at h
    · rename_i hlabel hcontent hdescription htypes hnames hargName
      cases h
      exact ⟨hlabel, hcontent, hdescription, htypes, hnames, hargName⟩
    · cases h
  · rintro ⟨hlabel, hcontent, hdescription, htypes, hnames, hargName⟩
    simp only [LooseToken.check, hlabel, hcontent, hdescription, htypes, hnames, hargName]

theorem readToken_eq_ok {v : Json} {t : Token} : readToken v = .ok t ↔ IsToken v t := by
  constructor
  · intro h
    cases v with
    | object fs =>
      refine ⟨fs, rfl, ?_⟩
      unfold readToken at h
      dsimp only at h
      split at h
      · cases h
      · cases h
      · split at h
        · rename_i hcheck
          cases h
          obtain ⟨hlabel, hcontent, hdescription, htypes, hnames, hargName⟩ := check_eq_ok.mp hcheck
          exact ⟨required_eq_ok.mp hlabel, required_eq_ok.mp hcontent,
            optional_eq_ok.mp hdescription, optionalList_eq_ok.mp htypes,
            optionalList_eq_ok.mp hnames, optional_eq_ok.mp hargName⟩
        · cases h
    | null | bool | int | float | str | array => cases h
  · rintro ⟨fs, rfl, ht⟩
    have hcheck := check_eq_ok (l :=
      { label := Json.lookup (text "label") fs, content := Json.lookup (text "content") fs
        description := Json.lookup (text "description") fs, types := Json.lookup (text "type") fs
        names := Json.lookup (text "name") fs, argName := Json.lookup (text "argName") fs }).mpr
      ⟨required_eq_ok.mpr ht.label, required_eq_ok.mpr ht.content,
        optional_eq_ok.mpr ht.description, optionalList_eq_ok.mpr ht.types,
        optionalList_eq_ok.mpr ht.names, optional_eq_ok.mpr ht.argName⟩
    unfold readToken
    dsimp only
    rw [ht.label, ht.content] at hcheck ⊢
    simp only [hcheck]

/-! Lists. -/

theorem mapM_readToken_eq_ok {vs : List Json} {ts : List Token} :
    vs.mapM readToken = .ok ts ↔ List.Forall₂ IsToken vs ts := by
  simp only [mapM_eq_ok, readToken_eq_ok]

/-- No text is the object of a token. -/
theorem not_isToken_str (t : Text) (token : Token) : ¬ IsToken (.str t) token := by
  rintro ⟨fs, h, -⟩
  cases h

/-- Texts stand for tokens only if there are none. -/
theorem forall₂_isToken_map_str {α : Type} {f : α → Text} {l : List α} {ts : List Token} :
    List.Forall₂ IsToken (l.map fun a => .str (f a)) ts ↔ l = [] ∧ ts = [] := by
  constructor
  · intro h
    cases l with
    | nil =>
      cases h
      exact ⟨rfl, rfl⟩
    | cons a l =>
      cases h with
      | cons ha hl => exact absurd ha (not_isToken_str _ _)
  · rintro ⟨rfl, rfl⟩
    exact .nil

theorem readComment_eq_ok {v : Json} {c : Comment} :
    readComment v = .ok c ↔ ∃ vs, elements v = .ok vs ∧ List.Forall₂ IsToken vs c.children := by
  simp only [readComment, bind_eq_ok, mapM_readToken_eq_ok]
  constructor
  · rintro ⟨vs, hvs, ts, hts, h⟩
    cases h
    exact ⟨vs, hvs, hts⟩
  · rintro ⟨vs, hvs, hts⟩
    exact ⟨vs, hvs, c.children, hts, rfl⟩

/-- What can be gone through: the items of an array, or texts. -/
theorem elements_eq_ok {v : Json} {vs : List Json} (h : elements v = .ok vs) :
    v = .array vs ∨ (∃ t : Text, v = .str t ∧ vs = t.map fun c => .str [c]) ∨
      ∃ fs, v = .object fs ∧ vs = fs.map fun f => .str f.1 := by
  cases v with
  | array items =>
    cases h
    exact .inl rfl
  | str t =>
    cases h
    exact .inr (.inl ⟨t, rfl, rfl⟩)
  | object fs =>
    cases h
    exact .inr (.inr ⟨fs, rfl, rfl⟩)
  | null | bool | int | float => cases h

theorem readComment_eq_ok_iff_taken {v : Json} {c : Comment} :
    readComment v = .ok c ↔ TakenComment v c := by
  rw [readComment_eq_ok]
  constructor
  · rintro ⟨vs, hvs, hts⟩
    rcases elements_eq_ok hvs with rfl | ⟨t, rfl, rfl⟩ | ⟨fs, rfl, rfl⟩
    · exact .inl ⟨vs, rfl, hts⟩
    · obtain ⟨rfl, hc⟩ := forall₂_isToken_map_str.mp hts
      exact .inr ⟨.inl rfl, hc⟩
    · obtain ⟨rfl, hc⟩ := forall₂_isToken_map_str.mp hts
      exact .inr ⟨.inr rfl, hc⟩
  · rintro (⟨vs, rfl, hts⟩ | ⟨rfl | rfl, hc⟩)
    · exact ⟨vs, rfl, hts⟩
    · exact ⟨[], rfl, hc ▸ .nil⟩
    · exact ⟨[], rfl, hc ▸ .nil⟩

theorem takenComment_str {t : Text} {c : Comment} :
    TakenComment (.str t) c ↔ t = [] ∧ c = ⟨[]⟩ := by
  constructor
  · rintro (⟨vs, h, -⟩ | ⟨h | h, hc⟩)
    · cases h
    · cases h
      exact ⟨rfl, by rw [← hc]⟩
    · cases h
  · rintro ⟨rfl, rfl⟩
    exact .inr ⟨.inl rfl, rfl⟩

/-- Texts are taken for comments without tokens if they are empty. -/
theorem forall₂_takenComment_map_str {α : Type} {f : α → Text} {l : List α} {cs : List Comment} :
    List.Forall₂ TakenComment (l.map fun a => .str (f a)) cs ↔
      (∀ a ∈ l, f a = []) ∧ cs = l.map fun _ => ⟨[]⟩ := by
  induction l generalizing cs with
  | nil => simp
  | cons a l ih =>
    constructor
    · intro h
      cases h with
      | cons ha hl =>
        obtain ⟨hempty, rfl⟩ := takenComment_str.mp ha
        obtain ⟨hrest, rfl⟩ := ih.mp hl
        exact ⟨List.forall_mem_cons.mpr ⟨hempty, hrest⟩, rfl⟩
    · rintro ⟨hempty, rfl⟩
      obtain ⟨ha, hl⟩ := List.forall_mem_cons.mp hempty
      exact .cons (takenComment_str.mpr ⟨ha, rfl⟩) (ih.mpr ⟨hl, rfl⟩)

/-- Going through a value gives comments exactly if it is taken for them. -/
theorem takenComments_iff {w : Json} {cs : List Comment} :
    (∃ vs, elements w = .ok vs ∧ List.Forall₂ TakenComment vs cs) ↔ TakenComments w cs := by
  constructor
  · rintro ⟨vs, hvs, hcs⟩
    rcases elements_eq_ok hvs with rfl | ⟨t, rfl, rfl⟩ | ⟨fs, rfl, rfl⟩
    · exact .inl ⟨vs, rfl, hcs⟩
    · -- a text of one code point is not empty
      obtain ⟨hempty, rfl⟩ := forall₂_takenComment_map_str.mp hcs
      obtain rfl : t = [] := List.eq_nil_iff_forall_not_mem.mpr fun c hc => by simpa using hempty c hc
      exact .inr (.inl ⟨.inl rfl, rfl⟩)
    · obtain ⟨hempty, rfl⟩ := forall₂_takenComment_map_str.mp hcs
      exact .inr (.inr ⟨fs, rfl, hempty, rfl⟩)
  · rintro (⟨vs, rfl, hcs⟩ | ⟨rfl | rfl, rfl⟩ | ⟨fs, rfl, hempty, rfl⟩)
    · exact ⟨vs, rfl, hcs⟩
    · exact ⟨[], rfl, .nil⟩
    · exact ⟨[], rfl, .nil⟩
    · exact ⟨fs.map fun f => .str f.1, rfl,
        (forall₂_takenComment_map_str (f := Prod.fst)).mpr ⟨hempty, rfl⟩⟩

/-! The whole artifact. -/

theorem takenComments_array_nil {cs : List Comment} : TakenComments (.array []) cs ↔ cs = [] := by
  rw [← takenComments_iff]
  constructor
  · rintro ⟨vs, hvs, hcs⟩
    cases hvs
    cases hcs
    rfl
  · rintro rfl
    exact ⟨[], rfl, .nil⟩

/-- The comments that are read once the version is known. -/
theorem readComments_eq_ok {w : Json} {tree : TokenTree} :
    (do let vs ← elements w
        let comments ← vs.mapM readComment
        .ok ⟨comments⟩ : Read TokenTree) = .ok tree ↔ TakenComments w tree.comments := by
  simp only [bind_eq_ok, mapM_eq_ok, readComment_eq_ok_iff_taken, ← takenComments_iff]
  constructor
  · rintro ⟨vs, hvs, cs, hcs, h⟩
    cases h
    exact ⟨vs, hvs, hcs⟩
  · rintro ⟨vs, hvs, hcs⟩
    exact ⟨vs, hvs, tree.comments, hcs, rfl⟩

theorem comments_getD {o : Option Json} {cs : List Comment} :
    TakenComments (o.getD (.array [])) cs ↔
      o = none ∧ cs = [] ∨ ∃ w, o = some w ∧ TakenComments w cs := by
  cases o with
  | none => simp [takenComments_array_nil]
  | some w => simp

theorem ofJson_eq_ok {v : Json} {tree : TokenTree} : ofJson v = .ok tree ↔ Taken v tree := by
  constructor
  · intro h
    cases v with
    | object fs =>
      refine ⟨fs, rfl, ?_⟩
      unfold ofJson at h
      dsimp only at h
      split at h
      · rename_i version' hversion
        split at h
        · rename_i heq
          rw [hversion, heq]
          exact ⟨rfl, comments_getD.mp (readComments_eq_ok.mp h)⟩
        · cases h
      · cases h
    | null | bool | int | float | str | array => cases h
  · rintro ⟨fs, rfl, hversion, hcomments⟩
    unfold ofJson
    simp only [hversion, ↓reduceIte]
    exact readComments_eq_ok.mpr (comments_getD.mpr hcomments)

/-! Refusals. -/

theorem faultless_elements (v : Json) : Faultless (elements v) := by
  unfold elements
  split
  · exact faultless_ok _
  · exact faultless_ok _
  · exact faultless_ok _
  · exact faultless_refused _

theorem faultless_readToken (v : Json) : Faultless (readToken v) := by
  unfold readToken
  dsimp only
  split
  · split
    · exact faultless_refused _
    · exact faultless_refused _
    · split
      · exact faultless_ok _
      · exact faultless_refused _
  · exact faultless_refused _

theorem faultless_readComment (v : Json) : Faultless (readComment v) := by
  refine (faultless_elements v).bind fun vs => ?_
  refine (faultless_mapM faultless_readToken vs).bind fun tokens => ?_
  exact faultless_ok _

/-- A JSON value is taken or refused. -/
theorem faultless_ofJson (v : Json) : Faultless (ofJson v) := by
  unfold ofJson
  split
  · split
    · split
      · refine (faultless_elements _).bind fun vs => ?_
        refine (faultless_mapM faultless_readComment vs).bind fun comments => ?_
        exact faultless_ok _
      · exact faultless_refused _
    · exact faultless_refused _
  · exact faultless_refused _

/-! The format. -/

theorem IsVacant.standsIn {v : Json} (h : IsVacant v) : StandsIn v := by
  rcases h with rfl | rfl
  · exact .inl ⟨[], rfl⟩
  · exact .inr ⟨[], rfl⟩

theorem TakenComment.isComment {v : Json} {c : Comment} (hv : ¬ StandsIn v)
    (h : TakenComment v c) : IsComment v c := by
  rcases h with h | ⟨h, -⟩
  · exact h
  · exact absurd h.standsIn hv

/-- Where nothing stands in for an array, what is taken for comments is an array of them. -/
theorem TakenComments.isArrayOf {w : Json} {cs : List Comment} (hw : ¬ StandsIn w)
    (hitems : ∀ vs, w = .array vs → ∀ x ∈ vs, ¬ StandsIn x) (h : TakenComments w cs) :
    IsArrayOf IsComment w cs := by
  rcases h with ⟨vs, rfl, hvs⟩ | ⟨h, -⟩ | ⟨fs, rfl, -⟩
  · refine ⟨vs, rfl, ?_⟩
    have hboth := (List.forall₂_and_left _ _).mpr ⟨hitems vs rfl, hvs⟩
    exact hboth.imp fun x c ⟨hx, hc⟩ => hc.isComment hx
  · exact absurd h.standsIn hw
  · exact absurd (.inr ⟨fs, rfl⟩) hw

theorem taken_of_inFormat {v : Json} {tree : TokenTree} (h : InFormat v tree) : Taken v tree := by
  obtain ⟨fs, hv, hversion, hnone | ⟨w, hw, vs, rfl, hvs⟩⟩ := h
  · exact ⟨fs, hv, hversion, .inl hnone⟩
  · exact ⟨fs, hv, hversion, .inr ⟨_, hw, .inl ⟨vs, rfl, hvs.imp fun _ _ => .inl⟩⟩⟩

theorem inFormat_of_taken {v : Json} {tree : TokenTree} (hv : ArraysOnly v) (h : Taken v tree) :
    InFormat v tree := by
  obtain ⟨fs, rfl, hversion, hnone | ⟨w, hw, htaken⟩⟩ := h
  · exact ⟨fs, rfl, hversion, .inl hnone⟩
  · obtain ⟨hstands, hitems⟩ := hv fs w rfl hw
    exact ⟨fs, rfl, hversion, .inr ⟨w, hw, htaken.isArrayOf hstands hitems⟩⟩

/-- A text is read as an artifact exactly if its JSON value is taken for one, and then gives that
tree: all values in the format are, and no others where no text or object stands in the place of an
array. Any other text is refused, except that the limits of the JSON reader are faults. -/
theorem deserialize_by_format (t : Text) :
    match Json.read t with
    | .ok v =>
      (∀ tree, deserialize t = .ok tree ↔ Taken v tree) ∧
        (∀ tree, InFormat v tree → Taken v tree) ∧
        (ArraysOnly v → ∀ tree, Taken v tree → InFormat v tree) ∧
        ((∀ tree, ¬ Taken v tree) → ∃ e, deserialize t = .error (.refused e))
    | .error .malformed => deserialize t = .error (.refused .malformedJson)
    | .error .oversized => deserialize t = .error (.fault .oversizedInteger)
    | .error .tooDeep => deserialize t = .error (.fault .tooDeep) := by
  cases hread : Json.read t with
  | error e => cases e <;> simp only [deserialize, hread]
  | ok v =>
    have hvalue : deserialize t = ofJson v := by rw [deserialize, hread]
    dsimp only
    rw [hvalue]
    refine ⟨fun tree => ofJson_eq_ok, fun tree => taken_of_inFormat, ?_, ?_⟩
    · intro harrays tree htaken
      exact inFormat_of_taken harrays htaken
    · intro hnone
      refine exists_refused_of_faultless (faultless_ofJson v) fun tree htree => ?_
      exact hnone tree (ofJson_eq_ok.mp htree)

/-- An artifact whose comments are an empty text. -/
def vacantArtifact : Text := text "\x7b\"v\":\"1\",\"comments\":\"\"\x7d"

theorem read_vacantArtifact :
    Json.read vacantArtifact =
      .ok (.object [(text "v", .str version), (text "comments", .str [])]) := by
  cbv

/-- An integer of `n` digits. -/
def longInteger (n : Nat) : Text := List.replicate n (.char '1')

theorem longInteger_succ (n : Nat) : longInteger (n + 1) = .char '1' :: longInteger n := rfl

theorem cutDigits_longInteger (n : Nat) :
    Json.cutDigits (longInteger n) = (List.replicate n '1', []) := by
  induction n with
  | zero => rfl
  | succ n ih =>
    rw [longInteger_succ, Json.cutDigits, ih]
    rfl

theorem readNumber_longInteger {n : Nat} (h : maxDigits < n + 1) :
    Json.readNumber false (longInteger (n + 1)) = .error .oversized := by
  have hcut : Json.cutInteger (longInteger (n + 1)) = some (List.replicate (n + 1) '1', []) := by
    rw [longInteger_succ, Json.cutInteger, ← longInteger_succ, cutDigits_longInteger]
    · rfl
    · simp
  simp [Json.readNumber, hcut, Json.cutFraction, Json.cutExponent, h]

theorem read_longInteger {n : Nat} (h : maxDigits < n + 1) :
    Json.read (longInteger (n + 1)) = .error .oversized := by
  have hgap : Json.skipGap (longInteger (n + 1)) = longInteger (n + 1) := rfl
  have hword : Json.readWord (longInteger (n + 1)) = none := rfl
  have hnumber := readNumber_longInteger h
  rw [longInteger_succ] at hgap hword hnumber
  rw [longInteger_succ, Json.read, hgap]
  simp [Json.readValue, hword, hnumber, bind, Except.bind]

/-- An empty text in the place of the comments is taken, although it is not in the format; and an
integer that is too long for the JSON reader is neither taken nor refused. -/
theorem deserialize_beyond_format :
    (¬ ∀ t v tree, Json.read t = .ok v → (deserialize t = .ok tree ↔ InFormat v tree)) ∧
      ¬ ∀ t, (∃ tree, deserialize t = .ok tree) ∨ ∃ e, deserialize t = .error (.refused e) := by
  constructor
  · intro h
    have htaken : deserialize vacantArtifact = .ok ⟨[]⟩ := ok_of_toOption (by decide +kernel)
    obtain ⟨fs, hfs, -, hcomments⟩ := (h _ _ _ read_vacantArtifact).mp htaken
    cases hfs
    rcases hcomments with ⟨hnone, -⟩ | ⟨w, hw, vs, hvs, -⟩
    · cases hnone
    · cases hw
      cases hvs
  · intro h
    have hfault : deserialize (longInteger (maxDigits + 1)) = .error (.fault .oversizedInteger) := by
      rw [deserialize, read_longInteger (Nat.lt_succ_self maxDigits)]
    rcases h (longInteger (maxDigits + 1)) with ⟨tree, htree⟩ | ⟨e, he⟩
    · rw [hfault] at htree
      cases htree
    · rw [hfault] at he
      cases he

end Artifact
end CommentTags
