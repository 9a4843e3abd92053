import CommentTags.Artifact
import CommentTags.Proofs.Files
import CommentTags.Proofs.JsonRoundTrip

/-!
A tree read back from its artifact. What comes back is the tree with the halves of its texts
joined, which is the tree itself if its texts are made of characters.
-/

namespace CommentTags

def CodePoint.isChar : CodePoint → Bool
  | .char _ => true
  | .half _ => false

/-- A text without halves. -/
def Text.isScalar (t : Text) : Bool := t.all CodePoint.isChar

namespace Token

/-- Every text that a token holds. -/
def texts (t : Token) : List Text :=
  [t.label, t.content] ++ t.description.toList ++ t.types.getD [] ++ t.names.getD [] ++
    t.argName.toList

def mapTexts (f : Text → Text) (t : Token) : Token :=
  { label := f t.label
    content := f t.content
    description := t.description.map f
    types := t.types.map (·.map f)
    names := t.names.map (·.map f)
    argName := t.argName.map f }

end Token

namespace TokenTree

def isScalar (tree : TokenTree) : Bool :=
  tree.comments.all fun c => c.children.all fun t => t.texts.all Text.isScalar

def mapTexts (f : Text → Text) (tree : TokenTree) : TokenTree :=
  ⟨tree.comments.map fun c => ⟨c.children.map (·.mapTexts f)⟩⟩

end TokenTree

@[simp]
theorem text_inj {a b : String} : text a = text b ↔ a = b := by
  simp [text, List.map_inj_right, String.toList_inj]

theorem joinHalves_text (s : String) : (text s).joinHalves = text s := Text.joinHalves_map_char _

theorem joinHalves_of_isScalar {t : Text} (h : t.isScalar) : t.joinHalves = t := by
  induction t with
  | nil => rfl
  | cons u t ih =>
    simp only [Text.isScalar, List.all_cons, Bool.and_eq_true] at h
    cases u with
    | char c => rw [Json.joinHalves_cons, Json.consUnit_char, ih h.2]
    | half k => cases h.1

theorem Token.mapTexts_eq_self {f : Text → Text} {t : Token} (h : ∀ x ∈ t.texts, f x = x) :
    t.mapTexts f = t := by
  have hopt {o : Option Text} (ho : ∀ x ∈ o.toList, f x = x) : o.map f = o := by
    cases o with
    | none => rfl
    | some x => rw [Option.map_some, ho x (by simp)]
  have hlist {o : Option (List Text)} (ho : ∀ x ∈ o.getD [], f x = x) : o.map (·.map f) = o := by
    cases o with
    | none => rfl
    | some xs =>
      rw [Option.getD_some] at ho
      rw [Option.map_some, List.map_congr_left ho, List.map_id']
  unfold mapTexts
  rw [h t.label (by simp [texts]), h t.content (by simp [texts]),
    hopt fun x hx => h x (by simp [texts, hx]), hlist fun x hx => h x (by simp [texts, hx]),
    hlist fun x hx => h x (by simp [texts, hx]), hopt fun x hx => h x (by simp [texts, hx])]

theorem TokenTree.mapTexts_eq_self {f : Text → Text} {tree : TokenTree}
    (h : ∀ c ∈ tree.comments, ∀ t ∈ c.children, ∀ x ∈ t.texts, f x = x) :
    tree.mapTexts f = tree := by
  have hcomment : ∀ c ∈ tree.comments, (⟨c.children.map (·.mapTexts f)⟩ : Comment) = c := by
    intro c hc
    rw [List.map_congr_left fun t ht => Token.mapTexts_eq_self (h c hc t ht), List.map_id']
  rw [mapTexts, List.map_congr_left hcomment, List.map_id']

/-! Fields that may be missing. -/

namespace Json

@[simp]
theorem lookup_cons (k key : Text) (v : Json) (fs : List (Text × Json)) :
    lookup k ((key, v) :: fs) = if k = key then some v else lookup k fs := by
  by_cases h : k = key
  · simp [lookup, h]
  · simp [lookup, List.lookup_cons, h, beq_false_of_ne h]

@[simp]
theorem lookup_append (k : Text) (fs gs : List (Text × Json)) :
    lookup k (fs ++ gs) = (lookup k fs).or (lookup k gs) :=
  List.lookup_append

@[simp]
theorem lookup_nil (k : Text) : lookup k [] = none := rfl

@[simp]
theorem lookup_optional {α : Type} (k key : Text) (f : α → Json) (o : Option α) :
    lookup k (o.map fun a => (key, f a)).toList = if k = key then o.map f else none := by
  cases o with
  | none => simp [lookup_nil]
  | some a => simp [lookup_cons, lookup_nil]

end Json

@[simp]
theorem optional_map_str (field : Text) (o : Option Text) :
    LooseToken.optional field (o.map .str) = .ok o := by
  cases o <;> rfl

theorem items_map_str (field : Text) (i : Nat) (ts : List Text) :
    LooseToken.items field i (ts.map .str) = .ok ts := by
  induction ts generalizing i with
  | nil => rfl
  | cons t ts ih => simp [LooseToken.items, ih]

@[simp]
theorem optionalList_map_str (field : Text) (o : Option (List Text)) :
    LooseToken.optionalList field (o.map fun ts => .array (ts.map .str)) = .ok o := by
  cases o with
  | none => rfl
  | some ts => simp [LooseToken.optionalList, items_map_str, Except.map]

namespace Artifact

theorem readToken_toFields (t : Token) : readToken (.object t.toFields) = .ok t := by
  simp [readToken, Token.toFields, LooseToken.check, LooseToken.required]

theorem mapM_map_ok {α β : Type} {f : β → Read α} {g : α → β} (h : ∀ x, f (g x) = .ok x)
    (l : List α) : (l.map g).mapM f = .ok l := by
  induction l with
  | nil => rfl
  | cons x l ih =>
    rw [List.map_cons, List.mapM_cons, h, ih]
    rfl

theorem readComment_toFields (c : Comment) :
    readComment (.array (c.children.map fun t => .object t.toFields)) = .ok c := by
  simp only [readComment, elements, mapM_map_ok readToken_toFields, bind, Except.bind]

/-- The JSON of a tree says what the tree is. -/
theorem ofJson_toJson (tree : TokenTree) (source : Option Text) :
    ofJson (toJson tree source) = .ok tree := by
  simp [toJson, ofJson, elements, mapM_map_ok readComment_toFields, bind, Except.bind]

/-! The JSON of a tree reads back. -/

/-- Items that read back one by one read back as an array. -/
theorem readsBack_map {α : Type} {d : Nat} {f : α → Json} {g : α → α}
    (h : ∀ a, Json.ReadsBack d (f a) (f (g a))) (l : List α) :
    Json.ReadsBack (d + 1) (.array (l.map f)) (.array ((l.map g).map f)) := by
  apply Json.readsBack_array
  rw [List.map_map, List.forall₂_map_left_iff, List.forall₂_map_right_iff, List.forall₂_same]
  exact fun a _ => h a

theorem readsBack_strings (ts : List Text) :
    Json.ReadsBack 1 (.array (ts.map .str)) (.array ((ts.map Text.joinHalves).map .str)) :=
  readsBack_map (Json.readsBack_str 0) ts

theorem fieldsReadBack_optional {α : Type} {d : Nat} (key : String) {f : α → Json} {g : α → α}
    (h : ∀ a, Json.ReadsBack d (f a) (f (g a))) (o : Option α) :
    List.Forall₂ (Json.FieldReadsBack d) (o.map fun a => (text key, f a)).toList
      ((o.map g).map fun a => (text key, f a)).toList := by
  cases o with
  | none => exact .nil
  | some a => exact .cons ⟨joinHalves_text key, h a⟩ .nil

/-- The key of a field is there at most once. -/
theorem keys_optional_sublist {α : Type} (key : Text) (f : α → Json) (o : Option α) :
    ((o.map fun a => (key, f a)).toList.map Prod.fst).Sublist [key] := by
  cases o with
  | none => exact List.nil_sublist _
  | some a => exact List.Sublist.refl _

theorem nodup_keys_toFields (t : Token) : (t.toFields.map Prod.fst).Nodup := by
  have hsub : (t.toFields.map Prod.fst).Sublist
      (["label", "content", "description", "type", "name", "argName"].map text) := by
    simp only [Token.toFields, List.map_append]
    exact (((((List.Sublist.refl _).append (keys_optional_sublist _ _ _)).append
      (keys_optional_sublist _ _ _)).append (keys_optional_sublist _ _ _)).append
      (keys_optional_sublist _ _ _))
  exact hsub.nodup (by decide)

theorem readsBack_toFields (t : Token) :
    Json.ReadsBack 2 (.object t.toFields) (.object (t.mapTexts Text.joinHalves).toFields) := by
  have hstr (x : Text) : Json.ReadsBack 1 (.str x) (.str x.joinHalves) := Json.readsBack_str 1 x
  refine Json.readsBack_object ?_ (nodup_keys_toFields _)
  refine List.rel_append (List.rel_append (List.rel_append (List.rel_append ?_
    (fieldsReadBack_optional _ hstr _)) (fieldsReadBack_optional _ readsBack_strings _))
    (fieldsReadBack_optional _ readsBack_strings _)) (fieldsReadBack_optional _ hstr _)
  exact .cons ⟨joinHalves_text _, hstr _⟩ (.cons ⟨joinHalves_text _, hstr _⟩ .nil)

theorem readsBack_toJson (tree : TokenTree) (source : Option Text) :
    Json.ReadsBack 5 (toJson tree source)
      (toJson (tree.mapTexts Text.joinHalves) (source.map Text.joinHalves)) := by
  apply Json.readsBack_object
  · refine List.rel_append (List.rel_append ?_
      (fieldsReadBack_optional _ (Json.readsBack_str 4) _)) ?_
    · exact .cons ⟨joinHalves_text _, Json.readsBack_str 4 _⟩ .nil
    · refine .cons ⟨joinHalves_text _, ?_⟩ .nil
      refine readsBack_map (fun c => ?_) tree.comments
      exact readsBack_map readsBack_toFields c.children
  · have hsub : List.Sublist _ (["v", "source", "comments"].map text) :=
      ((List.Sublist.refl [text "v"]).append
        (keys_optional_sublist (text "source") Json.str (source.map Text.joinHalves))).append
        (List.Sublist.refl [text "comments"])
    simpa using hsub.nodup (by decide)

theorem toList_serialize (tree : TokenTree) (source : Option Text) :
    (serialize tree source).toList = (toJson tree source).render := by
  simp [serialize]

/-- **Trees read back** with the halves of their texts joined. -/
theorem deserialize_serialize (tree : TokenTree) (source : Option Text) :
    deserialize (text (serialize tree source)) = .ok (tree.mapTexts Text.joinHalves) := by
  have hread : Json.read (text (serialize tree source)) =
      .ok (toJson (tree.mapTexts Text.joinHalves) (source.map Text.joinHalves)) := by
    rw [text, toList_serialize]
    exact Json.read_render (readsBack_toJson tree source) (by decide)
  rw [deserialize, hread]
  exact ofJson_toJson _ _

theorem mapTexts_joinHalves_of_isScalar {tree : TokenTree} (h : tree.isScalar) :
    tree.mapTexts Text.joinHalves = tree := by
  apply TokenTree.mapTexts_eq_self
  intro c hc t ht x hx
  simp only [TokenTree.isScalar, List.all_eq_true] at h
  exact joinHalves_of_isScalar (h c hc t ht x hx)

theorem render_array_map {α : Type} {f : α → Json} {g : α → α}
    (h : ∀ a, (f (g a)).render = (f a).render) (l : List α) :
    (Json.array ((l.map g).map f)).render = (Json.array (l.map f)).render := by
  have hitems : Json.renderItems ((l.map g).map f) = Json.renderItems (l.map f) := by
    apply Json.renderItems_congr
    rw [List.map_map, List.forall₂_map_left_iff, List.forall₂_map_right_iff, List.forall₂_same]
    exact fun a _ => h a
  rw [Json.render, Json.render, hitems]

theorem render_optional {α : Type} (key : Text) {f : α → Json} {g : α → α}
    (h : ∀ a, (f (g a)).render = (f a).render) (o : Option α) :
    List.Forall₂ (fun x y => x.1 = y.1 ∧ x.2.render = y.2.render)
      ((o.map g).map fun a => (key, f a)).toList (o.map fun a => (key, f a)).toList := by
  cases o with
  | none => exact .nil
  | some a => exact .cons ⟨rfl, h a⟩ .nil

theorem render_toFields (t : Token) :
    (Json.object (t.mapTexts Text.joinHalves).toFields).render =
      (Json.object t.toFields).render := by
  have hstr := Json.render_str_joinHalves
  have hstrings (ts : List Text) : (Json.array ((ts.map Text.joinHalves).map .str)).render =
      (Json.array (ts.map .str)).render := render_array_map hstr ts
  have hfields : Json.renderFields (t.mapTexts Text.joinHalves).toFields =
      Json.renderFields t.toFields := by
    apply Json.renderFields_congr
    refine List.rel_append (List.rel_append (List.rel_append (List.rel_append ?_
      (render_optional _ hstr _)) (render_optional _ hstrings _)) (render_optional _ hstrings _))
      (render_optional _ hstr _)
    exact .cons ⟨rfl, hstr _⟩ (.cons ⟨rfl, hstr _⟩ .nil)
  rw [Json.render, Json.render, hfields]

/-- Joining halves does not change what is written: the tree that is read back has the same
artifact. -/
theorem serialize_joinHalves (tree : TokenTree) (source : Option Text) :
    serialize (tree.mapTexts Text.joinHalves) source = serialize tree source := by
  have hcomments :
      (Json.array ((tree.mapTexts Text.joinHalves).comments.map fun c =>
        .array (c.children.map fun t => .object t.toFields))).render =
      (Json.array (tree.comments.map fun c =>
        .array (c.children.map fun t => .object t.toFields))).render :=
    render_array_map (fun c => render_array_map render_toFields c.children) tree.comments
  have hfields : (toJson (tree.mapTexts Text.joinHalves) source).render =
      (toJson tree source).render := by
    rw [toJson, toJson, Json.render, Json.render]
    congr 2
    apply Json.renderFields_congr
    refine List.rel_append ?_ (.cons ⟨rfl, hcomments⟩ .nil)
    exact List.forall₂_same.mpr fun _ _ => ⟨rfl, rfl⟩
  rw [serialize, serialize, hfields]

theorem isPlainChar_of_mem_serialize {tree : TokenTree} {source : Option Text} {c : Char}
    (h : c ∈ (serialize tree source).toList) : Json.isPlainChar c := by
  rw [toList_serialize] at h
  exact (readsBack_toJson tree source).plain c h

/-- An artifact is read as what its text says. -/
theorem ofFile_of_read {fs : FileSystem} {p : Path} {tree : TokenTree} {source : Option Text}
    (h : fs.read p = .ok (encodeFile (serialize tree source))) :
    ofFile fs p = deserialize (text (serialize tree source)) := by
  have hbreaks : unifyBreaks (serialize tree source).toList = (serialize tree source).toList := by
    apply unifyBreaks_of_no_return
    rintro c hc rfl
    cases isPlainChar_of_mem_serialize hc
  simp only [ofFile, h, decodeFile_encodeFile, hbreaks]
  rfl

theorem ofFile_write {fs : FileSystem} {p : Path} {tree : TokenTree} {source : Option Text}
    (h : (write fs p tree source).failure = none) :
    ofFile (write fs p tree source).fs p = deserialize (text (serialize tree source)) :=
  ofFile_of_read (FileSystem.read_of_writeDeep h)

/-- A tree of scalar texts comes back from its artifact, whatever source the artifact names. The
artifact is printable ASCII; it can be written wherever an empty file can, and the tree comes back
from the file. -/
theorem tree_of_artifact (tree : TokenTree) (source : Option Text) (h : tree.isScalar) :
    deserialize (text (serialize tree source)) = .ok tree ∧
      (∀ c ∈ (serialize tree source).toList, 0x20 ≤ c.toNat ∧ c.toNat < 0x7F) ∧
      ∀ fs p, (fs.writeDeep p []).failure = none →
        (write fs p tree source).failure = none ∧
          ofFile (write fs p tree source).fs p = .ok tree := by
  have hback : deserialize (text (serialize tree source)) = .ok tree := by
    rw [deserialize_serialize, mapTexts_joinHalves_of_isScalar h]
  refine ⟨hback, ?_, ?_⟩
  · intro c hc
    simpa [Json.isPlainChar] using isPlainChar_of_mem_serialize hc
  · intro fs p hempty
    have hwritten : (write fs p tree source).failure = none :=
      (FileSystem.failure_writeDeep fs p _ _).trans hempty
    exact ⟨hwritten, by rw [ofFile_write hwritten, hback]⟩

/-- A comment without tokens, and a token with an empty label, an empty list and a content that
the artifact holds as escapes only. -/
theorem tree_of_artifact_escapes :
    let token : Token := { label := [], content := text "\"\\\r\x00\x7f😀", types := some [] }
    let tree : TokenTree := ⟨[⟨[]⟩, ⟨[token]⟩]⟩
    let p : Path := { parts := [text "out", text "a.doctag.json"] }
    tree.isScalar ∧ deserialize (text (serialize tree none)) = .ok tree ∧
      (write {} p tree none).failure = none ∧ ofFile (write {} p tree none).fs p = .ok tree := by
  intro token tree p
  have hscalar : tree.isScalar := by decide
  obtain ⟨hback, -, hfile⟩ := tree_of_artifact tree none hscalar
  exact ⟨hscalar, hback, hfile {} p rfl⟩

end Artifact

end CommentTags
