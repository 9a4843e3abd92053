import Mathlib.Data.List.TakeWhile
import CommentTags.Proofs.TokenInvariants
import CommentTags.Proofs.TagStarts

/-!
A comment under another marker. The grammar asks of a code point whether it is blank, a word
character, one of a few signs, or the marker; so a change of code points that keeps the answers, and
takes the marker to the other one, changes nothing but the code points themselves. All that does not
depend on the marker is treated first, for any such change.
-/

namespace CommentTags

/-- The signs that mean something in a comment, whatever the marker is, and the space that cleaning
puts between words. -/
def grammarSigns : List CodePoint :=
  [.char ' ', .char '*', .char '/', .char '{', .char '}', .char '.', .char '-', .char '_']

/-- A change of code points that the grammar cannot see. -/
structure Neutral (f : CodePoint → CodePoint) : Prop where
  blank : ∀ c, (f c).isBlank = c.isBlank
  word : ∀ c, (f c).isWord = c.isWord
  sign : ∀ x ∈ grammarSigns, ∀ c, f c = x ↔ c = x

namespace Neutral

variable {f : CodePoint → CodePoint}

theorem map_sign (hf : Neutral f) {x : CodePoint} (hx : x ∈ grammarSigns) : f x = x :=
  (hf.sign x hx x).mpr rfl

theorem decide_sign (hf : Neutral f) {x : CodePoint} (hx : x ∈ grammarSigns) (c : CodePoint) :
    decide (f c = x) = decide (c = x) :=
  decide_eq_decide.mpr (hf.sign x hx c)

theorem label (hf : Neutral f) (c : CodePoint) : (f c).isLabel = c.isLabel := by
  simp only [CodePoint.isLabel, hf.word, hf.decide_sign (x := .char '.') (by decide),
    hf.decide_sign (x := .char '-') (by decide)]

theorem brace (hf : Neutral f) (c : CodePoint) : (f c).isBrace = c.isBrace := by
  simp only [CodePoint.isBrace, hf.decide_sign (x := .char '{') (by decide),
    hf.decide_sign (x := .char '}') (by decide)]

theorem name (hf : Neutral f) (c : CodePoint) : (f c).isName = c.isName := by
  simp only [CodePoint.isName, hf.blank, hf.brace]

end Neutral

/-- In this text the change takes the marker `k` to `k'`, and nothing else. -/
def TakesMarker (f : CodePoint → CodePoint) (k k' : CodePoint) (t : Text) : Prop :=
  ∀ c ∈ t, f c = k' ↔ c = k

theorem TakesMarker.suffix {f : CodePoint → CodePoint} {k k' : CodePoint} {t u : Text}
    (h : TakesMarker f k k' t) (hu : u <:+ t) : TakesMarker f k k' u :=
  fun c hc => h c (hu.mem hc)

theorem takeWhile_map_of_keeps {f : CodePoint → CodePoint} {p : CodePoint → Bool}
    (h : ∀ c, p (f c) = p c) (t : Text) : (t.map f).takeWhile p = (t.takeWhile p).map f := by
  rw [List.takeWhile_map, show p ∘ f = p from funext h]

theorem dropWhile_map_of_keeps {f : CodePoint → CodePoint} {p : CodePoint → Bool}
    (h : ∀ c, p (f c) = p c) (t : Text) : (t.map f).dropWhile p = (t.dropWhile p).map f := by
  rw [List.dropWhile_map, show p ∘ f = p from funext h]

theorem nonempty?_map (f : CodePoint → CodePoint) (t : Text) :
    nonempty? (t.map f) = (nonempty? t).map (List.map f) := by
  cases t <;> rfl

/-- A segment is closed if the first brace is a closing one. -/
theorem cutSegment_eq (t : Text) :
    cutSegment t =
      if (t.dropWhile (!·.isBrace)).head? = some (.char '}') then
        some (t.takeWhile (!·.isBrace), (t.dropWhile (!·.isBrace)).tail)
      else none := by
  unfold cutSegment
  split
  · rename_i after heq
    rw [heq]
    rfl
  · rename_i hne
    rw [if_neg]
    intro hhead
    obtain ⟨after, hafter⟩ := List.head?_eq_some_iff.mp hhead
    exact hne after hafter

theorem afterAnnotations_cons (r : Text) :
    afterAnnotations (.char '{' :: r) =
      match cutSegment r with
      | some cut => afterAnnotations cut.2.trimLeft
      | none => .char '{' :: r := by
  rw [afterAnnotations]
  split
  · rename_i hcut
    rw [hcut]
  · rename_i hcut
    rw [hcut]

theorem cutAt_map {f : CodePoint → CodePoint} {stop stop' : Option CodePoint → Text → Bool}
    {t : Text} (h : ∀ prev u, u <:+ t → stop' (prev.map f) (u.map f) = stop prev u)
    (prev : Option CodePoint) :
    cutAt stop' (prev.map f) (t.map f) =
      ((cutAt stop prev t).1.map f, (cutAt stop prev t).2.map f) := by
  induction t generalizing prev with
  | nil => rfl
  | cons c t ih =>
    have hhere := h prev (c :: t) (List.suffix_refl _)
    have hrest := ih (fun prev u hu => h prev u (hu.trans (List.suffix_cons c t))) (some c)
    rw [List.map_cons] at hhere
    rw [Option.map_some] at hrest
    simp only [List.map_cons, cutAt, hhere, hrest]
    split <;> rfl

theorem cutOpener_eq (t : Text) :
    cutOpener t =
      let rest := t.dropWhile CodePoint.isBlank
      if (text "/*").isPrefixOf rest then
        (t.takeWhile CodePoint.isBlank ++ rest.take 2 ++ (rest.drop 2).takeWhile (· = .char '*'),
          (rest.drop 2).dropWhile (· = .char '*'))
      else (t.takeWhile CodePoint.isBlank, rest) := by
  unfold cutOpener
  dsimp only
  split
  · rename_i r hrest
    have hopener : (text "/*").isPrefixOf (.char '/' :: .char '*' :: r) := rfl
    rw [hrest, if_pos hopener]
    simp
  · rename_i hne
    rw [if_neg]
    intro hopener
    obtain ⟨r, hr⟩ := List.isPrefixOf_iff_prefix.mp hopener
    exact hne r hr.symm

theorem cutOpener_suffix (t : Text) : (cutOpener t).2 <:+ t := by
  rw [cutOpener_eq]
  dsimp only
  split
  · exact ((List.dropWhile_suffix _).trans (List.drop_suffix _ _)).trans (List.dropWhile_suffix _)
  · exact List.dropWhile_suffix _

namespace Settings

variable (s : Settings) (k : CodePoint)

def withMarker : Settings := { s with marker := [k] }

@[simp] theorem withMarker_marker : (s.withMarker k).marker = [k] := rfl

@[simp] theorem withMarker_placeholder : (s.withMarker k).placeholder = s.placeholder := rfl

@[simp] theorem withMarker_defaultType : (s.withMarker k).defaultType = s.defaultType := rfl

@[simp] theorem withMarker_requires (label : Text) :
    (s.withMarker k).requires label = s.requires label := rfl

end Settings

def annotationMap (f : CodePoint → CodePoint) (a : Annotation) : Annotation :=
  ⟨a.type.map f, a.name.map (List.map f)⟩

def RawTag.map (f : CodePoint → CodePoint) (g : RawTag) : RawTag := ⟨g.label.map f, g.content.map f⟩

/-- The token after a change of code points. Its label stays. The type of an empty annotation stands
in no text: it is the default one, and stays too. -/
def Token.renamed (f : CodePoint → CodePoint) (t : Token) : Token :=
  { label := t.label
    content := t.content.map f
    description := t.description.map (List.map f)
    types := t.types.map <| List.zipWith (fun a type => if a.type.isEmpty then type else type.map f)
      (annotations t.content)
    names := t.names.map (List.map (List.map f))
    argName := t.argName.map (List.map f) }

theorem types_map (f : CodePoint → CodePoint) (found : List Annotation) (default : Text) :
    (found.map (annotationMap f)).map (fun a => (nonempty? a.type).getD default) =
      List.zipWith (fun a type => if a.type.isEmpty then type else type.map f) found
        (found.map fun a => (nonempty? a.type).getD default) := by
  rw [List.zipWith_map_right, List.zipWith_self, List.map_map]
  apply List.map_congr_left
  intro a _
  rw [Function.comp_apply, annotationMap, nonempty?_map]
  cases a.type <;> rfl

section Neutral

variable {f : CodePoint → CodePoint} (hf : Neutral f) {k k' : CodePoint}

include hf

/-! Cleaning. -/

theorem isPrefixOf_map {p : Text} (hp : ∀ x ∈ p, x ∈ grammarSigns) (t : Text) :
    p.isPrefixOf (t.map f) = p.isPrefixOf t := by
  induction p generalizing t with
  | nil => simp
  | cons x p ih =>
    obtain ⟨hx, hp⟩ := List.forall_mem_cons.mp hp
    cases t with
    | nil => rfl
    | cons c t =>
      have hsame : (x == f c) = (x == c) := by
        rw [Bool.eq_iff_iff, beq_iff_eq, beq_iff_eq, eq_comm, hf.sign x hx, eq_comm]
      simp only [List.map_cons, List.isPrefixOf, hsame, ih hp]

theorem removeFrom_map {p : Text} (hp : ∀ x ∈ p, x ∈ grammarSigns) (n : Nat) (t : Text) :
    Text.removeFrom p n (t.map f) = (Text.removeFrom p n t).map f := by
  induction t generalizing n with
  | nil => simp [Text.removeFrom]
  | cons c t ih =>
    cases n with
    | succ n => exact ih n
    | zero =>
      have hsame : p.isPrefixOf (f c :: t.map f) = p.isPrefixOf (c :: t) :=
        isPrefixOf_map hf hp (c :: t)
      simp only [List.map_cons, Text.removeFrom, hsame]
      split
      · exact ih _
      · rw [ih, List.map_cons]

theorem wordsFrom_map (run t : Text) :
    Text.wordsFrom (run.map f) (t.map f) = (Text.wordsFrom run t).map (List.map f) := by
  have hflush : ∀ run : Text, Text.flush (run.map f) = (Text.flush run).map (List.map f) := by
    intro run
    cases run <;> simp [Text.flush]
  induction t generalizing run with
  | nil => exact hflush run
  | cons c t ih =>
    simp only [List.map_cons, Text.wordsFrom, hf.blank]
    split
    · rw [hflush, ← List.map_nil (f := f), ih, List.map_append, List.map_nil]
    · exact ih (c :: run)

theorem joinWith_map (ws : List Text) :
    Text.joinWith [.char ' '] (ws.map (List.map f)) = (Text.joinWith [.char ' '] ws).map f := by
  have hspace : f (.char ' ') = .char ' ' := hf.map_sign (by decide)
  induction ws with
  | nil => rfl
  | cons w ws ih =>
    cases ws with
    | nil => simp [Text.joinWith]
    | cons w' ws =>
      simp only [Text.joinWith, List.map_cons, List.intercalate_cons_cons] at ih ⊢
      rw [ih]
      simp [hspace]

theorem clean_map (t : Text) : Text.clean (t.map f) = t.clean.map f := by
  have hremove : ∀ p : Text, (∀ x ∈ p, x ∈ grammarSigns) → ∀ u : Text,
      Text.remove p (u.map f) = (Text.remove p u).map f := fun p hp u => removeFrom_map hf hp 0 u
  have hwords : ∀ u : Text, Text.words (u.map f) = (Text.words u).map (List.map f) :=
    wordsFrom_map hf []
  rw [Text.clean, hremove _ (by decide), hremove _ (by decide), hremove _ (by decide), Text.fold,
    hwords, joinWith_map hf]
  rfl

/-! Annotations. -/

theorem trimLeft_map (t : Text) : Text.trimLeft (t.map f) = t.trimLeft.map f :=
  dropWhile_map_of_keeps hf.blank t

theorem trim_map (t : Text) : Text.trim (t.map f) = t.trim.map f := by
  rw [Text.trim, trimLeft_map hf, ← List.map_reverse, trimLeft_map hf, ← List.map_reverse]
  rfl

theorem leadingName_map (t : Text) : leadingName (t.map f) = (leadingName t).map f := by
  rw [leadingName, trimLeft_map hf, takeWhile_map_of_keeps hf.name]
  rfl

theorem head?_map_eq_sign {x : CodePoint} (hx : x ∈ grammarSigns) (t : Text) :
    (t.map f).head? = some x ↔ t.head? = some x := by
  cases t with
  | nil => simp
  | cons c t => simpa using hf.sign x hx c

theorem cutSegment_map (t : Text) :
    cutSegment (t.map f) = (cutSegment t).map fun cut => (cut.1.map f, cut.2.map f) := by
  have hdrop := dropWhile_map_of_keeps (p := (!·.isBrace)) (fun c => by rw [hf.brace]) t
  have htake := takeWhile_map_of_keeps (p := (!·.isBrace)) (fun c => by rw [hf.brace]) t
  simp only [cutSegment_eq, hdrop, htake, head?_map_eq_sign hf (x := .char '}') (by decide)]
  split
  · rw [Option.map_some, List.map_tail]
  · rfl

theorem annotations_map (t : Text) :
    annotations (t.map f) = (annotations t).map (annotationMap f) := by
  induction t with
  | nil => rfl
  | cons c t ih =>
    simp only [List.map_cons, annotations, hf.sign (.char '{') (by decide), cutSegment_map hf]
    split
    · cases cutSegment t with
      | none => exact ih
      | some cut =>
        simp only [Option.map_some, List.map_cons, ih]
        rw [trim_map hf, leadingName_map hf, nonempty?_map]
        rfl
    · exact ih

theorem followingNames_map (t : Text) :
    followingNames (t.map f) = (followingNames t).map (List.map f) := by
  induction t with
  | nil => rfl
  | cons c t ih =>
    simp only [List.map_cons, followingNames, hf.sign (.char '}') (by decide)]
    split
    · rw [leadingName_map hf, nonempty?_map, ih, List.map_append]
      cases nonempty? (leadingName t) <;> rfl
    · exact ih

theorem afterAnnotations_map (t : Text) :
    afterAnnotations (t.map f) = (afterAnnotations t).map f := by
  have hopen : f (.char '{') = .char '{' := hf.map_sign (by decide)
  fun_induction afterAnnotations t with
  | case1 r inner after hcut ih =>
    rw [List.map_cons, hopen, afterAnnotations_cons, cutSegment_map hf, hcut]
    simp only [Option.map_some]
    rw [trimLeft_map hf, ih]
  | case2 r hcut =>
    rw [List.map_cons, hopen, afterAnnotations_cons, cutSegment_map hf, hcut]
    rfl
  | case3 t hne =>
    refine afterAnnotations_of_head ?_
    rw [Ne, head?_map_eq_sign hf (by decide)]
    intro hhead
    obtain ⟨r, rfl⟩ := List.head?_eq_some_iff.mp hhead
    exact hne r rfl

theorem afterName_map (t : Text) : afterName (t.map f) = (afterName t).map f := by
  simp only [afterName, dropWhile_map_of_keeps hf.name, trimLeft_map hf]
  cases Text.trimLeft (t.dropWhile CodePoint.isName) with
  | nil => rfl
  | cons c r =>
    simp only [List.map_cons, List.length_map, List.length_cons, hf.brace]
    split <;> rfl

theorem trailingText_map (t : Text) :
    trailingText (t.map f) = (trailingText t).map (List.map f) := by
  simp only [trailingText, afterAnnotations_map hf]
  cases afterAnnotations t with
  | nil => rfl
  | cons c r =>
    have hlength : (f c :: r.map f).length < (t.map f).length ↔ (c :: r).length < t.length := by
      simp
    have hname := afterName_map hf (c :: r)
    have htrim := trim_map hf (c :: r)
    rw [List.map_cons] at hname htrim
    simp only [List.map_cons, hf.name, hlength, hname, htrim, trim_map hf]
    split
    · rfl
    · split <;> rfl

/-! The scans. -/

theorem opensFragment_map (prev : Option CodePoint) :
    opensFragment (prev.map f) = opensFragment prev := by
  cases prev with
  | none => rfl
  | some c =>
    simp only [Option.map_some, opensFragment, hf.blank,
      hf.decide_sign (x := .char '*') (by decide)]

/-- Where the marker goes to the other one, and nothing else does, a tag starts after the change
where it started before. -/
theorem isTagStart_map {t : Text} (ht : TakesMarker f k k' t) (prev : Option CodePoint) :
    isTagStart [k'] (prev.map f) (t.map f) = isTagStart [k] prev t := by
  rw [isTagStart_eq, isTagStart_eq, opensFragment_map hf]
  cases t with
  | nil => rfl
  | cons c t =>
    have hmarker : (k' == f c) = (k == c) := by
      rw [Bool.eq_iff_iff, beq_iff_eq, beq_iff_eq, eq_comm, ht c List.mem_cons_self, eq_comm]
    rw [List.map_cons, opensTag_cons, opensTag_cons, hmarker]
    cases t with
    | nil => rfl
    | cons d t => simp only [List.map_cons, List.head?_cons, Option.any_some, hf.word]

theorem cutAt_isTagStart_map {t : Text} (ht : TakesMarker f k k' t) (prev : Option CodePoint) :
    cutAt (isTagStart [k']) (prev.map f) (t.map f) =
      ((cutAt (isTagStart [k]) prev t).1.map f, (cutAt (isTagStart [k]) prev t).2.map f) :=
  cutAt_map (fun prev _ hu => isTagStart_map hf (ht.suffix hu) prev) prev

/-! The description. -/

theorem cutAt_endsDescription_map {t : Text} (ht : TakesMarker f k k' t) (prev : Option CodePoint) :
    cutAt (endsDescription [k']) (prev.map f) (t.map f) =
      ((cutAt (endsDescription [k]) prev t).1.map f,
        (cutAt (endsDescription [k]) prev t).2.map f) := by
  refine cutAt_map (fun prev u hu => ?_) prev
  rw [endsDescription, endsDescription, isTagStart_map hf (ht.suffix hu),
    isPrefixOf_map hf (by decide)]

theorem cutOpener_map (t : Text) :
    cutOpener (t.map f) = ((cutOpener t).1.map f, (cutOpener t).2.map f) := by
  have hstar : ∀ c, decide (f c = .char '*') = decide (c = .char '*') := hf.decide_sign (by decide)
  have htake := takeWhile_map_of_keeps (p := (· = .char '*')) hstar
  have hdrop := dropWhile_map_of_keeps (p := (· = .char '*')) hstar
  simp only [cutOpener_eq, dropWhile_map_of_keeps hf.blank, takeWhile_map_of_keeps hf.blank,
    isPrefixOf_map hf (p := text "/*") (by decide), ← List.map_take, ← List.map_drop, htake, hdrop]
  split
  · simp only [List.map_append]
  · rfl

theorem rawDescription_map {t : Text} (ht : TakesMarker f k k' t) :
    rawDescription [k'] (t.map f) = (rawDescription [k] t).map f := by
  simp only [rawDescription, cutOpener_map hf, List.getLast?_map,
    cutAt_endsDescription_map hf (ht.suffix (cutOpener_suffix t))]

theorem description_map {t : Text} (ht : TakesMarker f k k' t) :
    description [k'] (t.map f) = (description [k] t).map (List.map f) := by
  rw [description, description, rawDescription_map hf ht, clean_map hf]
  cases (rawDescription [k] t).clean <;> rfl

/-! The tags. -/

/-- The scan for tags goes on behind the tag that it has cut off, so the induction is on the length
of the text. -/
theorem tagsFrom_map (hk : f k = k') {t : Text} (ht : TakesMarker f k k' t) :
    tagsFrom [k'] (t.map f) = (tagsFrom [k] t).map (RawTag.map f) := by
  induction hlen : t.length using Nat.strongRecOn generalizing t with
  | ind n ih =>
    cases t with
    | nil => rw [List.map_nil, tagsFrom_nil, tagsFrom_nil, List.map_nil]
    | cons c t =>
      have hrest : TakesMarker f k k' (t.dropWhile CodePoint.isLabel) :=
        ht.suffix ((List.dropWhile_suffix _).trans (List.suffix_cons c t))
      rw [List.map_cons, tagsFrom_cons, tagsFrom_cons]
      simp only [takeWhile_map_of_keeps hf.label, dropWhile_map_of_keeps hf.label,
        List.getLast?_map, cutAt_isTagStart_map hf hrest, List.isEmpty_map]
      split
      · rfl
      · have hcut : (cutAt (isTagStart [k]) (t.takeWhile CodePoint.isLabel).getLast?
            (t.dropWhile CodePoint.isLabel)).2 <:+ t.dropWhile CodePoint.isLabel :=
          ⟨_, cutAt_append _ _ _⟩
        have hshort := hcut.length_le.trans (List.dropWhile_suffix CodePoint.isLabel).length_le
        rw [ih _ (by rw [← hlen, List.length_cons]; omega) (hrest.suffix hcut) rfl]
        simp [RawTag.map, hk]

theorem tags_map (hk : f k = k') {t : Text} (ht : TakesMarker f k k' t) :
    tags [k'] (t.map f) = (tags [k] t).map (RawTag.map f) := by
  have hcut : (cutAt (isTagStart [k]) none t).2 <:+ t := ⟨_, cutAt_append _ _ _⟩
  have hmap := cutAt_isTagStart_map hf ht none
  rw [Option.map_none] at hmap
  rw [tags, hmap, tagsFrom_map hf hk (ht.suffix hcut), tags]

/-! The tokens. -/

/-- A tag whose label is the same up to the marker becomes the changed token. -/
theorem ofTag_map {g : RawTag}
    (hlabel : Text.remove [k'] (g.label.map f) = Text.remove [k] g.label) (s : Settings) :
    Token.ofTag (s.withMarker k') (g.map f) =
      (Token.ofTag (s.withMarker k) g).renamed f := by
  have hargName : ((annotations g.content.clean).map (annotationMap f)).findSome? (·.name) =
      ((annotations g.content.clean).findSome? (·.name)).map (List.map f) := by
    rw [List.findSome?_map, List.map_findSome?]
    rfl
  simp only [Token.ofTag, Token.renamed, RawTag.map, Settings.withMarker_marker,
    Settings.withMarker_defaultType, hlabel, clean_map hf, annotations_map hf, trailingText_map hf,
    followingNames_map hf, hargName, types_map, List.isEmpty_map]
  -- what is left are the fields that are absent if nothing was found
  congr 1
  · split <;> rfl
  · split <;> rfl

end Neutral

/-! A change of the marker. -/

/-- The marker `k` becomes `k'`, and all else stays. -/
def renameMarker (k k' c : CodePoint) : CodePoint := if c = k then k' else c

namespace CodePoint.IsMarker

variable {k k' : CodePoint}

theorem isLabel_eq_false (hk : k.IsMarker) (hplain : k ∉ [.char '.', .char '-', .char '_']) :
    k.isLabel = false := by
  simp only [List.mem_cons, List.not_mem_nil, or_false, not_or] at hplain
  obtain ⟨hdot, hdash, hunderscore⟩ := hplain
  simp [isLabel, isWord, hk.not_alphanumeric, hdot, hdash, hunderscore]

theorem not_mem_grammarSigns (hk : k.IsMarker) (hlabel : k.isLabel = false) : k ∉ grammarSigns := by
  have hsigns : ∀ x ∈ grammarSigns,
      x.isBlank ∨ x.isBrace ∨ x = .char '*' ∨ x = .char '/' ∨ x.isLabel := by
    decide +kernel
  intro hmem
  rcases hsigns k hmem with h | h | h | h | h
  · simp [hk.not_blank] at h
  · simp [hk.not_brace] at h
  · exact hk.not_star h
  · exact hk.not_slash h
  · simp [hlabel] at h

end CodePoint.IsMarker

section Marker

variable {k k' : CodePoint}

theorem renameMarker_self (k k' : CodePoint) : renameMarker k k' k = k' := if_pos rfl

theorem renameMarker_of_ne {c : CodePoint} (hc : c ≠ k) : renameMarker k k' c = c := if_neg hc

theorem takesMarker_renameMarker {t : Text} (ht : k' ∉ t) :
    TakesMarker (renameMarker k k') k k' t := by
  intro c hc
  by_cases h : c = k
  · simp [h, renameMarker_self]
  · rw [renameMarker_of_ne h]
    exact iff_of_false (fun heq => ht (heq ▸ hc)) h

/-- Two markers that no label holds are the same to the grammar. -/
theorem neutral_renameMarker (hk : k.IsMarker) (hlabel : k.isLabel = false) (hk' : k'.IsMarker)
    (hlabel' : k'.isLabel = false) : Neutral (renameMarker k k') := by
  have hkeep : ∀ p : CodePoint → Bool, p k = p k' → ∀ c, p (renameMarker k k' c) = p c := by
    intro p hp c
    by_cases h : c = k
    · rw [h, renameMarker_self, hp]
    · rw [renameMarker_of_ne h]
  have hword : ∀ {x : CodePoint}, x.isLabel = false → x.isWord = false := by
    intro x hx
    cases hw : x.isWord with
    | false => rfl
    | true => simp [CodePoint.isLabel_of_isWord hw] at hx
  refine ⟨hkeep _ (by rw [hk.not_blank, hk'.not_blank]),
    hkeep _ (by rw [hword hlabel, hword hlabel']), ?_⟩
  intro x hx c
  have hne : k ≠ x := fun h => hk.not_mem_grammarSigns hlabel (h ▸ hx)
  have hne' : k' ≠ x := fun h => hk'.not_mem_grammarSigns hlabel' (h ▸ hx)
  by_cases h : c = k
  · rw [h, renameMarker_self]
    exact iff_of_false hne' hne
  · rw [renameMarker_of_ne h]

/-- Labels are the same without their marker. -/
theorem remove_renamed_label (hlabel : k.isLabel = false) (hlabel' : k'.isLabel = false)
    {run : Text} (hrun : ∀ c ∈ run, c.isLabel) :
    Text.remove [k'] ((k :: run).map (renameMarker k k')) = Text.remove [k] (k :: run) := by
  have hne : ∀ x : CodePoint, x.isLabel = false → ∀ c ∈ run, c ≠ x := by
    rintro x hx c hc rfl
    simp [hrun c hc] at hx
  have hmap : run.map (renameMarker k k') = run := by
    refine (List.map_congr_left fun c hc => ?_).trans (List.map_id run)
    exact renameMarker_of_ne (hne k hlabel c hc)
  have hkeep : ∀ x : CodePoint, x.isLabel = false → run.filter (· ≠ x) = run := by
    intro x hx
    exact List.filter_eq_self.mpr fun c hc => decide_eq_true (hne x hx c hc)
  rw [List.map_cons, renameMarker_self, hmap, Text.remove_singleton, Text.remove_singleton,
    List.filter_cons_of_neg (by simp), List.filter_cons_of_neg (by simp), hkeep k hlabel,
    hkeep k' hlabel']

theorem tagTokens_renamed (hk : k.IsMarker) (hlabel : k.isLabel = false) (hk' : k'.IsMarker)
    (hlabel' : k'.isLabel = false) (s : Settings) {t : Text} (ht : k' ∉ t) :
    tagTokens (s.withMarker k') (t.map (renameMarker k k')) =
      (tagTokens (s.withMarker k) t).map (Token.renamed (renameMarker k k')) := by
  have hf := neutral_renameMarker hk hlabel hk' hlabel'
  obtain ⟨_, _, _, _, hseq⟩ := tagSequence_tags hk t
  rw [tagTokens, tagTokens, Settings.withMarker_marker, Settings.withMarker_marker,
    tags_map hf (renameMarker_self k k') (takesMarker_renameMarker ht), List.map_map, List.map_map]
  apply List.map_congr_left
  intro g hg
  obtain ⟨run, hg, hrun⟩ := hseq.label_eq hg
  refine ofTag_map hf ?_ s
  rw [hg]
  exact remove_renamed_label hlabel hlabel' hrun

theorem descriptionToken_renamed (hk : k.IsMarker) (hlabel : k.isLabel = false) (hk' : k'.IsMarker)
    (hlabel' : k'.isLabel = false) (s : Settings) {t : Text} (ht : k' ∉ t) :
    descriptionToken (s.withMarker k') (t.map (renameMarker k k')) =
      if (description [k] t).isNone then descriptionToken (s.withMarker k) t
      else (descriptionToken (s.withMarker k) t).renamed (renameMarker k k') := by
  have hf := neutral_renameMarker hk hlabel hk' hlabel'
  simp only [descriptionToken, Settings.withMarker_marker, Settings.withMarker_placeholder,
    description_map hf (takesMarker_renameMarker ht)]
  cases description [k] t <;> rfl

theorem lacksType_renamed (s : Settings) (f : CodePoint → CodePoint) (token : Token) :
    (token.renamed f).lacksType (s.withMarker k') = token.lacksType (s.withMarker k) := by
  simp [Token.lacksType, Token.renamed]

end Marker

/-- The comment after a change of code points. A placeholder for the description stays. -/
def Comment.renamed (f : CodePoint → CodePoint) (noDescription : Bool) (c : Comment) : Comment :=
  match c.children with
  | [] => c
  | d :: ts => ⟨(if noDescription then d else d.renamed f) :: ts.map (Token.renamed f)⟩

/-- **The marker is only a name.** Take two markers that may not stand in a label, and a text that
does not hold the second. With the second in the place of the first, both in the text and in the
settings, the same tokens and reports come out, up to that change; and so they do where extraction
stops at the first report. -/
theorem comment_marker_renamed {k k' : CodePoint} (hk : Settings.isMarker [k])
    (hplain : k ∉ [.char '.', .char '-', .char '_']) (hk' : Settings.isMarker [k'])
    (hplain' : k' ∉ [.char '.', .char '-', .char '_']) (s : Settings) {t : Text} (ht : k' ∉ t) :
    Comment.ofText (s.withMarker k') (t.map (renameMarker k k')) =
        (Comment.ofText (s.withMarker k) t).renamed (renameMarker k k')
          (description [k] t).isNone ∧
      Comment.missing (s.withMarker k') (t.map (renameMarker k k')) =
        (Comment.missing (s.withMarker k) t).map (Token.renamed (renameMarker k k')) ∧
      Comment.beforeMissing (s.withMarker k') (t.map (renameMarker k k')) =
        (Comment.beforeMissing (s.withMarker k) t).renamed (renameMarker k k')
          (description [k] t).isNone := by
  obtain ⟨_, ⟨⟩, hk⟩ := Settings.exists_of_isMarker hk
  obtain ⟨_, ⟨⟩, hk'⟩ := Settings.exists_of_isMarker hk'
  have hlabel := hk.isLabel_eq_false hplain
  have hlabel' := hk'.isLabel_eq_false hplain'
  have hdescription := descriptionToken_renamed hk hlabel hk' hlabel' s ht
  have htags := tagTokens_renamed hk hlabel hk' hlabel' s ht
  have hlacks : ∀ token : Token, (token.renamed (renameMarker k k')).lacksType (s.withMarker k') =
      token.lacksType (s.withMarker k) := lacksType_renamed s _
  refine ⟨?_, ?_, ?_⟩
  · simp only [Comment.ofText, Comment.renamed, hdescription, htags]
  · simp only [Comment.missing, htags, List.filter_map, Function.comp_def, hlacks]
  · simp only [Comment.beforeMissing, Comment.renamed, hdescription, htags, List.takeWhile_map,
      Function.comp_def, hlacks]

/-- An address in the description, an empty annotation, and a required tag without a type. -/
theorem comment_marker_renamed_dollar :
    let before : Text := text "/** To a@b. @param \x7b\x7d c@d @return e */"
    let after : Text := text "/** To a$b. $param \x7b\x7d c$d $return e */"
    Settings.isMarker [.char '@'] ∧ Settings.isMarker [.char '$'] ∧ .char '$' ∉ before ∧
      Comment.ofText (Settings.withMarker {} (.char '$')) after =
        (Comment.ofText (Settings.withMarker {} (.char '@')) before).renamed
          (renameMarker (.char '@') (.char '$')) false ∧
      Comment.missing (Settings.withMarker {} (.char '$')) after =
        (Comment.missing (Settings.withMarker {} (.char '@')) before).map
          (Token.renamed (renameMarker (.char '@') (.char '$'))) := by
  intro before after
  have hat : Settings.isMarker [.char '@'] := by decide +kernel
  have hdollar : Settings.isMarker [.char '$'] := by decide +kernel
  have hbefore : .char '$' ∉ before := by decide +kernel
  have hafter : before.map (renameMarker (.char '@') (.char '$')) = after := by decide +kernel
  have hdescription : (description [.char '@'] before).isNone = false := by decide +kernel
  have hrenamed := comment_marker_renamed hat (by decide) hdollar (by decide) {} hbefore
  rw [hafter, hdescription] at hrenamed
  exact ⟨hat, hdollar, hbefore, hrenamed.1, hrenamed.2.1⟩

end CommentTags
