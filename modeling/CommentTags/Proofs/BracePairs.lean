import Mathlib.Data.List.Forall2
import Mathlib.Data.List.Sort
import CommentTags.Proofs.Scanning
import CommentTags.Proofs.TokenInvariants

/-!
The types and the names of a tag against the braces of its content. A type stands between an
opening brace and the closing brace that is the next brace after it, whatever other braces there
are; so a tag has a type exactly if some opening brace has a closing one behind it. A name stands
behind a closing brace, and the scan for names does not ask whether that brace closes anything.
-/

namespace CommentTags

/-- An opening brace at `i`, and at `j` the closing brace that is the next brace after it. -/
structure BracePair (t : Text) (i j : Nat) : Prop where
  opens : t[i]? = some (.char '{')
  closes : t[j]? = some (.char '}')
  lt : i < j
  between : ∀ k, i < k → k < j → ∀ c ∈ t[k]?, c.isBrace = false

/-- The name behind position `j`: the longest run of name characters after any blanks. -/
def NameBehind (t : Text) (j : Nat) (name : Text) : Prop :=
  name ≠ [] ∧ ∃ blanks rest, t.drop (j + 1) = blanks ++ name ++ rest ∧
    (∀ c ∈ blanks, c.isBlank) ∧ (∀ c ∈ name, c.isName) ∧ ∀ c ∈ rest.head?, c.isName = false

/-- The type and the name that the braces at `i` and `j` give an annotation. -/
structure Annotation.StandsAt (t : Text) (i j : Nat) (a : Annotation) : Prop where
  type : a.type = Text.trim ((t.take j).drop (i + 1))
  name : ∀ name, a.name = some name ↔ NameBehind t j name

/-- What both scans look for behind a closing brace. -/
def nameAt (t : Text) (j : Nat) : Option Text := nonempty? (leadingName (t.drop (j + 1)))

theorem nameAt_eq_some {t : Text} {j : Nat} {name : Text} :
    nameAt t j = some name ↔ NameBehind t j name := by
  rw [nameAt, nonempty?_eq_some]
  constructor
  · rintro ⟨hne, rfl⟩
    refine ⟨hne, (t.drop (j + 1)).takeWhile CodePoint.isBlank,
      (Text.trimLeft (t.drop (j + 1))).dropWhile CodePoint.isName, ?_,
      fun c hc => List.mem_takeWhile_imp hc, fun c hc => List.mem_takeWhile_imp hc,
      head_dropWhile _ _⟩
    rw [leadingName, List.append_assoc, List.takeWhile_append_dropWhile, Text.trimLeft,
      List.takeWhile_append_dropWhile]
  · rintro ⟨hne, blanks, rest, hdrop, hblanks, hname, hrest⟩
    have hhead : ∀ c ∈ (name ++ rest).head?, c.isBlank = false := by
      obtain ⟨c, name', rfl⟩ := List.exists_cons_of_ne_nil hne
      simpa using (isName_iff.mp (hname c List.mem_cons_self)).1
    have hleading : leadingName (t.drop (j + 1)) = name := by
      rw [leadingName, Text.trimLeft, hdrop, List.append_assoc,
        dropWhile_append_of_head hblanks hhead, takeWhile_append_of_head hname hrest]
    exact ⟨hleading ▸ hne, hleading⟩

/-! Pairs of braces. -/

section BracePair

variable {t : Text} {i j : Nat}

/-- A pair ends before the next one begins. -/
theorem BracePair.lt_of_lt {i' j' : Nat} (h : BracePair t i j) (h' : BracePair t i' j')
    (hlt : i < i') : j < i' := by
  rcases Nat.lt_trichotomy i' j with hin | rfl | hout
  · have := h.between i' hlt hin _ h'.opens
    cases this
  · have := h.closes.symm.trans h'.opens
    cases this
  · exact hout

/-- An opening brace is in one pair at most. -/
theorem BracePair.right_unique {j' : Nat} (h : BracePair t i j) (h' : BracePair t i j') :
    j = j' := by
  rcases Nat.lt_trichotomy j j' with hlt | rfl | hgt
  · have := h'.between j h.lt hlt _ h.closes
    cases this
  · rfl
  · have := h.between j' h'.lt hgt _ h'.closes
    cases this

theorem bracePair_succ {c : CodePoint} : BracePair (c :: t) (i + 1) (j + 1) ↔ BracePair t i j := by
  constructor
  · intro h
    refine ⟨by simpa using h.opens, by simpa using h.closes, Nat.lt_of_succ_lt_succ h.lt, ?_⟩
    intro k hik hkj
    simpa using h.between (k + 1) (by omega) (by omega)
  · intro h
    refine ⟨by simpa using h.opens, by simpa using h.closes, Nat.succ_lt_succ h.lt, ?_⟩
    intro k hik hkj
    obtain ⟨k, rfl⟩ : ∃ m, k = m + 1 := ⟨k - 1, by omega⟩
    simpa using h.between k (by omega) (by omega)

/-- Only an opening brace begins a pair, and the pair ends where the segment is cut. -/
theorem bracePair_zero {c : CodePoint} :
    BracePair (c :: t) 0 (j + 1) ↔
      c = .char '{' ∧ cutSegment t = some (t.take j, t.drop (j + 1)) := by
  constructor
  · intro h
    have hclose : t[j]? = some (.char '}') := by simpa using h.closes
    have hinner : NoBraces (t.take j) := by
      intro d hd
      obtain ⟨k, hk, hkd⟩ := List.mem_take_iff_getElem.mp hd
      refine h.between (k + 1) (by omega) (by omega) d ?_
      simp [← hkd, show k < t.length by omega]
    have hsplit : t = t.take j ++ .char '}' :: t.drop (j + 1) := by
      obtain ⟨hj, hget⟩ := List.getElem?_eq_some_iff.mp hclose
      rw [← hget, ← List.drop_eq_getElem_cons hj, List.take_append_drop]
    refine ⟨by simpa using h.opens, ?_⟩
    have hcut := cutSegment_of_noBraces hinner (t.drop (j + 1))
    rwa [← hsplit] at hcut
  · rintro ⟨rfl, hcut⟩
    obtain ⟨hinner, hsplit⟩ := eq_of_cutSegment hcut
    have hj : (t.take j).length = j := by
      have := congrArg List.length hsplit
      simp only [List.length_append, List.length_cons, List.length_take, List.length_drop] at this ⊢
      omega
    refine ⟨rfl, ?_, Nat.succ_pos j, ?_⟩
    · rw [List.getElem?_cons_succ, hsplit, List.getElem?_append_right (by omega)]
      simp [hj]
    · intro k hk hkj d hd
      obtain ⟨k, rfl⟩ : ∃ m, k = m + 1 := ⟨k - 1, by omega⟩
      rw [List.getElem?_cons_succ] at hd
      refine hinner d (List.mem_of_getElem? (i := k) ?_)
      rw [List.getElem?_take, if_pos (by omega)]
      exact hd

end BracePair

/-- All pairs of a text, from left to right. They do not overlap. -/
structure AllPairs (t : Text) (pairs : List (Nat × Nat)) : Prop where
  ordered : pairs.Pairwise fun p q => p.2 < q.1
  mem_iff : ∀ p, p ∈ pairs ↔ BracePair t p.1 p.2

/-- The same pairs one place further on. -/
def laterPairs (pairs : List (Nat × Nat)) : List (Nat × Nat) :=
  pairs.map fun p => (p.1 + 1, p.2 + 1)

section AllPairs

variable {c : CodePoint} {t : Text} {pairs : List (Nat × Nat)}

theorem AllPairs.ordered_laterPairs (h : AllPairs t pairs) :
    (laterPairs pairs).Pairwise fun p q => p.2 < q.1 :=
  List.pairwise_map.mpr (h.ordered.imp fun h => Nat.succ_lt_succ h)

/-- The pairs of a text that begin behind its first code point are those of the rest. -/
theorem AllPairs.mem_laterPairs (h : AllPairs t pairs) (p : Nat × Nat) :
    p ∈ laterPairs pairs ↔ 0 < p.1 ∧ BracePair (c :: t) p.1 p.2 := by
  obtain ⟨i, j⟩ := p
  constructor
  · intro hp
    obtain ⟨q, hq, hij⟩ := List.mem_map.mp hp
    obtain ⟨rfl, rfl⟩ := Prod.mk.inj hij
    exact ⟨Nat.succ_pos _, bracePair_succ.mpr ((h.mem_iff q).mp hq)⟩
  · rintro ⟨hi, hp⟩
    obtain ⟨i, rfl⟩ : ∃ m, i = m + 1 := ⟨i - 1, by omega⟩
    obtain ⟨j, rfl⟩ : ∃ m, j = m + 1 := ⟨j - 1, by have := hp.lt; omega⟩
    exact List.mem_map.mpr ⟨(i, j), (h.mem_iff _).mpr (bracePair_succ.mp hp), rfl⟩

theorem AllPairs.cons_of_bracePair {j : Nat} (h : AllPairs t pairs)
    (hj : BracePair (c :: t) 0 j) : AllPairs (c :: t) ((0, j) :: laterPairs pairs) := by
  refine ⟨List.pairwise_cons.mpr ⟨fun q hq => ?_, h.ordered_laterPairs⟩, fun p => ?_⟩
  · obtain ⟨hpos, hq⟩ := h.mem_laterPairs q |>.mp hq
    exact hj.lt_of_lt hq hpos
  · rw [List.mem_cons, h.mem_laterPairs]
    constructor
    · rintro (rfl | hp)
      · exact hj
      · exact hp.2
    · intro hp
      rcases Nat.eq_zero_or_pos p.1 with hzero | hpos
      · rw [hzero] at hp
        exact .inl (Prod.ext hzero (hp.right_unique hj))
      · exact .inr ⟨hpos, hp⟩

theorem AllPairs.cons_of_no_bracePair (h : AllPairs t pairs)
    (hnone : ∀ j, ¬ BracePair (c :: t) 0 j) : AllPairs (c :: t) (laterPairs pairs) := by
  refine ⟨h.ordered_laterPairs, fun p => ?_⟩
  rw [h.mem_laterPairs]
  refine ⟨And.right, fun hp => ⟨?_, hp⟩⟩
  rcases Nat.eq_zero_or_pos p.1 with hzero | hpos
  · exact absurd (hzero ▸ hp) (hnone p.2)
  · exact hpos

end AllPairs

/-! Types. -/

/-- The annotation between two positions. -/
def annotationAt (t : Text) (p : Nat × Nat) : Annotation :=
  ⟨Text.trim ((t.take p.2).drop (p.1 + 1)), nameAt t p.2⟩

theorem standsAt_annotationAt (t : Text) (p : Nat × Nat) :
    (annotationAt t p).StandsAt t p.1 p.2 :=
  ⟨rfl, fun _ => nameAt_eq_some⟩

section Annotations

variable {c : CodePoint} {t : Text}

/-- **Step.** The scan finds an annotation where a pair begins. -/
theorem annotations_cons_of_bracePair {j : Nat} (h : BracePair (c :: t) 0 j) :
    annotations (c :: t) = annotationAt (c :: t) (0, j) :: annotations t := by
  obtain ⟨j, rfl⟩ : ∃ m, j = m + 1 := ⟨j - 1, by have := h.lt; omega⟩
  obtain ⟨rfl, hcut⟩ := bracePair_zero.mp h
  simp only [annotations, ↓reduceIte, hcut]
  rfl

/-- **Step.** It finds none at any other place. -/
theorem annotations_cons_of_no_bracePair (h : ∀ j, ¬ BracePair (c :: t) 0 j) :
    annotations (c :: t) = annotations t := by
  simp only [annotations]
  split
  · rename_i hopen
    split
    · rename_i inner after hcut
      obtain ⟨-, hsplit⟩ := eq_of_cutSegment hcut
      refine absurd (bracePair_zero.mpr ⟨hopen, ?_⟩) (h (inner.length + 1))
      rw [hcut, hsplit]
      simp
    · rfl
  · rfl

/-- **Run.** The annotations of a text are those of its pairs, in order. -/
theorem exists_allPairs (t : Text) :
    ∃ pairs, AllPairs t pairs ∧ annotations t = pairs.map (annotationAt t) := by
  induction t with
  | nil =>
    refine ⟨[], ⟨.nil, fun p => ⟨fun h => (List.not_mem_nil h).elim, fun h => ?_⟩⟩, rfl⟩
    have := h.opens
    simp at this
  | cons c t ih =>
    obtain ⟨pairs, hpairs, hmap⟩ := ih
    have hlater : annotations t = (laterPairs pairs).map (annotationAt (c :: t)) := by
      rw [hmap, laterPairs, List.map_map]
      rfl
    by_cases hfirst : ∃ j, BracePair (c :: t) 0 j
    · obtain ⟨j, hj⟩ := hfirst
      refine ⟨(0, j) :: laterPairs pairs, hpairs.cons_of_bracePair hj, ?_⟩
      rw [annotations_cons_of_bracePair hj, List.map_cons, hlater]
    · have hnone : ∀ j, ¬ BracePair (c :: t) 0 j := fun j hj => hfirst ⟨j, hj⟩
      refine ⟨laterPairs pairs, hpairs.cons_of_no_bracePair hnone, ?_⟩
      rw [annotations_cons_of_no_bracePair hnone, hlater]

/-- A closing brace that does not close the open segment stands behind another opening one. -/
theorem sublist_of_cutSegment_eq_none (h : cutSegment t = none) (hclose : .char '}' ∈ t) :
    [.char '{', .char '}'].Sublist t := by
  have hsplit := List.takeWhile_append_dropWhile (l := t) (p := (!·.isBrace))
  have hmem : .char '}' ∈ t.dropWhile (!·.isBrace) := by
    rw [← hsplit, List.mem_append] at hclose
    refine hclose.resolve_left fun hfront => ?_
    have := List.mem_takeWhile_imp hfront
    cases this
  obtain ⟨d, rest, hrest⟩ := List.exists_cons_of_ne_nil (List.ne_nil_of_mem hmem)
  have hbrace : d.isBrace := by
    have := head_dropWhile (!·.isBrace) t d (by rw [hrest]; rfl)
    simpa using this
  have hopen : d = .char '{' := by
    have hcases : d = .char '{' ∨ d = .char '}' := by simpa [CodePoint.isBrace] using hbrace
    refine hcases.resolve_right ?_
    rintro rfl
    simp [cutSegment, hrest] at h
  rw [hrest, hopen, List.mem_cons] at hmem
  have hbehind : [.char '{', .char '}'].Sublist (d :: rest) := by
    rw [hopen]
    exact (List.singleton_sublist.mpr (hmem.resolve_left (by simp))).cons_cons _
  rw [← hrest] at hbehind
  exact hbehind.trans (List.dropWhile_suffix _).sublist

/-- A text has an annotation exactly if an opening brace in it has a closing one anywhere behind
it. -/
theorem annotations_ne_nil_iff : annotations t ≠ [] ↔ [.char '{', .char '}'].Sublist t := by
  induction t with
  | nil => simp [annotations]
  | cons c t ih =>
    rw [annotations]
    split
    · rename_i hopen
      split
      · rename_i inner after hcut
        obtain ⟨-, rfl⟩ := eq_of_cutSegment hcut
        simp [hopen, List.cons_sublist_cons]
      · rename_i hcut
        -- nothing begins here, but a closing brace behind it has its own opening one in the rest
        rw [ih]
        refine ⟨fun h => h.cons c, fun h => ?_⟩
        rw [hopen, List.cons_sublist_cons, List.singleton_sublist] at h
        exact sublist_of_cutSegment_eq_none hcut h
    · rename_i hopen
      rw [ih]
      refine ⟨fun h => h.cons c, fun h => ?_⟩
      rw [List.sublist_cons_iff] at h
      rcases h with h | ⟨r, hr, -⟩
      · exact h
      · exact absurd (List.cons.inj hr).1.symm hopen

end Annotations

/-! Names. -/

/-- The positions of the closing braces, in order. -/
def closings (t : Text) : List Nat := (List.range t.length).filter fun j => t[j]? = some (.char '}')

theorem mem_closings {t : Text} {j : Nat} : j ∈ closings t ↔ t[j]? = some (.char '}') := by
  simp only [closings, List.mem_filter, List.mem_range, decide_eq_true_eq, and_iff_right_iff_imp]
  intro h
  exact (List.getElem?_eq_some_iff.mp h).1

theorem ordered_closings (t : Text) : (closings t).Pairwise (· < ·) :=
  List.pairwise_lt_range.filter _

theorem closings_cons (c : CodePoint) (t : Text) :
    closings (c :: t) = (if c = .char '}' then [0] else []) ++ (closings t).map (· + 1) := by
  have hshift : (fun j => decide ((c :: t)[j]? = some (.char '}'))) ∘ Nat.succ =
      fun j => decide (t[j]? = some (.char '}')) := rfl
  rw [closings, List.length_cons, List.range_succ_eq_map, List.filter_cons, List.filter_map, hshift]
  by_cases hc : c = .char '}' <;> simp [hc, closings]

/-- The names that the scan finds are those behind the closing braces. -/
theorem followingNames_eq (t : Text) : followingNames t = (closings t).filterMap (nameAt t) := by
  induction t with
  | nil => rfl
  | cons c t ih =>
    have hlater : ((closings t).map (· + 1)).filterMap (nameAt (c :: t)) = followingNames t := by
      rw [ih, List.filterMap_map]
      rfl
    rw [closings_cons, List.filterMap_append, hlater, followingNames]
    split
    · cases hname : nonempty? (leadingName t) <;> simp [nameAt, hname]
    · rfl

/-- Every closing brace ends a pair: the nearest brace before it is an opening one. -/
def ClosesOpened (t : Text) : Prop := ∀ j, t[j]? = some (.char '}') → ∃ i, BracePair t i j

theorem closesOpened_iff {t : Text} :
    ClosesOpened t ↔ ∀ j ∈ closings t, ∃ i ∈ List.range j, BracePair t i j := by
  constructor
  · intro h j hj
    obtain ⟨i, hi⟩ := h j (mem_closings.mp hj)
    exact ⟨i, List.mem_range.mpr hi.lt, hi⟩
  · intro h j hj
    obtain ⟨i, -, hi⟩ := h j (mem_closings.mpr hj)
    exact ⟨i, hi⟩

instance (t : Text) (i j : Nat) : Decidable (BracePair t i j) :=
  decidable_of_iff
    (t[i]? = some (.char '{') ∧ t[j]? = some (.char '}') ∧ i < j ∧
      ∀ k, k < j → i < k → ∀ c ∈ t[k]?, c.isBrace = false)
    ⟨fun ⟨hi, hj, hlt, h⟩ => ⟨hi, hj, hlt, fun k hik hkj => h k hkj hik⟩,
      fun h => ⟨h.opens, h.closes, h.lt, fun k hkj hik => h.between k hik hkj⟩⟩

instance (t : Text) : Decidable (ClosesOpened t) := decidable_of_iff _ closesOpened_iff.symm

section Names

variable {t : Text} {pairs : List (Nat × Nat)}

theorem AllPairs.ordered_ends (h : AllPairs t pairs) : (pairs.map (·.2)).Pairwise (· < ·) := by
  refine List.pairwise_map.mpr (h.ordered.imp_of_mem fun hp hq hpq => ?_)
  exact hpq.trans ((h.mem_iff _).mp hq).lt

theorem AllPairs.mem_ends (h : AllPairs t pairs) {j : Nat} :
    j ∈ pairs.map (·.2) ↔ ∃ i, BracePair t i j := by
  constructor
  · intro hj
    obtain ⟨p, hp, rfl⟩ := List.mem_map.mp hj
    exact ⟨p.1, (h.mem_iff p).mp hp⟩
  · rintro ⟨i, hi⟩
    exact List.mem_map.mpr ⟨(i, j), (h.mem_iff _).mpr hi, rfl⟩

/-- The ends of the pairs are among the closing braces, in the same order. -/
theorem AllPairs.ends_sublist (h : AllPairs t pairs) :
    (pairs.map (·.2)).Sublist (closings t) := by
  have hnodup : (pairs.map (·.2)).Nodup := h.ordered_ends.imp Nat.ne_of_lt
  refine List.sublist_of_subperm_of_pairwise (List.subperm_of_subset hnodup fun j hj => ?_)
    h.ordered_ends (ordered_closings t)
  obtain ⟨i, hi⟩ := h.mem_ends.mp hj
  exact mem_closings.mpr hi.closes

theorem AllPairs.ends_eq (h : AllPairs t pairs) (ht : ClosesOpened t) :
    pairs.map (·.2) = closings t := by
  refine h.ordered_ends.eq_of_mem_iff (ordered_closings t) fun j => ?_
  rw [h.mem_ends, mem_closings]
  exact ⟨fun ⟨_, hi⟩ => hi.closes, ht j⟩

theorem names_annotations (hmap : annotations t = pairs.map (annotationAt t)) :
    (annotations t).filterMap (·.name) = (pairs.map (·.2)).filterMap (nameAt t) := by
  rw [hmap, List.filterMap_map, List.filterMap_map]
  rfl

theorem names_annotations_sublist (t : Text) :
    ((annotations t).filterMap (·.name)).Sublist (followingNames t) := by
  obtain ⟨pairs, hpairs, hmap⟩ := exists_allPairs t
  rw [names_annotations hmap, followingNames_eq]
  exact hpairs.ends_sublist.filterMap _

theorem names_annotations_eq (ht : ClosesOpened t) :
    (annotations t).filterMap (·.name) = followingNames t := by
  obtain ⟨pairs, hpairs, hmap⟩ := exists_allPairs t
  rw [names_annotations hmap, followingNames_eq, hpairs.ends_eq ht]

theorem followingNames_eq_nil_iff :
    followingNames t = [] ↔ ∀ j name, t[j]? = some (.char '}') → ¬ NameBehind t j name := by
  rw [followingNames_eq, List.filterMap_eq_nil_iff]
  constructor
  · intro h j name hj hname
    have hnone := h j (mem_closings.mpr hj)
    rw [nameAt_eq_some.mpr hname] at hnone
    cases hnone
  · intro h j hj
    cases hname : nameAt t j with
    | none => rfl
    | some name => exact absurd (nameAt_eq_some.mp hname) (h j name (mem_closings.mp hj))

end Names

/-! Tokens. -/

section Token

variable (s : Settings) (g : RawTag)

theorem types_ofTag_eq_none_iff :
    (Token.ofTag s g).types = none ↔ annotations g.content.clean = [] := by
  simp [Token.ofTag]

theorem names_ofTag_eq_none_iff :
    (Token.ofTag s g).names = none ↔ followingNames g.content.clean = [] := by
  simp [Token.ofTag]

theorem head_names_ofTag :
    (Token.ofTag s g).names.bind List.head? = (followingNames g.content.clean).head? := by
  cases h : followingNames g.content.clean <;> simp [Token.ofTag, h]

theorem argName_ofTag :
    (Token.ofTag s g).argName = ((annotations g.content.clean).filterMap (·.name)).head? :=
  List.head?_filterMap.symm

end Token

/-- The annotations of a text are its innermost pairs of braces: one for each opening brace whose
next brace is a closing one, in order, with the trimmed text between the two for its type and the
word behind the second for its name. So a required tag is reported exactly if no opening brace of
its cleaned content has a closing one anywhere behind it. -/
theorem annotations_innermost :
    (∀ t : Text, ∃ pairs, AllPairs t pairs ∧
      List.Forall₂ (fun p a => Annotation.StandsAt t p.1 p.2 a) pairs (annotations t)) ∧
    ∀ (s : Settings) (t : Text),
      Comment.missing s t =
        ((tags s.marker t).filter fun g => s.requires (Token.ofTag s g).label &&
          !decide ([.char '{', .char '}'].Sublist g.content.clean)).map (Token.ofTag s) := by
  refine ⟨fun t => ?_, fun s t => ?_⟩
  · obtain ⟨pairs, hpairs, hmap⟩ := exists_allPairs t
    refine ⟨pairs, hpairs, ?_⟩
    rw [hmap, List.forall₂_map_right_iff]
    exact List.forall₂_same.mpr fun p _ => standsAt_annotationAt t p
  · rw [Comment.missing, tagTokens, List.filter_map]
    congr 2
    funext g
    have htypes : (Token.ofTag s g).types.isNone =
        !decide ([.char '{', .char '}'].Sublist g.content.clean) := by
      rw [Bool.eq_iff_iff]
      simp only [Option.isNone_iff_eq_none, types_ofTag_eq_none_iff, Bool.not_eq_true',
        decide_eq_false_iff_not, ← annotations_ne_nil_iff, Decidable.not_not]
    rw [Function.comp_apply, Token.lacksType, htypes, Bool.and_comm]

/-- The names of the annotations are among the words behind the closing braces, in the same order,
and they are all of them if every closing brace ends an annotation. The argument name is then the
first of the names. -/
theorem annotation_names_agree :
    (∀ t, ((annotations t).filterMap (·.name)).Sublist (followingNames t)) ∧
    (∀ t, ClosesOpened t → (annotations t).filterMap (·.name) = followingNames t) ∧
    ∀ (s : Settings) (g : RawTag), ClosesOpened g.content.clean →
      (Token.ofTag s g).argName = (Token.ofTag s g).names.bind List.head? ∧
      ((Token.ofTag s g).argName = none ↔ (Token.ofTag s g).names = none) := by
  refine ⟨names_annotations_sublist, fun t ht => names_annotations_eq ht, fun s g hg => ?_⟩
  rw [argName_ofTag, names_annotations_eq hg, head_names_ofTag, names_ofTag_eq_none_iff,
    List.head?_eq_none_iff]
  exact ⟨rfl, Iff.rfl⟩

/-- Two annotations in a row, one of them nested in a brace that is not closed, and another such
brace at the end. -/
theorem annotation_names_agree_nested :
    let t : Text := text "\x7b string \x7d\x7b\x7d value, \x7b\x7bn\x7d m rest \x7b w"
    let token : Token := Token.ofTag {} ⟨text "@param", t⟩
    ClosesOpened t ∧ ClosesOpened t.clean ∧
      (annotations t).filterMap (·.name) = followingNames t ∧
      token.argName = token.names.bind List.head? ∧
      (token.argName = none ↔ token.names = none) ∧
      token.names = some [text "value,", text "m"] := by
  intro t token
  have ht : ClosesOpened t := by decide +kernel
  have hclean : ClosesOpened t.clean := by decide +kernel
  obtain ⟨hfirst, hnone⟩ := annotation_names_agree.2.2 {} ⟨text "@param", t⟩ hclean
  exact ⟨ht, hclean, annotation_names_agree.2.1 t ht, hfirst, hnone, by decide +kernel⟩

/-- A tag without a type has no argument name. It has names exactly if a word stands behind a
closing brace of its content, so it has none if every closing brace ends an annotation. -/
theorem tagTokens_untyped (s : Settings) (t : Text) {token : Token} (htoken : token ∈ tagTokens s t)
    (huntyped : token.types = none) :
    token.argName = none ∧
      (token.names = none ↔
        ∀ j name, token.content[j]? = some (.char '}') → ¬ NameBehind token.content j name) ∧
      (ClosesOpened token.content → token.names = none) := by
  obtain ⟨g, -, rfl⟩ := List.mem_map.mp htoken
  have hnone := (types_ofTag_eq_none_iff s g).mp huntyped
  refine ⟨by rw [argName_ofTag, hnone]; rfl, ?_, fun hclosed => ?_⟩
  · rw [names_ofTag_eq_none_iff, followingNames_eq_nil_iff]
    rfl
  · have hnames := names_annotations_eq (t := g.content.clean) hclosed
    rw [names_ofTag_eq_none_iff, ← hnames, hnone]
    rfl

/-- A closing brace with another brace behind it, which is not closed. -/
theorem tagTokens_untyped_turned :
    let token : Token := { label := text "since", content := text "\x7d \x7b 1.2", names := none }
    token ∈ tagTokens {} (text "/** @since \x7d\n * \x7b 1.2 */") ∧ token.types = none ∧
      token.argName = none ∧
      (token.names = none ↔
        ∀ j name, token.content[j]? = some (.char '}') → ¬ NameBehind token.content j name) ∧
      (ClosesOpened token.content → token.names = none) := by
  intro token
  have htoken : token ∈ tagTokens {} (text "/** @since \x7d\n * \x7b 1.2 */") := by decide +kernel
  exact ⟨htoken, rfl, tagTokens_untyped {} _ htoken rfl⟩

/-- A closing brace that closes nothing gives a tag without a type a name. -/
theorem tagTokens_untyped_named :
    Settings.ofDocument (text "<string>") [] = .ok {} ∧
      ∃ token ∈ tagTokens {} (text "/** @see \x7d foo */"),
        token.types = none ∧ token.names = some [text "foo"] :=
  ⟨ok_of_toOption (by decide +kernel), by decide +kernel⟩

end CommentTags
