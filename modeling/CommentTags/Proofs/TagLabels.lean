import CommentTags.Proofs.MarkerRenaming
import CommentTags.Proofs.TagStarts

/-!
The labels of the tags of a comment. A tag is written as the marker and then its name, and the
label of its token is that name without the markers in it. So a name that holds no marker is the
label. A marker can stand in a name only if it is itself a label character: the dot, the hyphen or
the underscore.
-/

namespace CommentTags

/-- The name of a tag: a word character, then label characters. -/
def IsTagName (name : Text) : Prop :=
  ∃ c r, name = c :: r ∧ c.isWord ∧ ∀ d ∈ r, d.isLabel

theorem IsTagName.isLabel {name : Text} (h : IsTagName name) : ∀ c ∈ name, c.isLabel := by
  obtain ⟨c, r, rfl, hc, hr⟩ := h
  exact List.forall_mem_cons.mpr ⟨CodePoint.isLabel_of_isWord hc, hr⟩

theorem isTagName_takeWhile {t : Text} (h : t.head?.any CodePoint.isWord) :
    IsTagName (t.takeWhile CodePoint.isLabel) := by
  obtain ⟨c, hhead, hc⟩ := Option.any_eq_true .. |>.mp h
  obtain ⟨r, rfl⟩ := List.head?_eq_some_iff.mp hhead
  refine ⟨c, r.takeWhile CodePoint.isLabel, ?_, hc, fun d hd => List.mem_takeWhile_imp hd⟩
  rw [List.takeWhile_cons_of_pos (CodePoint.isLabel_of_isWord hc)]

/-- A name is all that is taken for it, if no label character follows. -/
theorem takeWhile_isLabel_append {name v : Text} (hname : IsTagName name)
    (hv : v.head?.any CodePoint.isLabel = false) :
    (name ++ v).takeWhile CodePoint.isLabel = name := by
  refine takeWhile_append_of_head hname.isLabel fun c hc => ?_
  simpa [Option.mem_def.mp hc] using hv

section Marker

variable {k : CodePoint}

/-- The labels of the tags are those at the tag starts. -/
theorem labels_tags (hk : k.IsMarker) (t : Text) :
    (tags [k] t).map (·.label) = (tagStarts k t).map (labelAt k t) := by
  obtain ⟨front, rest, rfl, hquiet, hseq⟩ := tagSequence_tags hk t
  rw [hseq.labels_eq, ← startsFrom_none, startsFrom_of_quiet hquiet, List.map_map]
  apply List.map_congr_left
  intro p _
  exact (labelAt_shift front rest p).symm

theorem isTagName_of_isTagStartAt {t : Text} {p : Nat} (h : isTagStartAt k t p) :
    ∃ name, labelAt k t p = k :: name ∧ IsTagName name := by
  simp only [isTagStartAt, Bool.and_eq_true] at h
  refine ⟨_, rfl, isTagName_takeWhile ?_⟩
  rw [List.head?_drop]
  exact h.1.2

theorem isTagName_of_mem_tags (hk : k.IsMarker) {t : Text} {g : RawTag} (hg : g ∈ tags [k] t) :
    ∃ name, g.label = k :: name ∧ IsTagName name := by
  have hmem : g.label ∈ (tags [k] t).map (·.label) := List.mem_map_of_mem hg
  rw [labels_tags hk] at hmem
  obtain ⟨p, hp, hlabel⟩ := List.mem_map.mp hmem
  rw [← hlabel]
  exact isTagName_of_isTagStartAt (List.mem_filter.mp hp).2

/-- The markers of a label are all taken out, not only the first. -/
theorem label_ofTag {s : Settings} (hs : s.marker = [k]) {g : RawTag} {name : Text}
    (hg : g.label = k :: name) : (Token.ofTag s g).label = name.filter (· ≠ k) := by
  simp only [Token.ofTag, hs, hg]
  rw [Text.remove_singleton]
  simp

theorem label_ofTag_eq_iff {s : Settings} (hs : s.marker = [k]) {g : RawTag} {name : Text}
    (hg : g.label = k :: name) : (Token.ofTag s g).label = name ↔ k ∉ name := by
  rw [label_ofTag hs hg, List.filter_eq_self]
  constructor
  · intro hall hmem
    simpa using hall k hmem
  · intro hk c hc
    have hne : c ≠ k := by
      rintro rfl
      exact hk hc
    simpa using hne

theorem lacksType_eq_isNone {s : Settings} {token : Token} (h : token.label ∈ s.requiredTags) :
    token.lacksType s = token.types.isNone := by
  simp [Token.lacksType, Settings.requires, h]

/-- A marker with a name behind it, written where a tag may start, starts a tag. -/
theorem isTagStartAt_written {u name v : Text} (hu : opensFragment u.getLast?)
    (hname : IsTagName name) : isTagStartAt k (u ++ k :: (name ++ v)) u.length := by
  obtain ⟨c, r, rfl, hc, -⟩ := hname
  have hlen : u.length < (u ++ k :: (c :: r ++ v)).length := by simp
  rw [← isTagStart_eq_isTagStartAt hlen, List.take_left, List.drop_left, isTagStart_eq,
    List.cons_append, opensTag_cons]
  simp [behind, hu, hc]

/-- The tag that is written somewhere in a text has its place among the tags. -/
theorem exists_tag_written (hk : k.IsMarker) {u name v : Text} (hu : opensFragment u.getLast?)
    (hname : IsTagName name) (hv : v.head?.any CodePoint.isLabel = false) :
    ∃ (i : Nat) (g : RawTag), (tagStarts k (u ++ k :: (name ++ v)))[i]? = some u.length ∧
      (tags [k] (u ++ k :: (name ++ v)))[i]? = some g ∧ g.label = k :: name := by
  have hmem : u.length ∈ tagStarts k (u ++ k :: (name ++ v)) :=
    List.mem_filter.mpr ⟨by simp, isTagStartAt_written hu hname⟩
  obtain ⟨i, hi⟩ := List.mem_iff_getElem?.mp hmem
  have hlabel : labelAt k (u ++ k :: (name ++ v)) u.length = k :: name := by
    have hdrop : (u ++ k :: (name ++ v)).drop (u.length + 1) = name ++ v := by simp
    rw [labelAt, hdrop, takeWhile_isLabel_append hname hv]
  have hlabels := congrArg (·[i]?) (labels_tags hk (u ++ k :: (name ++ v)))
  simp only [List.getElem?_map, hi, Option.map_some, hlabel, Option.map_eq_some_iff] at hlabels
  obtain ⟨g, hg, hwritten⟩ := hlabels
  exact ⟨i, g, hi, hg, hwritten⟩

end Marker

/-- The label of a tag is its name without the markers in it, so it is the name exactly if that
holds no marker; this is so of every tag unless the marker is itself a label character. A required
tag whose name holds no marker is checked for a type under that name, wherever it is written. -/
theorem tagTokens_label {label doc : Text} {s : Settings}
    (hs : Settings.ofDocument label doc = .ok s) :
    ∃ k, s.marker = [k] ∧
      (∀ t, ∀ g ∈ tags s.marker t, ∃ name, g.label = k :: name ∧ IsTagName name ∧
        (Token.ofTag s g).label = name.filter (· ≠ k) ∧
        ((Token.ofTag s g).label = name ↔ k ∉ name)) ∧
      (k ∉ [.char '.', .char '-', .char '_'] → ∀ t,
        (tagTokens s t).map (·.label) = (tags s.marker t).map fun g => g.label.tail) ∧
      ∀ u name v, opensFragment u.getLast? → IsTagName name →
        v.head?.any CodePoint.isLabel = false → k ∉ name → name ∈ s.requiredTags →
        ∃ (i : Nat) (token : Token),
          (tagStarts k (u ++ k :: (name ++ v)))[i]? = some u.length ∧
          (tagTokens s (u ++ k :: (name ++ v)))[i]? = some token ∧ token.label = name ∧
          token.lacksType s = token.types.isNone := by
  obtain ⟨k, hmarker, hk⟩ := Settings.exists_of_isMarker (Settings.isMarker_of_ofDocument hs)
  refine ⟨k, hmarker, ?_, ?_, ?_⟩
  · rw [hmarker]
    intro t g hg
    obtain ⟨name, hlabel, hname⟩ := isTagName_of_mem_tags hk hg
    exact ⟨name, hlabel, hname, label_ofTag hmarker hlabel, label_ofTag_eq_iff hmarker hlabel⟩
  · intro hplain t
    have hlabel := hk.isLabel_eq_false hplain
    rw [tagTokens, List.map_map, hmarker]
    apply List.map_congr_left
    intro g hg
    obtain ⟨name, hg, hname⟩ := isTagName_of_mem_tags hk hg
    have hkname : k ∉ name := by
      intro hmem
      have := hname.isLabel k hmem
      simp [hlabel] at this
    rw [Function.comp_apply, (label_ofTag_eq_iff hmarker hg).mpr hkname, hg, List.tail_cons]
  · intro u name v hu hname hv hkname hrequired
    obtain ⟨i, g, hi, hg, hlabel⟩ := exists_tag_written hk hu hname hv
    have htoken := (label_ofTag_eq_iff hmarker hlabel).mpr hkname
    refine ⟨i, Token.ofTag s g, hi, ?_, htoken, lacksType_eq_isNone (htoken ▸ hrequired)⟩
    rw [tagTokens, hmarker, List.getElem?_map, hg]
    rfl

/-- A required name with the two other signs of a label in it, behind a marker that could stand in
a name too. -/
theorem tagTokens_label_underscore :
    let s : Settings := { marker := text "_", requiredTags := [text "a-b.c"] }
    let t : Text := text "/** x\n*" ++ .char '_' :: (text "a-b.c" ++ text " d _e_f */")
    Settings.ofDocument (text "<string>") (text "marker: _\nrequired-tags: [a-b.c]") = .ok s ∧
      ∃ (i : Nat) (token : Token), (tagStarts (.char '_') t)[i]? = some 7 ∧
        (tagTokens s t)[i]? = some token ∧ token.label = text "a-b.c" ∧
        token.lacksType s = token.types.isNone := by
  intro s t
  have hs : Settings.ofDocument (text "<string>") (text "marker: _\nrequired-tags: [a-b.c]") =
      .ok s := ok_of_toOption (by decide +kernel)
  have hname : IsTagName (text "a-b.c") := ⟨_, _, rfl, by decide +kernel, by decide +kernel⟩
  obtain ⟨k, hmarker, -, -, hwritten⟩ := tagTokens_label hs
  obtain rfl : .char '_' = k := (List.cons.inj hmarker).1
  exact ⟨hs, hwritten (text "/** x\n*") (text "a-b.c") (text " d _e_f */") rfl hname
    (by decide +kernel) (by decide) (by decide)⟩

/-- A marker that stands in the name is lost with the first one: a required tag is then not
checked, and a label can be empty. -/
theorem tagTokens_label_shortened :
    let s : Settings := { marker := text "_", requiredTags := [text "my_tag"] }
    let t : Text := text "/** _my_tag x __ */"
    Settings.ofDocument (text "<string>") (text "marker: _\nrequired-tags: [my_tag]") = .ok s ∧
      (tags s.marker t).map (fun g => g.label.tail) = [text "my_tag", text "_"] ∧
      (tagTokens s t).map (·.label) = [text "mytag", []] ∧
      (tagTokens s t).map (·.types) = [none, none] ∧ Comment.missing s t = [] :=
  ⟨ok_of_toOption (by decide +kernel), by decide +kernel, by decide +kernel, by decide +kernel,
    by decide +kernel⟩

end CommentTags
