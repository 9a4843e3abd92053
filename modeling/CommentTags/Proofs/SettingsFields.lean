import CommentTags.Proofs.Scanning
import CommentTags.Proofs.SettingsDocument

/-!
The settings that the value of a document gives, said on the value alone, and how they compare with
the settings that are read: a document that loads is taken exactly if its value gives valid
settings, and what is read are these settings. Any other document is refused, unless its mapping has
a key that is no text: the report of unknown fields cannot name that key, and reading meets a fault.
-/

namespace CommentTags

/-- The keys of a mapping; other values have none. -/
def Yaml.Value.keys : Yaml.Value → List Yaml.Key
  | .mapping fields => fields.map (·.1)
  | _ => []

namespace Settings

open Yaml (Value Key)

/-! What a value gives. -/

/-- What holds of all settings that are read. -/
structure Valid (s : Settings) : Prop where
  marker : ∃ k : CodePoint, s.marker = [k] ∧ k.IsMarker
  placeholder : s.placeholder ≠ []
  defaultType : s.defaultType ≠ []

/-- The text in the field of a key, or the default if there is no such field. -/
inductive TextFrom (fields : List (Key × Value)) (key default : Text) : Text → Prop
  | absent : Value.get? key fields = none → TextFrom fields key default default
  | present {t : Text} : Value.get? key fields = some (.text t) → TextFrom fields key default t

/-- The set of the texts that are listed in the field of a key, or the default if there is no such
field. -/
inductive TextSetFrom (fields : List (Key × Value)) (key : Text) (default : List Text) :
    List Text → Prop
  | absent : Value.get? key fields = none → TextSetFrom fields key default default
  | present {listed set : List Text} :
      Value.get? key fields = some (.list (listed.map .text)) → (∀ t, t ∈ set ↔ t ∈ listed) →
        TextSetFrom fields key default set

/-- Each setting is in the field of its key or has its default, and no field has another key. -/
structure SetByFields (fields : List (Key × Value)) (s : Settings) : Prop where
  known : ∀ k ∈ fields.map (·.1), ∃ t ∈ knownKeys, k = .text t
  marker : TextFrom fields markerKey ({} : Settings).marker s.marker
  placeholder : TextFrom fields placeholderKey ({} : Settings).placeholder s.placeholder
  defaultType : TextFrom fields defaultTypeKey ({} : Settings).defaultType s.defaultType
  requiredTags : TextSetFrom fields requiredTagsKey ({} : Settings).requiredTags s.requiredTags

inductive SetBy : Value → Settings → Prop
  | empty : SetBy .null {}
  | mapping {fields : List (Key × Value)} {s : Settings} :
      SetByFields fields s → SetBy (.mapping fields) s

/-! The fields. -/

theorem isMarker_of_exists {m : Text} (h : ∃ k : CodePoint, m = [k] ∧ k.IsMarker) : isMarker m := by
  obtain ⟨k, rfl, hk⟩ := h
  have hbrace := hk.not_brace
  simp only [CodePoint.isBrace, Bool.or_eq_false_iff, decide_eq_false_iff_not] at hbrace
  simp [isMarker, hk.not_alphanumeric, hk.not_blank, hbrace, hk.not_star, hk.not_slash]

section Fields

variable {label key : Text} {fields : List (Key × Value)}

theorem textField_eq_ok {default t : Text} (hdefault : default ≠ []) :
    textField label fields key default = .ok t ↔ TextFrom fields key default t ∧ t ≠ [] := by
  constructor
  · intro h
    refine ⟨?_, textField_ne_nil hdefault h⟩
    unfold textField at h
    split at h
    case h_1 hnone =>
      cases h
      exact .absent hnone
    case h_2 htext =>
      cases h
      exact .present htext
    case h_3 => cases h
  · rintro ⟨hfrom, hne⟩
    cases hfrom with
    | absent hnone => simp [textField, hnone]
    | present htext =>
      obtain ⟨c, t, rfl⟩ := List.exists_cons_of_ne_nil hne
      simp [textField, htext]

theorem faultless_textField (default : Text) :
    Faultless (textField label fields key default) := by
  unfold textField
  split
  · exact faultless_ok _
  · exact faultless_ok _
  · exact faultless_refused _

theorem texts_eq_some {vs : List Value} {ts : List Text} :
    texts vs = some ts ↔ vs = ts.map .text := by
  induction vs generalizing ts with
  | nil => cases ts <;> simp [texts]
  | cons v vs ih =>
    cases v with
    | text t =>
      cases ts with
      | nil => simp [texts]
      | cons u ts => simpa [texts, ih] using and_comm
    | null | list | mapping | other => cases ts <;> simp [texts]

theorem textSetFrom_of_textSetField {default ts : List Text}
    (h : textSetField label fields key default = .ok ts) : TextSetFrom fields key default ts := by
  unfold textSetField at h
  split at h
  case h_1 hnone =>
    cases h
    exact .absent hnone
  case h_2 vs hlist =>
    split at h
    case h_1 listed hlisted =>
      cases h
      rw [texts_eq_some.mp hlisted] at hlist
      exact .present hlist fun t => List.mem_eraseDups
    case h_2 => cases h
  case h_3 => cases h

theorem TextSetFrom.exists_ok {default ts : List Text} (h : TextSetFrom fields key default ts) :
    ∃ read, textSetField label fields key default = .ok read := by
  cases h with
  | absent hnone => exact ⟨default, by simp [textSetField, hnone]⟩
  | @present listed _ hlist _ =>
    have hlisted : texts (listed.map .text) = some listed := texts_eq_some.mpr rfl
    exact ⟨listed.eraseDups, by simp [textSetField, hlist, hlisted]⟩

theorem faultless_textSetField (default : List Text) :
    Faultless (textSetField label fields key default) := by
  unfold textSetField
  split
  · exact faultless_ok _
  · split
    · exact faultless_ok _
    · exact faultless_refused _
  · exact faultless_refused _

/-! The keys. -/

theorem unknownKeys_eq_nil :
    unknownKeys fields = [] ↔ ∀ k ∈ fields.map (·.1), ∃ t ∈ knownKeys, k = .text t := by
  unfold unknownKeys
  rw [List.filter_eq_nil_iff]
  refine forall₂_congr fun k _ => ?_
  cases k <;> simp

theorem other_mem_unknownKeys :
    .other ∈ unknownKeys fields ↔ .other ∈ fields.map (·.1) := by
  simp [unknownKeys]

theorem keyTexts_eq_none {ks : List Key} : keyTexts ks = none ↔ .other ∈ ks := by
  induction ks with
  | nil => simp [keyTexts]
  | cons k ks ih =>
    cases k with
    | text t => simp [keyTexts, ih]
    | other => simp [keyTexts]

/-! All fields. -/

theorem setByFields_of_ofFields {s : Settings} (h : ofFields label fields = .ok s) :
    SetByFields fields s := by
  obtain ⟨hknown, hmarker, -, hplaceholder, hdefault, hrequired⟩ := ofFields_eq_ok.mp h
  exact {
    known := unknownKeys_eq_nil.mp hknown
    marker := ((textField_eq_ok (by decide)).mp hmarker).1
    placeholder := ((textField_eq_ok (by decide)).mp hplaceholder).1
    defaultType := ((textField_eq_ok (by decide)).mp hdefault).1
    requiredTags := textSetFrom_of_textSetField hrequired }

theorem SetByFields.exists_ok {s : Settings} (h : SetByFields fields s) (hs : s.Valid) :
    ∃ read, ofFields label fields = .ok read := by
  have hne : s.marker ≠ [] := by
    obtain ⟨k, hk, -⟩ := hs.marker
    simp [hk]
  obtain ⟨requiredTags, hrequired⟩ :
      ∃ read, textSetField label fields requiredTagsKey ({} : Settings).requiredTags = .ok read :=
    h.requiredTags.exists_ok
  -- the set may be read in another order than it is given
  refine ⟨{ s with requiredTags }, ofFields_eq_ok.mpr ⟨unknownKeys_eq_nil.mpr h.known, ?_,
    isMarker_of_exists hs.marker, ?_, ?_, hrequired⟩⟩
  · exact (textField_eq_ok (by decide)).mpr ⟨h.marker, hne⟩
  · exact (textField_eq_ok (by decide)).mpr ⟨h.placeholder, hs.placeholder⟩
  · exact (textField_eq_ok (by decide)).mpr ⟨h.defaultType, hs.defaultType⟩

/-- Known keys are texts, so that only the report of unknown ones can meet a fault. -/
theorem ofFields_eq_fault {f : Fault} :
    ofFields label fields = .error (.fault f) ↔
      f = .unnamedSetting ∧ .other ∈ fields.map (·.1) := by
  unfold ofFields
  rw [← other_mem_unknownKeys]
  split
  case h_1 hknown =>
    rw [hknown]
    refine iff_of_false (Faultless.bind (faultless_textField _) (fun marker => ?_) f) (by simp)
    dsimp only
    split
    · exact faultless_refused _
    · refine (faultless_textField _).bind fun placeholder => ?_
      refine (faultless_textField _).bind fun defaultType => ?_
      refine (faultless_textSetField _).bind fun requiredTags => ?_
      exact faultless_ok _
  case h_2 =>
    rw [← keyTexts_eq_none]
    split
    case h_1 htexts => simp [htexts]
    case h_2 htexts => simp [htexts, eq_comm]

end Fields

/-! Documents. -/

theorem valid_of_ofDocument {label t : Text} {s : Settings} (h : ofDocument label t = .ok s) :
    s.Valid := by
  obtain ⟨hplaceholder, hdefaultType⟩ := nonempty_of_ofDocument h
  exact ⟨exists_of_isMarker (isMarker_of_ofDocument h), hplaceholder, hdefaultType⟩

section Documents

variable {label : Text} {v : Value}

theorem setBy_of_ofValue {s : Settings} (h : ofValue label v = .ok s) : SetBy v s := by
  cases v with
  | null =>
    cases h
    exact .empty
  | mapping fields => exact .mapping (setByFields_of_ofFields h)
  | text | list | other => cases h

theorem SetBy.exists_ok {s : Settings} (h : SetBy v s) (hs : s.Valid) :
    ∃ read, ofValue label v = .ok read := by
  cases h with
  | empty => exact ⟨_, rfl⟩
  | mapping h => exact h.exists_ok hs

theorem ofValue_eq_fault {f : Fault} :
    ofValue label v = .error (.fault f) ↔ f = .unnamedSetting ∧ Key.other ∈ v.keys := by
  cases v with
  | mapping fields => exact ofFields_eq_fault
  | null | text | list | other => simp [ofValue, Value.keys]

end Documents

/-- A document that loads is taken exactly if its value gives valid settings, and then the settings
that are read are valid and are those that the value gives. Reading meets a fault exactly if the
mapping has a key that is no text, and all other documents are refused. -/
theorem ofDocument_of_load (label : Text) {t : Text} {v : Value} (hload : Yaml.load t = .ok v) :
    (∀ s, ofDocument label t = .ok s → s.Valid ∧ SetBy v s) ∧
    ((∃ s, ofDocument label t = .ok s) ↔ ∃ s : Settings, s.Valid ∧ SetBy v s) ∧
    ((∃ e, ofDocument label t = .error (.refused e)) ↔
      (¬ ∃ s : Settings, s.Valid ∧ SetBy v s) ∧ Key.other ∉ v.keys) ∧
    ∀ f, ofDocument label t = .error (.fault f) ↔ f = .unnamedSetting ∧ Key.other ∈ v.keys := by
  have hvalue : ofDocument label t = ofValue label v := by simp [ofDocument, hload]
  have htaken : ∀ s, ofDocument label t = .ok s → s.Valid ∧ SetBy v s :=
    fun s h => ⟨valid_of_ofDocument h, setBy_of_ofValue (hvalue ▸ h)⟩
  have hexists : (∃ s, ofDocument label t = .ok s) ↔ ∃ s : Settings, s.Valid ∧ SetBy v s := by
    refine ⟨fun ⟨s, h⟩ => ⟨s, htaken s h⟩, fun ⟨s, hs, h⟩ => ?_⟩
    rw [hvalue]
    exact h.exists_ok hs
  have hfault : ∀ f, ofDocument label t = .error (.fault f) ↔
      f = .unnamedSetting ∧ Key.other ∈ v.keys := by
    intro f
    rw [hvalue, ofValue_eq_fault]
  refine ⟨htaken, hexists, ?_, hfault⟩
  have hunnamed : Key.other ∈ v.keys ↔ ofDocument label t = .error (.fault .unnamedSetting) := by
    simp [hfault]
  rw [← hexists, hunnamed]
  -- a reading ends in exactly one of three ways
  match hread : ofDocument label t with
  | .ok s => simp
  | .error (.refused e) => simp
  | .error (.fault f) =>
    have hf := ((hfault f).mp hread).1
    simp [hf]

theorem ofDocument_of_load_repeated :
    ∃ v : Value, Yaml.load (text "required-tags: [see, see]") = .ok v ∧
      ∃ s, ofDocument (text "<string>") (text "required-tags: [see, see]") = .ok s ∧
        s.Valid ∧ SetBy v s ∧ s.requiredTags = [text "see"] := by
  have hloads : (Yaml.load (text "required-tags: [see, see]")).toOption.isSome := by decide +kernel
  obtain ⟨v, hv⟩ := Option.isSome_iff_exists.mp hloads
  have hread : ofDocument (text "<string>") (text "required-tags: [see, see]") =
      .ok { requiredTags := [text "see"] } := ok_of_toOption (by decide +kernel)
  obtain ⟨htaken, -⟩ := ofDocument_of_load (text "<string>") (ok_of_toOption hv)
  obtain ⟨hvalid, hset⟩ := htaken _ hread
  exact ⟨v, ok_of_toOption hv, _, hread, hvalid, hset, rfl⟩

/-- A document with a number as a key is neither taken nor refused. -/
theorem ofDocument_number_key :
    (∃ v, Yaml.load (text "1: x") = .ok v) ∧
    (∀ s, ofDocument (text "<string>") (text "1: x") ≠ .ok s) ∧
    ∀ e, ofDocument (text "<string>") (text "1: x") ≠ .error (.refused e) := by
  have hkeys : (Yaml.load (text "1: x")).toOption.map Value.keys = some [.other] := by
    decide +kernel
  obtain ⟨v, hv, hother⟩ := Option.map_eq_some_iff.mp hkeys
  have hload := ok_of_toOption hv
  have hfault : ofDocument (text "<string>") (text "1: x") = .error (.fault .unnamedSetting) := by
    simp only [ofDocument, hload]
    exact ofValue_eq_fault.mpr ⟨rfl, by simp [hother]⟩
  refine ⟨⟨v, hload⟩, fun s => ?_, fun e => ?_⟩ <;> simp [hfault]

end Settings
end CommentTags
