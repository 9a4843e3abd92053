import CommentTags.Proofs.Failure
import CommentTags.Settings.Document

/-!
What a document that is accepted says of its settings.
-/

namespace CommentTags

namespace Settings

/-- Fields are taken exactly if each of them is, and the settings are what is read from them. -/
theorem ofFields_eq_ok {label : Text} {fields : List (Yaml.Key × Yaml.Value)} {s : Settings} :
    ofFields label fields = .ok s ↔
      unknownKeys fields = [] ∧
      textField label fields markerKey ({} : Settings).marker = .ok s.marker ∧
      isMarker s.marker ∧
      textField label fields placeholderKey ({} : Settings).placeholder = .ok s.placeholder ∧
      textField label fields defaultTypeKey ({} : Settings).defaultType = .ok s.defaultType ∧
      textSetField label fields requiredTagsKey ({} : Settings).requiredTags =
        .ok s.requiredTags := by
  constructor
  · intro h
    unfold ofFields at h
    split at h
    · rename_i hknown
      obtain ⟨marker, hmarker, h⟩ := ok_of_bind h
      dsimp only at h
      split at h
      · cases h
      · rename_i hpunctuation
        obtain ⟨placeholder, hplaceholder, h⟩ := ok_of_bind h
        obtain ⟨defaultType, hdefault, h⟩ := ok_of_bind h
        obtain ⟨requiredTags, hrequired, h⟩ := ok_of_bind h
        cases h
        exact ⟨hknown, hmarker, by simpa using hpunctuation, hplaceholder, hdefault, hrequired⟩
    · split at h <;> cases h
  · rintro ⟨hknown, hmarker, hpunctuation, hplaceholder, hdefault, hrequired⟩
    simp only [ofFields, hknown, hmarker, hplaceholder, hdefault, hrequired]
    simp [bind, Except.bind, pure, Except.pure, hpunctuation]

theorem isMarker_of_ofFields {label : Text} {fields : List (Yaml.Key × Yaml.Value)} {s : Settings}
    (h : ofFields label fields = .ok s) : isMarker s.marker := by
  obtain ⟨-, -, hpunctuation, -⟩ := ofFields_eq_ok.mp h
  exact hpunctuation

theorem isMarker_of_ofDocument {label doc : Text} {s : Settings}
    (h : ofDocument label doc = .ok s) : isMarker s.marker := by
  unfold ofDocument at h
  split at h
  · rename_i v _
    cases v with
    | null =>
      cases h
      rfl
    | mapping fields => exact isMarker_of_ofFields h
    | text | list | other => cases h
  · cases h

theorem textField_ne_nil {label : Text} {fields : List (Yaml.Key × Yaml.Value)}
    {key default t : Text} (hdefault : default ≠ [])
    (h : textField label fields key default = .ok t) : t ≠ [] := by
  unfold textField at h
  split at h
  · cases h
    exact hdefault
  · cases h
    simp
  · cases h

/-- The texts that stand in for something that is missing are not empty. -/
theorem nonempty_of_ofFields {label : Text} {fields : List (Yaml.Key × Yaml.Value)} {s : Settings}
    (h : ofFields label fields = .ok s) : s.placeholder ≠ [] ∧ s.defaultType ≠ [] := by
  obtain ⟨-, -, -, hplaceholder, hdefault, -⟩ := ofFields_eq_ok.mp h
  exact ⟨textField_ne_nil (by simp [text]) hplaceholder,
    textField_ne_nil (by simp [text]) hdefault⟩

theorem nonempty_of_ofDocument {label doc : Text} {s : Settings}
    (h : ofDocument label doc = .ok s) : s.placeholder ≠ [] ∧ s.defaultType ≠ [] := by
  unfold ofDocument at h
  split at h
  · rename_i v _
    cases v with
    | null =>
      cases h
      exact ⟨by simp [text], by simp [text]⟩
    | mapping fields => exact nonempty_of_ofFields h
    | text | list | other => cases h
  · cases h

/-- Settings with another marker. -/
def hashMarker : Settings := { marker := text "#" }

theorem ofDocument_hashMarker :
    ofDocument (text "<string>") (text "marker: '#'") = .ok hashMarker :=
  ok_of_toOption (by decide +kernel)

end Settings
end CommentTags
