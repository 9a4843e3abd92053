import CommentTags.Proofs.Directories

/-!
Files that are written into one directory, one after the other, each after making the directories
above it. If the directories cannot be made, nothing is ever written; else each file is written or
not as if it were the only one, and the order does not matter.
-/

namespace CommentTags
namespace FileSystem

/-- The bytes at a place, if a file is there. -/
def contents? (fs : FileSystem) (q : Place) : Option (List UInt8) :=
  match fs.entry? q with
  | some (.file bytes) => some bytes
  | _ => none

theorem Grown.contents? {targets : Place → Prop} {fs fs' : FileSystem} (h : Grown targets fs fs')
    {q : Place} (hno : ¬ targets q) : fs'.contents? q = fs.contents? q := by
  have hentry := h.entry q
  unfold FileSystem.contents?
  generalize fs.entry? q = e at hentry ⊢
  generalize fs'.entry? q = e' at hentry ⊢
  cases hentry with
  | same => rfl
  | made => rfl
  | written ht => exact absurd ht hno

/-- A name in a directory, and the bytes to write there. -/
abbrev Write := Text × List UInt8

section Writes

variable (fs : FileSystem) (dir : Path)

def Write.place (w : Write) : Place := fs.placeOf (dir.child w.1)

/-- Can the file be written, with the directories that it takes? -/
def Write.Succeeds (w : Write) : Prop := (fs.writeDeep (dir.child w.1) w.2).failure = none

/-- The files after some writes into a directory that is there, or could be made. -/
structure Inside (ws : List Write) (fs' : FileSystem) : Prop where
  made : (fs.ensureDirectories maxLevels dir).failure = none
  grown : Grown (fun q => ∃ w ∈ ws, q = w.place fs dir)
    (fs.ensureDirectories maxLevels dir).fs fs'
  written : ∀ w ∈ ws, w.Succeeds fs dir → fs'.entry? (w.place fs dir) = some (.file w.2)
  other : ∀ q, (∀ w ∈ ws, w.Succeeds fs dir → q ≠ w.place fs dir) →
    fs'.entry? q = entry? (fs.ensureDirectories maxLevels dir).fs q

/-- The files after some writes that met no fault. -/
inductive Written (ws : List Write) : FileSystem → Prop where
  | untouched (hws : ws = []) : Written ws fs
  | blocked {f : IoFailure} (hws : ws ≠ [])
      (hfailure : (fs.ensureDirectories maxLevels dir).failure = some f)
      (hf : f.cause.isFault = false) : Written ws (fs.ensureDirectories maxLevels dir).fs
  | inside {fs' : FileSystem} (hws : ws ≠ []) (h : Inside fs dir ws fs') : Written ws fs'

/-- Two attempts that went well, or failed in the same way but for the wording. -/
def SameFailure (f f' : Option IoFailure) : Prop :=
  f = f' ∨ ∃ g g', f = some g ∧ f' = some g' ∧ g.cause.isFault = false ∧ g'.cause.isFault = false

end Writes

section Step

variable {fs fs' : FileSystem} {dir : Path} {ws : List Write}

theorem writeDeep_child (fs : FileSystem) (dir : Path) (name : Text) (bytes : List UInt8) :
    fs.writeDeep (dir.child name) bytes =
      (fs.ensureDirectories maxLevels dir).andThen (·.write (dir.child name) bytes) := by
  have hparent : (dir.child name).parent = dir := by simp [Path.child, Path.parent]
  rw [writeDeep, hparent]

theorem not_succeeds_of_failure {f : IoFailure}
    (h : (fs.ensureDirectories maxLevels dir).failure = some f) (w : Write) :
    ¬ w.Succeeds fs dir := by
  rw [Write.Succeeds, writeDeep_child, Attempt.andThen, h]
  simp [h]

theorem Written.grown (h : Written fs dir ws fs') :
    Grown (fun q => ∃ w ∈ ws, q = w.place fs dir) fs fs' := by
  cases h with
  | untouched => exact .refl _ _
  | blocked => exact grown_ensureDirectories _ fs _ dir
  | inside hws h => exact (grown_ensureDirectories _ fs _ dir).trans h.grown

/-- Before the first write. -/
theorem inside_nil (h : (fs.ensureDirectories maxLevels dir).failure = none) :
    Inside fs dir [] (fs.ensureDirectories maxLevels dir).fs where
  made := h
  grown := .refl _ _
  written := by simp
  other := fun _ _ => rfl

theorem writeDeep_of_made (h : (fs.ensureDirectories maxLevels dir).failure = none) (w : Write) :
    fs.writeDeep (dir.child w.1) w.2 = .ofStep (fs.ensureDirectories maxLevels dir).fs
      ((fs.ensureDirectories maxLevels dir).fs.write (dir.child w.1) w.2) := by
  rw [writeDeep_child, Attempt.andThen, h]

theorem Inside.writeDeep (h : Inside fs dir ws fs') (w : Write) :
    fs'.writeDeep (dir.child w.1) w.2 = .ofStep fs' (fs'.write (dir.child w.1) w.2) := by
  have hdir : fs'.isDirectory dir := h.grown.isDirectory (isDirectory_of_ensureDirectories h.made)
  have hagain : fs'.ensureDirectories maxLevels dir = { fs := fs' } :=
    ensureDirectories_of_isDirectory hdir _
  rw [writeDeep_child, hagain, Attempt.andThen]

/-- **Step inside.** A file that is not yet there is written as it would be if it were the first. -/
theorem Inside.step (h : Inside fs dir ws fs') (w : Write)
    (hfresh : ∀ v ∈ ws, w.place fs dir ≠ v.place fs dir) :
    (fs'.writeDeep (dir.child w.1) w.2).failure =
        (fs.writeDeep (dir.child w.1) w.2).failure ∧
      Inside fs dir (ws ++ [w]) (fs'.writeDeep (dir.child w.1) w.2).fs := by
  have hdir := isDirectory_of_ensureDirectories h.made
  have hfirst := writeDeep_of_made h.made w
  have hnext := h.writeDeep w
  have hplace : (fs.ensureDirectories maxLevels dir).fs.placeOf (dir.child w.1) = w.place fs dir :=
    placeOf_of_cwd (grown_ensureDirectories (fun _ => False) fs maxLevels dir).cwd _
  have hsame := h.other (w.place fs dir) fun v hv _ => hfresh v hv
  have hwrite := h.grown.write_child hdir (by rw [hplace]; exact hsame) w.2
  rw [hplace] at hwrite
  have hsucceeds : w.Succeeds fs dir ↔ (fs.writeDeep (dir.child w.1) w.2).failure = none := .rfl
  cases hmade : (fs.ensureDirectories maxLevels dir).fs.write (dir.child w.1) w.2 with
  | error f =>
    rw [hmade] at hfirst hwrite
    rw [hwrite] at hnext
    rw [hfirst] at hsucceeds
    have hfails : ¬ w.Succeeds fs dir := by simp [hsucceeds, Attempt.ofStep]
    rw [hnext, hfirst]
    refine ⟨rfl, h.made, h.grown.mono ?_, ?_, ?_⟩
    · rintro q ⟨v, hv, hq⟩
      exact ⟨v, by simp [hv], hq⟩
    · intro v hv hsucc
      rcases List.mem_append.mp hv with hv | hv
      · exact h.written v hv hsucc
      · rw [List.mem_singleton.mp hv] at hsucc
        exact absurd hsucc hfails
    · intro q hq
      exact h.other q fun v hv => hq v (by simp [hv])
  | ok made =>
    rw [hmade] at hfirst hwrite
    rw [hwrite] at hnext
    obtain ⟨place, hlocate, hfree, -⟩ := write_eq_ok hmade
    rw [eq_placeOf_of_locate hlocate, hplace, ← hsame] at hfree
    rw [hnext, hfirst]
    refine ⟨rfl, h.made, ?_, ?_, ?_⟩
    · refine (h.grown.mono ?_).trans (grown_put_file ⟨w, by simp, rfl⟩ hfree w.2)
      rintro q ⟨v, hv, hq⟩
      exact ⟨v, by simp [hv], hq⟩
    · intro v hv hsucc
      change entry? (fs'.put (w.place fs dir) (.file w.2)) (v.place fs dir) = _
      rw [entry?_put hfree]
      rcases List.mem_append.mp hv with hv | hv
      · rw [if_neg fun heq => hfresh v hv heq.symm]
        exact h.written v hv hsucc
      · rw [List.mem_singleton.mp hv, if_pos rfl]
    · intro q hq
      change entry? (fs'.put (w.place fs dir) (.file w.2)) q = _
      have hsucc : w.Succeeds fs dir := by
        rw [hsucceeds, hfirst]
        rfl
      rw [entry?_put hfree, if_neg (hq w (by simp) hsucc)]
      exact h.other q fun v hv => hq v (by simp [hv])

theorem writeDeep_of_failure {f : IoFailure}
    (h : (fs.ensureDirectories maxLevels dir).failure = some f) (w : Write) :
    fs.writeDeep (dir.child w.1) w.2 = fs.ensureDirectories maxLevels dir := by
  rw [writeDeep_child, Attempt.andThen, h]

/-- **Step.** A further write goes as it would have gone first. -/
theorem Written.step (h : Written fs dir ws fs') (w : Write)
    (hfresh : ∀ v ∈ ws, w.place fs dir ≠ v.place fs dir) :
    let attempt := fs'.writeDeep (dir.child w.1) w.2
    SameFailure attempt.failure (fs.writeDeep (dir.child w.1) w.2).failure ∧
      ((∀ f, attempt.failure = some f → f.cause.isFault = false) →
        Written fs dir (ws ++ [w]) attempt.fs) := by
  intro attempt
  cases h with
  | untouched hws =>
    refine ⟨.inl rfl, fun hfault => ?_⟩
    subst hws
    -- This write is the one that makes the directories, or is stopped by them.
    cases ha : (fs.ensureDirectories maxLevels dir).failure with
    | some f =>
      have hfirst := writeDeep_of_failure ha w
      have hf := hfault f (by simp only [attempt, hfirst, ha])
      simp only [attempt, hfirst]
      exact .blocked (by simp) ha hf
    | none =>
      obtain ⟨-, hinside⟩ := (inside_nil ha).step w (by simp)
      rw [(inside_nil ha).writeDeep, ← writeDeep_of_made ha] at hinside
      exact .inside (by simp) hinside
  | blocked hws ha hf =>
    obtain ⟨f', hagain, hfault⟩ := ensureDirectories_again ha
    have hblocked : attempt = ⟨(fs.ensureDirectories maxLevels dir).fs, some f'⟩ := by
      simp only [attempt, writeDeep_child, hagain, Attempt.andThen]
    rw [hblocked, writeDeep_of_failure ha]
    exact ⟨.inr ⟨f', _, rfl, ha, hfault hf, hf⟩, fun _ => .blocked (by simp) ha hf⟩
  | inside hws h =>
    obtain ⟨hfailure, hinside⟩ := h.step w hfresh
    exact ⟨.inl hfailure, fun _ => .inside (by simp) hinside⟩

/-! What was written. -/

theorem Written.contents_of_succeeds (h : Written fs dir ws fs') {w : Write} (hw : w ∈ ws)
    (hsucc : w.Succeeds fs dir) : fs'.contents? (w.place fs dir) = some w.2 := by
  cases h with
  | untouched hws => simp [hws] at hw
  | blocked hws ha => exact absurd hsucc (not_succeeds_of_failure ha w)
  | inside hws h => rw [contents?, h.written w hw hsucc]

theorem Written.contents_elsewhere (h : Written fs dir ws fs') {q : Place}
    (hq : ∀ w ∈ ws, w.Succeeds fs dir → q ≠ w.place fs dir) :
    fs'.contents? q = fs.contents? q := by
  have hmade : (fs.ensureDirectories maxLevels dir).fs.contents? q = fs.contents? q :=
    (grown_ensureDirectories (fun _ => False) fs maxLevels dir).contents? id
  cases h with
  | untouched => rfl
  | blocked => exact hmade
  | inside hws h => rw [← hmade, contents?, contents?, h.other q hq]

/-- The order of the writes does not matter. -/
theorem Written.entry_eq {ws' : List Write} {fs'' : FileSystem} (h : Written fs dir ws fs')
    (h' : Written fs dir ws' fs'') (hmem : ∀ w, w ∈ ws' ↔ w ∈ ws) (q : Place) :
    fs''.entry? q = fs'.entry? q := by
  have hnil : ws' = [] ↔ ws = [] := by
    simp only [List.eq_nil_iff_forall_not_mem, hmem]
  cases h with
  | untouched hws =>
    cases h' with
    | untouched => rfl
    | blocked hws' => exact absurd (hnil.mpr hws) hws'
    | inside hws' => exact absurd (hnil.mpr hws) hws'
  | blocked hws ha =>
    cases h' with
    | untouched hws' => exact absurd (hnil.mp hws') hws
    | blocked => rfl
    | inside hws' h' => simp [h'.made] at ha
  | inside hws h =>
    cases h' with
    | untouched hws' => exact absurd (hnil.mp hws') hws
    | blocked hws' ha => simp [h.made] at ha
    | inside hws' h' =>
      by_cases hq : ∃ w ∈ ws, w.Succeeds fs dir ∧ q = w.place fs dir
      · obtain ⟨w, hw, hsucc, rfl⟩ := hq
        rw [h.written w hw hsucc, h'.written w ((hmem w).mpr hw) hsucc]
      · have hother : ∀ w ∈ ws, w.Succeeds fs dir → q ≠ w.place fs dir :=
          fun w hw hsucc heq => hq ⟨w, hw, hsucc, heq⟩
        rw [h.other q hother, h'.other q fun w hw => hother w ((hmem w).mp hw)]

end Step
end FileSystem
end CommentTags
