import CommentTags.FileSystem
import CommentTags.FileText

/-!
What was written to a file is read from it: the bytes through the file system, and the text through
its encoding as long as it holds no carriage return.
-/

namespace CommentTags

theorem decodeFile_encodeFile (s : String) :
    decodeFile (encodeFile s) = some ((unifyBreaks s.toList).map .char) := by
  have hread : String.fromUTF8? ⟨(encodeFile s).toArray⟩ = some s := dif_pos s.isValidUTF8
  rw [decodeFile, hread, Option.map_some]

theorem unifyBreaks_of_no_return {cs : List Char} (h : ∀ c ∈ cs, c ≠ '\r') :
    unifyBreaks cs = cs := by
  induction cs with
  | nil => rfl
  | cons c cs ih =>
    have hc : c ≠ '\r' := h c (by simp)
    have hcs := ih fun x hx => h x (by simp [hx])
    rw [unifyBreaks, hcs]
    · exact fun _ h _ => hc h
    · exact hc

namespace FileSystem

/-! Putting an entry. -/

theorem lookup_replaced (p q : Place) (e : FileEntry) (l : List (Place × FileEntry)) :
    (l.map fun x => if x.1 = p then (p, e) else x).lookup q =
      if q = p then (l.lookup p).map fun _ => e else l.lookup q := by
  induction l with
  | nil => simp
  | cons x l ih =>
    obtain ⟨k, f⟩ := x
    simp only [List.map_cons]
    by_cases hk : k = p
    · subst hk
      by_cases hq : q = k
      · simp [hq]
      · simp [List.lookup_cons, hq, ih, beq_false_of_ne hq]
    · by_cases hq : q = p
      · subst hq
        simp [List.lookup_cons, hk, ih, beq_false_of_ne (Ne.symm hk)]
      · simp [List.lookup_cons, hk, hq, ih]

theorem lookup_put (fs : FileSystem) (p q : Place) (e : FileEntry) :
    (fs.put p e).entries.lookup q = if q = p then some e else fs.entries.lookup q := by
  unfold put
  split
  · rename_i h
    obtain ⟨f, hf⟩ := Option.isSome_iff_exists.mp h
    simp [lookup_replaced, hf]
  · rename_i h
    rw [Bool.not_eq_true, Option.isSome_eq_false_iff, Option.isNone_iff_eq_none] at h
    by_cases hq : q = p
    · subst hq
      simp [List.lookup_append, h]
    · simp [List.lookup_append, List.lookup_cons, hq, beq_false_of_ne hq]

@[simp]
theorem cwd_put (fs : FileSystem) (p : Place) (e : FileEntry) : (fs.put p e).cwd = fs.cwd := by
  unfold put
  split <;> rfl

/-- An entry that is put where no directory is takes its place, and only that. -/
theorem entry?_put {fs : FileSystem} {p : Place} (h : fs.entry? p ≠ some .directory)
    (e : FileEntry) (q : Place) :
    entry? (fs.put p e) q = if q = p then some e else fs.entry? q := by
  have hcwd : p.isPrefixOf fs.cwd = false := by
    cases hpre : p.isPrefixOf fs.cwd with
    | false => rfl
    | true => exact absurd (by simp [ entry?, hpre]) h
  by_cases hq : q = p
  · subst hq
    simp [ entry?, hcwd, lookup_put]
  · simp [ entry?, lookup_put, hq]

/-- Every directory of `fs` is one of `fs'`. -/
def KeepsDirectories (fs fs' : FileSystem) : Prop :=
  ∀ q, fs.entry? q = some .directory → fs'.entry? q = some .directory

/-- A walk goes through directories only. -/
theorem KeepsDirectories.walk {fs fs' : FileSystem} (hkeep : KeepsDirectories fs fs')
    {names : List Text} {here there : Place} (h : fs.walk here names = .ok there) :
    fs'.walk here names = .ok there := by
  induction names generalizing here with
  | nil => exact h
  | cons name names ih =>
    rw [FileSystem.walk] at h ⊢
    cases hd : fs.entry? here with
    | none => simp [hd] at h
    | some f =>
      cases f with
      | file bytes => simp [hd] at h
      | directory =>
        rw [hkeep here hd]
        simp only [hd] at h ⊢
        split at h
        · rename_i hup
          rw [if_pos hup]
          exact ih h
        · rename_i hup
          rw [if_neg hup]
          split at h
          · cases h
          · rename_i hlong
            rw [if_neg hlong]
            exact ih h

theorem KeepsDirectories.locate {fs fs' : FileSystem} (hkeep : KeepsDirectories fs fs')
    (hcwd : fs'.cwd = fs.cwd) {p : Path} {there : Place} (h : fs.locate p = .ok there) :
    fs'.locate p = .ok there := by
  unfold FileSystem.locate at h ⊢
  rw [hcwd]
  split at h
  · cases h
  · split at h
    · cases h
    · rename_i hlong
      rw [if_neg hlong]
      exact hkeep.walk h

theorem keepsDirectories_put {fs : FileSystem} {p : Place} (hp : fs.entry? p ≠ some .directory)
    (e : FileEntry) : KeepsDirectories fs (fs.put p e) := by
  intro q hq
  have hne : q ≠ p := by
    rintro rfl
    exact hp hq
  rw [entry?_put hp, if_neg hne, hq]

/-! Faults. -/

theorem walk_error {fs : FileSystem} {here : Place} {names : List Text} {e : IoError}
    (h : fs.walk here names = .error e) : e.isFault = false := by
  induction names generalizing here with
  | nil => cases h
  | cons name names ih =>
    rw [walk] at h
    split at h
    · cases h
      rfl
    · cases h
      rfl
    · split at h
      · exact ih h
      · split at h
        · cases h
          rfl
        · exact ih h

/-- The system takes a path or does not, whatever is there. -/
theorem locate_fault {fs : FileSystem} {p : Path} {e : IoError} (h : fs.locate p = .error e)
    (he : e.isFault) : unusable? p = some e := by
  unfold locate at h
  split at h
  · rename_i hp
    cases h
    exact hp
  · split at h
    · cases h
      cases he
    · rw [walk_error h] at he
      cases he

theorem read_fault {fs : FileSystem} {p : Path} {f : IoFailure} (h : fs.read p = .error f)
    (hf : f.cause.isFault) : unusable? p = some f.cause ∧ f.path = p := by
  unfold read at h
  split at h
  · rename_i hp
    cases h
    exact ⟨locate_fault hp hf, rfl⟩
  · split at h
    · cases h
      cases hf
    · cases h
      cases hf
    · cases h

/-! Writing and reading. -/

/-- A file is written where its path leads, unless a directory is there. -/
theorem write_eq_ok {fs fs' : FileSystem} {p : Path} {bytes : List UInt8}
    (h : fs.write p bytes = .ok fs') :
    ∃ place, fs.locate p = .ok place ∧ fs.entry? place ≠ some .directory ∧
      fs' = fs.put place (.file bytes) := by
  unfold write at h
  split at h
  · cases h
  · rename_i place hplace
    split at h
    · cases h
    · rename_i hdir
      cases h
      exact ⟨place, hplace, hdir, rfl⟩

theorem read_of_write {fs fs' : FileSystem} {p : Path} {bytes : List UInt8}
    (h : fs.write p bytes = .ok fs') : fs'.read p = .ok bytes := by
  obtain ⟨place, hplace, hdir, rfl⟩ := write_eq_ok h
  have hthere : (fs.put place (.file bytes)).locate p = .ok place :=
    (keepsDirectories_put hdir _).locate (cwd_put ..) hplace
  simp only [read, hthere, entry?_put hdir, ↓reduceIte]

/-- Whether a file can be written does not depend on what is written. -/
theorem failure_writeDeep (fs : FileSystem) (p : Path) (bytes bytes' : List UInt8) :
    (fs.writeDeep p bytes).failure = (fs.writeDeep p bytes').failure := by
  have hwrite (fs : FileSystem) : (Attempt.ofStep fs (fs.write p bytes)).failure =
      (Attempt.ofStep fs (fs.write p bytes')).failure := by
    unfold write
    split
    · rfl
    · split <;> rfl
  unfold writeDeep Attempt.andThen
  split
  · exact hwrite _
  · rfl

/-- A file that was written after making the directories above it was written. -/
theorem write_of_writeDeep {fs : FileSystem} {p : Path} {bytes : List UInt8}
    (h : (fs.writeDeep p bytes).failure = none) :
    ∃ fs' : FileSystem, fs'.write p bytes = .ok (fs.writeDeep p bytes).fs := by
  unfold writeDeep Attempt.andThen at h ⊢
  generalize fs.ensureDirectories maxLevels p.parent = a at h ⊢
  cases hf : a.failure with
  | some f => simp [hf] at h
  | none =>
    simp only [hf] at h ⊢
    cases hw : a.fs.write p bytes with
    | error f => simp [hw, Attempt.ofStep] at h
    | ok fs' => exact ⟨a.fs, hw⟩

theorem read_of_writeDeep {fs : FileSystem} {p : Path} {bytes : List UInt8}
    (h : (fs.writeDeep p bytes).failure = none) :
    (fs.writeDeep p bytes).fs.read p = .ok bytes := by
  obtain ⟨fs', hw⟩ := write_of_writeDeep h
  exact read_of_write hw

end FileSystem
end CommentTags
