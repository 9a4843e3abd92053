import CommentTags.Proofs.FileGrowth

/-!
Making the directories above a file, and making them again. Once they are there, nothing more is
done; if they could not be made, they cannot be made the second time either, and what was made on
the way the first time is all that is ever made.
-/

namespace CommentTags
namespace FileSystem

/-! The parent of a path. -/

theorem byteSize_append (s t : Text) : byteSize (s ++ t) = byteSize s + byteSize t := by
  have hfrom (n : Nat) (t : Text) :
      t.foldl (fun n c => n + (byteSize? c).getD 0) n = n + byteSize t := by
    unfold byteSize
    induction t generalizing n with
    | nil => rfl
    | cons c t ih =>
      rw [List.foldl_cons, List.foldl_cons, ih, ih (0 + _)]
      omega
  rw [byteSize, List.foldl_append, hfrom]
  rfl

theorem joinWith_prefix (sep : Text) (names : List Text) (name : Text) :
    Text.joinWith sep names <+: Text.joinWith sep (names ++ [name]) := by
  induction names with
  | nil => exact List.nil_prefix
  | cons first names ih =>
    cases names with
    | nil => simp [Text.joinWith]
    | cons second names =>
      have hjoin (rest : List Text) : Text.joinWith sep (first :: second :: rest) =
          first ++ sep ++ Text.joinWith sep (second :: rest) := by
        simp [Text.joinWith]
      rw [List.cons_append, List.cons_append, hjoin, hjoin, List.prefix_append_right_inj]
      exact ih

/-- The parent of a path that is short enough is short enough. -/
theorem byteSize_parent {p : Path} (hp : p.parts ≠ []) (h : byteSize p.toText ≤ 4095) :
    byteSize p.parent.toText ≤ 4095 := by
  by_cases hdot : p.slashes = 0 ∧ p.parts.dropLast = []
  · have htext : p.parent.toText = text "." := by
      rw [Path.toText, if_pos (by simpa [Path.parent] using hdot)]
    rw [htext]
    decide
  · have htext : p.parent.toText = List.replicate p.slashes (.char '/') ++
        Text.joinWith [.char '/'] p.parts.dropLast := by
      rw [Path.toText, if_neg (by simpa [Path.parent] using hdot)]
      rfl
    have hself : p.toText = List.replicate p.slashes (.char '/') ++
        Text.joinWith [.char '/'] p.parts := by
      rw [Path.toText, if_neg (by simp [hp])]
    have hprefix : p.parent.toText <+: p.toText := by
      rw [htext, hself, List.prefix_append_right_inj]
      have hjoin := joinWith_prefix [.char '/'] p.parts.dropLast (p.parts.getLast hp)
      rwa [List.dropLast_concat_getLast] at hjoin
    obtain ⟨rest, hrest⟩ := hprefix
    rw [← hrest, byteSize_append] at h
    omega

theorem unusable?_parent {p : Path} (h : unusable? p = none) : unusable? p.parent = none := by
  have hany (f : Text → Bool) (h : p.parts.any f = false) : p.parent.parts.any f = false := by
    rw [List.any_eq_false] at h ⊢
    intro name hname
    exact h name (List.dropLast_subset _ hname)
  unfold unusable? at h ⊢
  split at h
  · cases h
  · rename_i henc
    split at h
    · cases h
    · rename_i hnull
      rw [if_neg (by rw [hany _ (by simpa using henc)]; simp),
        if_neg (by rw [hany _ (by simpa using hnull)]; simp)]

/-- A path that leads somewhere leads there from a directory. -/
theorem isDirectory_parent {fs : FileSystem} {p : Path} {place : Place} (hp : p.parts ≠ [])
    (h : fs.locate p = .ok place) : fs.isDirectory p.parent := by
  unfold locate at h
  split at h
  · cases h
  · rename_i husable
    split at h
    · cases h
    · rename_i hlong
      rw [← List.dropLast_concat_getLast hp, walk_append] at h
      cases habove : fs.walk (if p.isAbsolute then [] else fs.cwd) p.parts.dropLast with
      | error e =>
        rw [habove] at h
        cases h
      | ok above =>
        have hlocate : fs.locate p.parent = .ok above := by
          have hshort := byteSize_parent hp (by omega)
          rw [locate, unusable?_parent husable]
          dsimp only
          rw [if_neg (by omega)]
          exact habove
        refine isDirectory_iff.mpr ⟨above, hlocate, ?_⟩
        rw [habove] at h
        change fs.walk above [p.parts.getLast hp] = .ok place at h
        rw [walk] at h
        split at h
        · cases h
        · cases h
        · assumption

/-! Making directories again. -/

theorem ensureDirectories_of_isDirectory {fs : FileSystem} {p : Path} (h : fs.isDirectory p)
    (n : Nat) : fs.ensureDirectories (n + 1) p = { fs := fs } := by
  rw [ensureDirectories, ensureDirectory_of_isDirectory h]

theorem isDirectory_of_ensureDirectories {fs : FileSystem} {n : Nat} {p : Path}
    (h : (fs.ensureDirectories n p).failure = none) :
    (fs.ensureDirectories n p).fs.isDirectory p := by
  cases n with
  | zero => cases h
  | succ n =>
    rw [ensureDirectories] at h ⊢
    split at h
    · rename_i made hmade
      exact (ensureDirectory_eq_ok (fun _ => False) hmade).2
    · split at h
      · rename_i hmissing
        rw [if_pos hmissing]
        generalize fs.ensureDirectories n p.parent = a at h ⊢
        unfold Attempt.andThen at h ⊢
        cases hfailure : a.failure with
        | some f => simp [hfailure] at h
        | none =>
          simp only [hfailure] at h ⊢
          cases hmade : a.fs.ensureDirectory p with
          | error f => simp [hmade, Attempt.ofStep] at h
          | ok made => exact (ensureDirectory_eq_ok (fun _ => False) hmade).2
      · cases h

/-- A directory can be made only in a directory. -/
theorem isDirectory_parent_of_ensureDirectory {fs fs' : FileSystem} {p : Path}
    (hp : p.parts ≠ []) (h : fs.ensureDirectory p = .ok fs') : fs.isDirectory p.parent := by
  unfold ensureDirectory at h
  split at h
  · rename_i made hmade
    unfold makeDirectory at hmade
    split at hmade
    · cases hmade
    · rename_i place hplace
      exact isDirectory_parent hp hplace
  · split at h
    · rename_i hthere
      obtain ⟨place, hplace, -⟩ := isDirectory_iff.mp hthere.2.2
      exact isDirectory_parent hp hplace
    · cases h

theorem ensureDirectory_fault {fs : FileSystem} {p : Path} {f : IoFailure}
    (h : fs.ensureDirectory p = .error f) (hf : f.cause.isFault) :
    unusable? p = some f.cause ∧ f.path = p := by
  unfold ensureDirectory at h
  split at h
  · cases h
  · rename_i failure hfailure
    split at h
    · cases h
    · cases h
      unfold makeDirectory at hfailure
      split at hfailure
      · rename_i hlocate
        cases hfailure
        exact ⟨locate_fault hlocate hf, rfl⟩
      · split at hfailure
        · cases hfailure
          cases hf
        · cases hfailure

theorem isFault_of_unusable? {p : Path} {e : IoError} (h : unusable? p = some e) : e.isFault := by
  unfold unusable? at h
  split at h
  · cases h
    rfl
  · split at h
    · cases h
      rfl
    · cases h

theorem ensureDirectory_of_unusable {p : Path} {e : IoError} (h : unusable? p = some e)
    (fs : FileSystem) : fs.ensureDirectory p = .error ⟨e, p⟩ := by
  have hlocate : fs.locate p = .error e := by rw [locate, h]
  simp [ensureDirectory, makeDirectory, isDirectory, find?, hlocate]

theorem ensureDirectories_of_error {fs : FileSystem} {p : Path} {f : IoFailure}
    (h : fs.ensureDirectory p = .error f) (n : Nat) :
    fs.ensureDirectories (n + 1) p =
      if f.cause = .notFound ∧ p.parts ≠ [] then
        (fs.ensureDirectories n p.parent).andThen (·.ensureDirectory p)
      else ⟨fs, some f⟩ := by
  rw [ensureDirectories, h]

/-- What could not be made above a directory keeps it from being made. -/
theorem ensureDirectory_below {fs : FileSystem} {n : Nat} {p : Path} {f f' : IoFailure}
    (hp : p.parts ≠ []) (h : fs.ensureDirectory p = .error f)
    (habove : (fs.ensureDirectories n p.parent).fs.ensureDirectories n p.parent =
      ⟨(fs.ensureDirectories n p.parent).fs, some f'⟩) :
    ∃ top, (fs.ensureDirectories n p.parent).fs.ensureDirectory p = .error top := by
  cases n with
  | zero => exact ⟨f, h⟩
  | succ n =>
    generalize (fs.ensureDirectories (n + 1) p.parent).fs = made at habove ⊢
    cases hmade : made.ensureDirectory p with
    | error top => exact ⟨top, rfl⟩
    | ok fs' =>
      have hparent := isDirectory_parent_of_ensureDirectory hp hmade
      rw [ensureDirectories_of_isDirectory hparent] at habove
      cases habove

/-- Directories that could not be made cannot be made now, and nothing more comes of trying. -/
theorem ensureDirectories_again {fs : FileSystem} {n : Nat} {p : Path} {f : IoFailure}
    (h : (fs.ensureDirectories n p).failure = some f) :
    ∃ f', (fs.ensureDirectories n p).fs.ensureDirectories n p =
        ⟨(fs.ensureDirectories n p).fs, some f'⟩ ∧
      (f.cause.isFault = false → f'.cause.isFault = false) := by
  -- Level by level, from the directory upward, as long as the one above is missing.
  induction n generalizing p f with
  | zero =>
    cases h
    exact ⟨_, rfl, id⟩
  | succ n ih =>
    cases hmade : fs.ensureDirectory p with
    | ok made => simp [ensureDirectories, hmade] at h
    | error top =>
      have hfirst := ensureDirectories_of_error hmade n
      by_cases hmissing : top.cause = .notFound ∧ p.parts ≠ []
      · rw [if_pos hmissing] at hfirst
        have husable : unusable? p = none := by
          cases hp : unusable? p with
          | none => rfl
          | some e =>
            rw [ensureDirectory_of_unusable hp] at hmade
            cases hmade
            have hcause : e = .notFound := hmissing.1
            have hfault := isFault_of_unusable? hp
            rw [hcause] at hfault
            cases hfault
        cases habove : (fs.ensureDirectories n p.parent).failure with
        | some g =>
          have hstays : fs.ensureDirectories (n + 1) p = fs.ensureDirectories n p.parent := by
            rw [hfirst, Attempt.andThen, habove]
          -- What failed above fails again, and nothing can be made below it.
          obtain ⟨g', hagain, hfault⟩ := ih habove
          obtain ⟨top', hbelow⟩ := ensureDirectory_below hmissing.2 hmade hagain
          rw [hstays] at h ⊢
          cases habove.symm.trans h
          rw [ensureDirectories_of_error hbelow, hagain]
          split
          · exact ⟨g', rfl, hfault⟩
          · refine ⟨top', rfl, fun _ => ?_⟩
            cases hcause : top'.cause.isFault with
            | false => rfl
            | true =>
              rw [(ensureDirectory_fault hbelow hcause).1] at husable
              cases husable
        | none =>
          -- The directories above are there now, so only the last one is tried again.
          have hthere := isDirectory_of_ensureDirectories habove
          rw [Attempt.andThen, habove] at hfirst
          generalize (fs.ensureDirectories n p.parent).fs = above at hthere hfirst
          cases hbelow : above.ensureDirectory p with
          | ok made => simp [hfirst, hbelow, Attempt.ofStep] at h
          | error top' =>
            have hends : fs.ensureDirectories (n + 1) p = ⟨above, some top'⟩ := by
              simp [hfirst, hbelow, Attempt.ofStep]
            rw [hends] at h ⊢
            cases h
            refine ⟨_, ?_, id⟩
            rw [ensureDirectories_of_error hbelow]
            split
            · cases n with
              | zero => cases habove
              | succ n =>
                rw [ensureDirectories_of_isDirectory hthere]
                simp [Attempt.andThen, Attempt.ofStep, hbelow]
            · rfl
      · rw [if_neg hmissing] at hfirst
        rw [hfirst] at h ⊢
        cases h
        exact ⟨_, hfirst, id⟩

/-! Writing into a directory that is there. -/

theorem walk_of_locate {fs : FileSystem} {p : Path} {place : Place} (h : fs.locate p = .ok place) :
    fs.walk (if p.isAbsolute then [] else fs.cwd) p.parts = .ok place := by
  unfold locate at h
  split at h
  · cases h
  · split at h
    · cases h
    · exact h

section Child

variable {targets : Place → Prop} {fs fs' : FileSystem} {dir : Path}

theorem Grown.locate_child (h : Grown targets fs fs') (hdir : fs.isDirectory dir) (name : Text) :
    fs'.locate (dir.child name) = fs.locate (dir.child name) := by
  obtain ⟨place, hplace, hentry⟩ := isDirectory_iff.mp hdir
  have hwalk := walk_of_locate hplace
  have hwalk' : fs'.walk (if dir.isAbsolute then [] else fs.cwd) dir.parts = .ok place :=
    KeepsDirectories.walk (fun _ => h.directory) hwalk
  have hlast : fs'.walk place [name] = fs.walk place [name] := by
    simp only [walk, hentry, h.directory hentry]
  have hchild : fs'.walk (if dir.isAbsolute then [] else fs.cwd) (dir.parts ++ [name]) =
      fs.walk (if dir.isAbsolute then [] else fs.cwd) (dir.parts ++ [name]) := by
    rw [walk_append, walk_append, hwalk, hwalk']
    exact hlast
  unfold FileSystem.locate
  rw [h.cwd]
  split
  · rfl
  · split
    · rfl
    · exact hchild

/-- A file in a directory that is there can be written as before, if what is at its place is what
was there before. -/
theorem Grown.write_child (h : Grown targets fs fs') (hdir : fs.isDirectory dir) {name : Text}
    (hsame : fs'.entry? (fs.placeOf (dir.child name)) = fs.entry? (fs.placeOf (dir.child name)))
    (bytes : List UInt8) :
    fs'.write (dir.child name) bytes =
      (fs.write (dir.child name) bytes).map fun _ =>
        fs'.put (fs.placeOf (dir.child name)) (.file bytes) := by
  rw [write, write, h.locate_child hdir]
  cases hplace : fs.locate (dir.child name) with
  | error e => rfl
  | ok place =>
    dsimp only
    rw [eq_placeOf_of_locate hplace, hsame]
    split <;> rfl

end Child

end FileSystem
end CommentTags
