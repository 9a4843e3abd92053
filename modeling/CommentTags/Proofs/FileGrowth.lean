import CommentTags.Proofs.Files

/-!
How a file system grows. Without links a path names one place, whatever is there. Making directories
and writing files changes the entry of a place in two ways only: a directory comes where nothing
was, or a file comes where no directory was, at a place that a path was written to. So a directory stays,
every path that led somewhere leads there still, and a file that is not written to keeps its bytes.
In a tree, no file comes under a path by growth either, unless it is written there or the path goes
up again from a directory that was missing.
-/

namespace CommentTags

namespace FileSystem

/-! Places. -/

/-- The place that some names lead to, if there is a directory at each place on the way. -/
def descend (here : Place) (names : List Text) : Place :=
  names.foldl (fun here name => if name = Path.upward then here.dropLast else here ++ [name]) here

/-- The place that a path names, whatever is on the way. -/
def placeOf (fs : FileSystem) (p : Path) : Place :=
  descend (if p.isAbsolute then [] else fs.cwd) p.parts

theorem descend_append (here : Place) (names more : List Text) :
    descend here (names ++ more) = descend (descend here names) more :=
  List.foldl_append

theorem descend_of_no_upward {names : List Text} (h : Path.upward ∉ names) (here : Place) :
    descend here names = here ++ names := by
  induction names generalizing here with
  | nil => simp [descend]
  | cons name names ih =>
    rw [List.mem_cons, not_or] at h
    have hname : name ≠ Path.upward := fun heq => h.1 heq.symm
    have hrest := ih h.2 (here ++ [name])
    rw [descend] at hrest
    rw [descend, List.foldl_cons, if_neg hname, hrest]
    simp

theorem placeOf_child (fs : FileSystem) (p : Path) {name : Text} (h : name ≠ Path.upward) :
    fs.placeOf (p.child name) = fs.placeOf p ++ [name] := by
  have hparts : (p.child name).parts = p.parts ++ [name] := rfl
  have habs : (p.child name).isAbsolute = p.isAbsolute := rfl
  rw [placeOf, placeOf, hparts, habs, descend_append]
  simp [descend, h]

theorem placeOf_of_cwd {fs fs' : FileSystem} (h : fs'.cwd = fs.cwd) (p : Path) :
    fs'.placeOf p = fs.placeOf p := by
  rw [placeOf, placeOf, h]

theorem eq_descend_of_walk {fs : FileSystem} {here there : Place} {names : List Text}
    (h : fs.walk here names = .ok there) : there = descend here names := by
  induction names generalizing here with
  | nil =>
    cases h
    rfl
  | cons name names ih =>
    rw [walk] at h
    rw [descend, List.foldl_cons]
    split at h
    · cases h
    · cases h
    · split at h
      · rename_i hup
        rw [if_pos hup]
        exact ih h
      · rename_i hup
        rw [if_neg hup]
        split at h
        · cases h
        · exact ih h

theorem eq_placeOf_of_locate {fs : FileSystem} {p : Path} {place : Place}
    (h : fs.locate p = .ok place) : place = fs.placeOf p := by
  unfold locate at h
  split at h
  · cases h
  · split at h
    · cases h
    · exact eq_descend_of_walk h

/-- A walk in two parts. -/
theorem walk_append (fs : FileSystem) (here : Place) (names more : List Text) :
    fs.walk here (names ++ more) = fs.walk here names >>= fun there => fs.walk there more := by
  induction names generalizing here with
  | nil => rfl
  | cons name names ih =>
    rw [List.cons_append, walk, walk]
    split
    · rfl
    · rfl
    · split
      · exact ih _
      · split
        · rfl
        · exact ih _

/-! Growth. -/

/-- What can become of an entry, if `target` says that a file may be written there. -/
inductive Change (target : Prop) : Option FileEntry → Option FileEntry → Prop where
  | same (e : Option FileEntry) : Change target e e
  | made : Change target none (some .directory)
  | written {e : Option FileEntry} (h : target) (he : e ≠ some .directory) (bytes : List UInt8) :
      Change target e (some (.file bytes))

theorem Change.directory {target : Prop} {e : Option FileEntry}
    (h : Change target (some .directory) e) : e = some .directory := by
  cases h with
  | same => rfl
  | written _ he => exact absurd rfl he

theorem Change.trans {target : Prop} {e e' e'' : Option FileEntry} (h : Change target e e')
    (h' : Change target e' e'') : Change target e e'' := by
  cases h with
  | same => exact h'
  | made =>
    rw [h'.directory]
    exact .made
  | written ht he bytes =>
    cases h' with
    | same => exact .written ht he bytes
    | written _ _ bytes' => exact .written ht he bytes'

theorem Change.mono {target target' : Prop} (himp : target → target') {e e' : Option FileEntry}
    (h : Change target e e') : Change target' e e' := by
  cases h with
  | same => exact .same _
  | made => exact .made
  | written ht he bytes => exact .written (himp ht) he bytes

/-- `fs'` is `fs` with directories made, and files written at some of the places `targets`. -/
structure Grown (targets : Place → Prop) (fs fs' : FileSystem) : Prop where
  cwd : fs'.cwd = fs.cwd
  entry : ∀ q, Change (targets q) (fs.entry? q) (fs'.entry? q)

section Grown

variable {targets : Place → Prop} {fs fs' : FileSystem}

theorem Grown.refl (targets : Place → Prop) (fs : FileSystem) : Grown targets fs fs :=
  ⟨rfl, fun _ => .same _⟩

theorem Grown.trans {fs'' : FileSystem} (h : Grown targets fs fs')
    (h' : Grown targets fs' fs'') : Grown targets fs fs'' :=
  ⟨h'.cwd.trans h.cwd, fun q => (h.entry q).trans (h'.entry q)⟩

theorem Grown.mono {targets' : Place → Prop} (himp : ∀ q, targets q → targets' q)
    (h : Grown targets fs fs') : Grown targets' fs fs' :=
  ⟨h.cwd, fun q => (h.entry q).mono (himp q)⟩

theorem Grown.directory (h : Grown targets fs fs') {q : Place}
    (hq : fs.entry? q = some .directory) : fs'.entry? q = some .directory := by
  have := h.entry q
  rw [hq] at this
  exact this.directory

/-- A file stays as it is at a place that is no target. -/
theorem Grown.file (h : Grown targets fs fs') {q : Place} (hno : ¬ targets q)
    {bytes : List UInt8} (hq : fs.entry? q = some (.file bytes)) :
    fs'.entry? q = some (.file bytes) := by
  have hentry := h.entry q
  rw [hq] at hentry
  generalize fs'.entry? q = e at hentry
  cases hentry with
  | same => rfl
  | written ht => exact absurd ht hno

theorem Grown.locate (h : Grown targets fs fs') {p : Path} {place : Place}
    (hp : fs.locate p = .ok place) : fs'.locate p = .ok place :=
  KeepsDirectories.locate (fun _ => h.directory) h.cwd hp

theorem read_eq_ok {p : Path} {bytes : List UInt8} (h : fs.read p = .ok bytes) :
    fs.locate p = .ok (fs.placeOf p) ∧ fs.entry? (fs.placeOf p) = some (.file bytes) := by
  unfold read at h
  split at h
  · cases h
  · rename_i place hplace
    obtain rfl := eq_placeOf_of_locate hplace
    refine ⟨hplace, ?_⟩
    split at h
    · cases h
    · cases h
    · rename_i hentry
      cases h
      exact hentry

theorem read_of_entry {p : Path} {place : Place} {bytes : List UInt8}
    (hp : fs.locate p = .ok place) (hentry : fs.entry? place = some (.file bytes)) :
    fs.read p = .ok bytes := by
  simp only [read, hp, hentry]

/-- A file that is not written to is read as before. -/
theorem Grown.read (h : Grown targets fs fs') {p : Path} (hno : ¬ targets (fs.placeOf p))
    {bytes : List UInt8} (hp : fs.read p = .ok bytes) : fs'.read p = .ok bytes := by
  obtain ⟨hplace, hentry⟩ := read_eq_ok hp
  exact read_of_entry (h.locate hplace) (h.file hno hentry)

/-! Every step of a write lets the file system grow. -/

theorem grown_put_directory (targets : Place → Prop) {place : Place}
    (h : fs.entry? place = none) : Grown targets fs (fs.put place .directory) := by
  refine ⟨cwd_put .., fun q => ?_⟩
  rw [entry?_put (by simp [h])]
  split
  · rename_i hq
    rw [hq, h]
    exact .made
  · exact .same _

theorem grown_put_file {place : Place} (htarget : targets place)
    (h : fs.entry? place ≠ some .directory) (bytes : List UInt8) :
    Grown targets fs (fs.put place (.file bytes)) := by
  refine ⟨cwd_put .., fun q => ?_⟩
  rw [entry?_put h]
  split
  · rename_i hq
    rw [hq]
    exact .written htarget h bytes
  · exact .same _

theorem grown_write {p : Path} {bytes : List UInt8} (htarget : targets (fs.placeOf p))
    (h : fs.write p bytes = .ok fs') : Grown targets fs fs' := by
  obtain ⟨place, hplace, hdir, rfl⟩ := write_eq_ok h
  rw [← eq_placeOf_of_locate hplace] at htarget
  exact grown_put_file htarget hdir bytes

/-- A path leads to a directory if it leads to a place with one. -/
theorem isDirectory_iff {p : Path} :
    fs.isDirectory p ↔ ∃ place, fs.locate p = .ok place ∧ fs.entry? place = some .directory := by
  unfold isDirectory find?
  cases fs.locate p with
  | error e => simp
  | ok place => simp

theorem Grown.isDirectory (h : Grown targets fs fs') {p : Path} (hp : fs.isDirectory p) :
    fs'.isDirectory p := by
  obtain ⟨place, hplace, hentry⟩ := isDirectory_iff.mp hp
  exact isDirectory_iff.mpr ⟨place, h.locate hplace, h.directory hentry⟩

/-- A directory that was made is there. -/
theorem ensureDirectory_eq_ok {p : Path} (targets : Place → Prop)
    (h : fs.ensureDirectory p = .ok fs') : Grown targets fs fs' ∧ fs'.isDirectory p := by
  unfold ensureDirectory at h
  split at h
  · rename_i made hmade
    cases h
    unfold makeDirectory at hmade
    split at hmade
    · cases hmade
    · rename_i place hplace
      split at hmade
      · cases hmade
      · rename_i hnone
        cases hmade
        have hgrown := grown_put_directory targets hnone
        refine ⟨hgrown, isDirectory_iff.mpr ⟨place, hgrown.locate hplace, ?_⟩⟩
        rw [entry?_put (by simp [hnone]), if_pos rfl]
  · split at h
    · rename_i hthere
      cases h
      exact ⟨.refl _ _, hthere.2.2⟩
    · cases h

theorem ensureDirectory_of_isDirectory {p : Path} (h : fs.isDirectory p) :
    fs.ensureDirectory p = .ok fs := by
  obtain ⟨place, hplace, hentry⟩ := isDirectory_iff.mp h
  simp [ensureDirectory, makeDirectory, hplace, hentry, h, IoError.isFault]

theorem Grown.andThen {a : Attempt} (h : Grown targets fs a.fs)
    {step : FileSystem → Except IoFailure FileSystem}
    (hstep : ∀ fs', step a.fs = .ok fs' → Grown targets a.fs fs') :
    Grown targets fs (a.andThen step).fs := by
  unfold Attempt.andThen
  split
  · cases hmade : step a.fs with
    | error f => exact h
    | ok made => exact h.trans (hstep made hmade)
  · exact h

theorem grown_ensureDirectories (targets : Place → Prop) (fs : FileSystem) (n : Nat) (p : Path) :
    Grown targets fs (fs.ensureDirectories n p).fs := by
  induction n generalizing p with
  | zero => exact .refl _ _
  | succ n ih =>
    rw [ensureDirectories]
    split
    · rename_i made hmade
      exact (ensureDirectory_eq_ok targets hmade).1
    · split
      · exact (ih p.parent).andThen fun made hmade => (ensureDirectory_eq_ok targets hmade).1
      · exact .refl _ _

theorem grown_writeDeep {p : Path} (htarget : targets (fs.placeOf p)) (bytes : List UInt8) :
    Grown targets fs (fs.writeDeep p bytes).fs := by
  have habove := grown_ensureDirectories targets fs maxLevels p.parent
  refine habove.andThen fun made hmade => ?_
  rw [← placeOf_of_cwd habove.cwd] at htarget
  exact grown_write htarget hmade

end Grown

/-! Trees. -/

/-- Every entry is in a directory. -/
def IsTree (fs : FileSystem) : Prop :=
  ∀ x ∈ fs.entries, fs.entry? x.1.dropLast = some .directory

instance (fs : FileSystem) : Decidable fs.IsTree :=
  inferInstanceAs (Decidable (∀ x ∈ fs.entries, fs.entry? x.1.dropLast = some .directory))

section Tree

variable {targets : Place → Prop} {fs fs' : FileSystem}

theorem IsTree.none_of_none (htree : fs.IsTree) {q : Place} (h : fs.entry? q = none)
    (name : Text) : fs.entry? (q ++ [name]) = none := by
  have hcwd : ¬ q ++ [name] <+: fs.cwd := by
    intro hpre
    have habove : q <+: fs.cwd := (List.prefix_append q [name]).trans hpre
    simp [ entry?, habove] at h
  rw [ entry?, if_neg (by simpa using hcwd)]
  cases hlookup : fs.entries.lookup (q ++ [name]) with
  | none => rfl
  | some e =>
    obtain ⟨before, after, hentries, -⟩ := List.lookup_eq_some_iff.mp hlookup
    have habove := htree (q ++ [name], e) (by simp [hentries])
    rw [List.dropLast_concat, h] at habove
    cases habove

theorem IsTree.none_below (htree : fs.IsTree) {q : Place} (h : fs.entry? q = none)
    (names : List Text) : fs.entry? (q ++ names) = none := by
  induction names generalizing q with
  | nil => rwa [List.append_nil]
  | cons name names ih =>
    have hbelow := ih (htree.none_of_none h name)
    rwa [List.append_assoc, List.singleton_append] at hbelow

/-- There is nothing where a walk downward does not get to. -/
theorem IsTree.none_of_walk (htree : fs.IsTree) {here : Place} {names : List Text}
    (hup : Path.upward ∉ names) (h : fs.walk here names = .error .notFound) :
    fs.entry? (here ++ names) = none := by
  induction names generalizing here with
  | nil => cases h
  | cons name names ih =>
    rw [List.mem_cons, not_or] at hup
    rw [walk] at h
    split at h
    · rename_i hnone
      exact htree.none_below hnone _
    · cases h
    · rw [if_neg fun heq => hup.1 heq.symm] at h
      split at h
      · cases h
      · have hbelow := ih hup.2 h
        rwa [List.append_assoc, List.singleton_append] at hbelow

/-- A walk that gets there after growth ran into a missing directory before, if it did not. -/
theorem Grown.walk_back (h : Grown targets fs fs') {here there : Place} {names : List Text}
    (hwalk : fs'.walk here names = .ok there) :
    fs.walk here names = .ok there ∨ fs.walk here names = .error .notFound := by
  induction names generalizing here with
  | nil => exact .inl hwalk
  | cons name names ih =>
    have hentry := h.entry here
    rw [walk] at hwalk ⊢
    split at hwalk
    · cases hwalk
    · cases hwalk
    · rename_i hafter
      rw [hafter] at hentry
      generalize fs.entry? here = e at hentry ⊢
      cases hentry with
      | made => exact .inr rfl
      | same =>
        dsimp only
        split at hwalk
        · rename_i hname
          rw [if_pos hname]
          exact ih hwalk
        · rename_i hname
          rw [if_neg hname]
          split at hwalk
          · cases hwalk
          · rename_i hlong
            rw [if_neg hlong]
            exact ih hwalk

theorem Grown.locate_back (h : Grown targets fs fs') {p : Path} {place : Place}
    (hp : fs'.locate p = .ok place) :
    fs.locate p = .ok place ∨
      fs.walk (if p.isAbsolute then [] else fs.cwd) p.parts = .error .notFound ∧
        fs.locate p = .error .notFound := by
  unfold FileSystem.locate at hp ⊢
  rw [h.cwd] at hp
  split at hp
  · cases hp
  · split at hp
    · cases hp
    · rename_i hlong
      rw [if_neg hlong]
      rcases h.walk_back hp with hbefore | hbefore
      · exact .inl hbefore
      · exact .inr ⟨hbefore, hbefore⟩

/-- Growth does not bring a file under a path, if the path does not lead to a target and does not
go up again from a directory that was missing. -/
theorem Grown.read_back (h : Grown targets fs fs') (htree : fs.IsTree) {p : Path}
    (hup : Path.upward ∈ p.parts → fs.locate p ≠ .error .notFound)
    (hno : ¬ targets (fs.placeOf p)) {bytes : List UInt8} (hp : fs'.read p = .ok bytes) :
    fs.read p = .ok bytes := by
  obtain ⟨hplace, hafter⟩ := read_eq_ok hp
  rw [placeOf_of_cwd h.cwd] at hplace hafter
  have hbefore : fs.entry? (fs.placeOf p) = some (.file bytes) := by
    have hentry := h.entry (fs.placeOf p)
    rw [hafter] at hentry
    generalize fs.entry? (fs.placeOf p) = e at hentry
    cases hentry with
    | same => rfl
    | written ht => exact absurd ht hno
  -- In a tree the file that was there could be reached, unless the way went up again.
  rcases h.locate_back hplace with hlocate | ⟨hwalk, hmissing⟩
  · exact read_of_entry hlocate hbefore
  · have hdown : Path.upward ∉ p.parts := fun hmem => hup hmem hmissing
    have hnone := htree.none_of_walk hdown hwalk
    rw [← descend_of_no_upward hdown, ← placeOf, hbefore] at hnone
    cases hnone

end Tree
end FileSystem
end CommentTags
