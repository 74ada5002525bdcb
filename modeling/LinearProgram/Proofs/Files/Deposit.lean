import LinearProgram.Document.Parser
import LinearProgram.Files.Workspace

/-!
# Deposits in a workspace

A deposit makes the directories above a file and then writes the file.  Making
directories leaves everything in its place and adds nothing but directories; writing
changes what stands at the place of the file.  The main statement is
`Workspace.exists_place_of_deposit`: a deposit that succeeds leaves the text at its path
and every other file as it was.
-/

namespace LinearProgram

theorem Path.withoutTrailing_eq_self {α : Type} {p : α → Bool} {xs : List α}
    (h : ∀ x, xs.getLast? = some x → p x = false) : withoutTrailing p xs = xs := by
  induction xs with
  | nil => rfl
  | cons x xs ih =>
      cases xs with
      | nil => simp [withoutTrailing, h x rfl]
      | cons y ys =>
          rw [withoutTrailing, ih fun z hz => h z (by rw [List.getLast?_cons_cons, hz])]

namespace Workspace

variable {before middle after workspace : Workspace} {α β : Type}

/-- Whether everything stays in its place and nothing but directories is new. -/
structure Grows (before after : Workspace) : Prop where
  home : after.home = before.home
  keeps : ∀ place entry, before.entryAt? place = some entry → after.entryAt? place = some entry
  files : ∀ place content, after.entryAt? place = some (.file content) →
    before.entryAt? place = some (.file content)

theorem Grows.refl (workspace : Workspace) : Grows workspace workspace :=
  ⟨rfl, fun _ _ h => h, fun _ _ h => h⟩

theorem Grows.trans (h : Grows before middle) (h' : Grows middle after) : Grows before after :=
  ⟨h'.home.trans h.home,
    fun place entry hentry => h'.keeps place entry (h.keeps place entry hentry),
    fun place content hfile => h.files place content (h'.files place content hfile)⟩

/-- The root is no place for a new entry. -/
theorem ne_nil_of_entryAt?_eq_none {place : Place} (h : workspace.entryAt? place = none) :
    place ≠ [] := by
  rintro rfl
  exact nomatch h

theorem grows_put_directory {place : Place} (h : workspace.entryAt? place = none) :
    Grows workspace (workspace.put place .directory) := by
  have hput (other : Place) :=
    @entryAt?_put workspace place .directory other (ne_nil_of_entryAt?_eq_none h)
  refine ⟨rfl, fun other entry hentry => ?_, fun other content hfile => ?_⟩
  · have hne : other ≠ place := by
      rintro rfl
      exact nomatch h.symm.trans hentry
    rw [hput, if_neg hne, hentry]
  · rw [hput] at hfile
    split at hfile
    · exact nomatch hfile
    · exact hfile

/-- A new directory is put where nothing stood. -/
theorem grows_of_makeDirectory {path : Path} (h : workspace.makeDirectory path = .ok after) :
    Grows workspace after := by
  rw [makeDirectory] at h
  obtain ⟨start, -, h⟩ := Reader.bind_eq_ok_iff.mp h
  split at h
  · exact nomatch h
  · obtain ⟨above, -, h⟩ := Reader.bind_eq_ok_iff.mp h
    obtain ⟨place, -, h⟩ := Reader.bind_eq_ok_iff.mp h
    split at h
    · next hfree =>
        rw [Bool.and_eq_true, Option.isNone_iff_eq_none] at hfree
        rw [← Except.ok.inj h]
        exact grows_put_directory hfree.2
    · exact nomatch h

/-! ## Making directories -/

/-- Whether a change lets every workspace grow. -/
def Keeps (change : StateM Workspace α) : Prop :=
  ∀ workspace, Grows workspace (change.run workspace).2

theorem keeps_pure (x : α) : Keeps (pure x) :=
  Grows.refl

theorem Keeps.bind {change : StateM Workspace α} {next : α → StateM Workspace β}
    (h : Keeps change) (hnext : ∀ x, Keeps (next x)) : Keeps (change >>= next) :=
  fun workspace => (h workspace).trans (hnext _ _)

theorem keeps_isDirectory (path : Path) : Keeps (access.isDirectory path) :=
  Grows.refl

theorem run_attempt (change : Workspace → Except FileError Workspace) (workspace : Workspace) :
    (attempt change).run workspace =
      match change workspace with
      | .ok changed => (.ok (), changed)
      | .error error => (.error error, workspace) := by
  cases hchange : change workspace <;>
    simp only [attempt, StateT.run_bind, StateT.run_get, pure_bind, hchange] <;> rfl

theorem keeps_makeDirectory (path : Path) : Keeps (access.makeDirectory path) := by
  intro workspace
  change Grows workspace ((attempt fun workspace => workspace.makeDirectory path).run workspace).2
  rw [run_attempt]
  cases hmake : workspace.makeDirectory path with
  | error error => exact Grows.refl workspace
  | ok changed => exact grows_of_makeDirectory hmake

theorem keeps_unlessDirectory (path : Path) (error : FileError) :
    Keeps (access.isDirectory path >>= fun found =>
      (if found then pure (.ok ()) else pure (.error error) :
        StateM Workspace (Except FileError Unit))) := by
  refine (keeps_isDirectory path).bind fun found => ?_
  cases found <;> exact keeps_pure _

theorem keeps_ensureDirectory (path : Path) : Keeps (access.ensureDirectory path) := by
  rw [FileAccess.ensureDirectory]
  refine (keeps_makeDirectory path).bind fun made => ?_
  cases made with
  | ok done => exact keeps_pure _
  | error error => exact keeps_unlessDirectory path error

theorem keeps_makeDirectories (path : Path) : Keeps (access.makeDirectories path) := by
  rw [FileAccess.makeDirectories]
  split
  · exact keeps_pure _
  · refine (keeps_makeDirectory path).bind fun made => ?_
    split
    · exact keeps_pure _
    · split
      · exact keeps_pure _
      · next parent hparent =>
          refine (keeps_makeDirectories parent).bind fun above => ?_
          cases above with
          | error error => exact keeps_pure _
          | ok done => exact keeps_ensureDirectory path
    · exact keeps_unlessDirectory path _
termination_by path.parts.length
decreasing_by exact Path.length_parent?_lt (by assumption)

/-! ## Writing a file -/

/-- The place that a path leads to. -/
def placeOf (workspace : Workspace) (path : Path) : Except FileError Place :=
  workspace.start path >>= fun place => workspace.walk place path.parts

variable {place here there : Place} {entry : Entry} {part : String} {parts : List String}

theorem entryAt?_of_placeIn (h : workspace.placeIn here part = .ok there) :
    workspace.entryAt? here = some .directory := by
  rw [placeIn] at h
  split at h
  · exact nomatch h
  · exact nomatch h
  · next hentry => exact hentry

theorem placeIn_eq_of_directory (h : workspace.entryAt? here = some .directory)
    (h' : after.entryAt? here = some .directory) :
    after.placeIn here part = workspace.placeIn here part := by
  rw [placeIn, placeIn, h, h']

theorem walk_cons_eq_ok_iff :
    workspace.walk here (part :: parts) = .ok there ↔
      ∃ next, workspace.placeIn here part = .ok next ∧ workspace.entryAt? next ≠ none ∧
        workspace.walk next parts = .ok there := by
  rw [walk]
  cases workspace.placeIn here part with
  | error error => simp
  | ok next => cases hentry : workspace.entryAt? next <;> simp [hentry]

theorem walk_append {middle : Place} {later : List String}
    (h : workspace.walk here parts = .ok middle) (h' : workspace.walk middle later = .ok there) :
    workspace.walk here (parts ++ later) = .ok there := by
  induction parts generalizing here with
  | nil =>
      obtain rfl : here = middle := Except.ok.inj h
      exact h'
  | cons part parts ih =>
      obtain ⟨next, hnext, hentry, hwalk⟩ := walk_cons_eq_ok_iff.mp h
      exact walk_cons_eq_ok_iff.mpr ⟨next, hnext, hentry, ih hwalk⟩

/-- A way stays open when an entry is put where no directory stood. -/
theorem walk_put (hplace : workspace.entryAt? place ≠ some .directory)
    (h : workspace.walk here parts = .ok there) :
    (workspace.put place entry).walk here parts = .ok there := by
  have hne : place ≠ [] := fun hnil => hplace (hnil ▸ rfl)
  have hput (other : Place) := @entryAt?_put workspace place entry other hne
  induction parts generalizing here with
  | nil => exact h
  | cons part parts ih =>
      obtain ⟨next, hnext, hentry, hwalk⟩ := walk_cons_eq_ok_iff.mp h
      have hhere := entryAt?_of_placeIn hnext
      have hsame : (workspace.put place entry).entryAt? here = some .directory := by
        have hother : here ≠ place := by
          rintro rfl
          exact hplace hhere
        rw [hput, if_neg hother, hhere]
      refine walk_cons_eq_ok_iff.mpr ⟨next, ?_, ?_, ih hwalk⟩
      · rw [placeIn_eq_of_directory hhere hsame, hnext]
      · rw [hput]
        split
        · exact Option.some_ne_none _
        · exact hentry

theorem parts_eq_of_lastPart? {leading : List String} {last : String}
    (hlast : lastPart? parts = some (leading, last)) (hslash : parts.getLast? ≠ some "") :
    parts = leading ++ [last] := by
  have hkept : Path.withoutTrailing (· == "") parts = parts := by
    refine Path.withoutTrailing_eq_self fun part hpart => ?_
    rw [hpart] at hslash
    simpa using hslash
  rw [lastPart?, hkept] at hlast
  split at hlast
  · next found hfound =>
      obtain ⟨rfl, rfl⟩ := Prod.mk.inj (Option.some.inj hlast)
      obtain ⟨leading, rfl⟩ := List.getLast?_eq_some_iff.mp hfound
      rw [List.dropLast_concat]
  · exact nomatch hlast

/-- Where a file is written. -/
theorem exists_of_writeFile {path : Path} {text : String}
    (h : workspace.writeFile path text = .ok after) :
    ∃ start leading last above place, workspace.start path = .ok start ∧
      path.parts = leading ++ [last] ∧ workspace.walk start leading = .ok above ∧
      workspace.placeIn above last = .ok place ∧
      workspace.entryAt? place ≠ some .directory ∧
      after = workspace.put place (.file text.toUTF8) := by
  rw [writeFile] at h
  obtain ⟨start, hstart, h⟩ := Reader.bind_eq_ok_iff.mp h
  split at h
  · exact nomatch h
  next leading last hlast =>
    obtain ⟨above, habove, h⟩ := Reader.bind_eq_ok_iff.mp h
    obtain ⟨_, -, h⟩ := Reader.bind_eq_ok_iff.mp h
    dsimp only at h
    split at h
    · exact nomatch h
    next hproper =>
      have hslash : path.parts.getLast? ≠ some "" := fun heq => hproper (by rw [heq]; simp)
      obtain ⟨place, hplace, h⟩ := Reader.bind_eq_ok_iff.mp h
      refine ⟨start, leading, last, above, place, hstart,
        parts_eq_of_lastPart? hlast hslash, habove, hplace, ?_⟩
      split at h
      · exact nomatch h
      · next hfile => exact ⟨hfile, (Except.ok.inj h).symm⟩

/-- A written file is found at its path, and nothing else has changed. -/
theorem exists_place_of_writeFile {path : Path} {text : String}
    (h : workspace.writeFile path text = .ok after) :
    ∃ place, after.placeOf path = .ok place ∧
      ∀ other, after.entryAt? other =
        if other = place then some (.file text.toUTF8) else workspace.entryAt? other := by
  obtain ⟨start, leading, last, above, place, hstart, hparts, habove, hplace, hfile, rfl⟩ :=
    exists_of_writeFile h
  have hne : place ≠ [] := fun hnil => hfile (hnil ▸ rfl)
  have hput (other : Place) := @entryAt?_put workspace place (.file text.toUTF8) other hne
  refine ⟨place, ?_, hput⟩
  -- A file is never put at a directory on its own way, so the way to it stays open.
  have hopen := entryAt?_of_placeIn hplace
  have hsame : above ≠ place := by
    rintro rfl
    exact hfile hopen
  have hlastStep : (workspace.put place (.file text.toUTF8)).walk above [last] = .ok place := by
    refine walk_cons_eq_ok_iff.mpr ⟨place, ?_, ?_, rfl⟩
    · rw [placeIn_eq_of_directory hopen (by rw [hput, if_neg hsame, hopen]), hplace]
    · rw [hput, if_pos rfl]
      exact Option.some_ne_none _
  have hway := walk_append (walk_put hfile habove) hlastStep
  have hbegin : (workspace.put place (.file text.toUTF8)).start path = .ok start := hstart
  rw [placeOf, hbegin, hparts]
  exact hway

/-- The directories above a path, made before anything is written there. -/
def makeAbove (path : Path) : StateM Workspace (Except FileError Unit) :=
  match path.parent? with
  | some parent => access.makeDirectories parent
  | none => pure (.ok ())

theorem keeps_makeAbove (path : Path) : Keeps (makeAbove path) := by
  rw [makeAbove]
  split
  · exact keeps_makeDirectories _
  · exact keeps_pure _

theorem deposit_eq (path : Path) (text : String) :
    access.deposit path text = makeAbove path >>= fun above =>
      match above with
      | .ok () => access.writeFile path text
      | .error error => pure (.error error) := by
  rw [FileAccess.deposit, makeAbove]
  cases path.parent? <;> rfl

theorem writeFile_of_deposit {path : Path} {text : String}
    (h : (access.deposit path text).run workspace = (.ok (), after)) :
    ((makeAbove path).run workspace).2.writeFile path text = .ok after := by
  rw [deposit_eq, StateT.run_bind] at h
  generalize (makeAbove path).run workspace = made at h
  obtain ⟨above, middle⟩ := made
  cases above with
  | error error => exact nomatch congrArg Prod.fst h
  | ok done =>
      change (attempt fun workspace => workspace.writeFile path text).run middle = _ at h
      rw [run_attempt] at h
      dsimp only
      cases hwrite : middle.writeFile path text with
      | error error =>
          rw [hwrite] at h
          exact nomatch congrArg Prod.fst h
      | ok changed =>
          rw [hwrite] at h
          exact congrArg Except.ok (congrArg Prod.snd h)

/-- A deposit that succeeds leaves the text at its path and all other files as they were. -/
theorem exists_place_of_deposit {path : Path} {text : String}
    (h : (access.deposit path text).run workspace = (.ok (), after)) :
    ∃ place, after.placeOf path = .ok place ∧
      after.entryAt? place = some (.file text.toUTF8) ∧
      ∀ other, other ≠ place → ∀ content,
        after.entryAt? other = some (.file content) ↔
          workspace.entryAt? other = some (.file content) := by
  have hgrows := keeps_makeAbove path workspace
  obtain ⟨place, hplace, hentries⟩ := exists_place_of_writeFile (writeFile_of_deposit h)
  refine ⟨place, hplace, by rw [hentries, if_pos rfl], fun other hne content => ?_⟩
  rw [hentries, if_neg hne]
  exact ⟨hgrows.files other content, hgrows.keeps other (.file content)⟩

end Workspace

end LinearProgram
