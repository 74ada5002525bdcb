import LinearProgram.Files.Access

/-!
# Workspaces

A workspace is a tree of directories and files with a directory that relative paths
start from.  Following a path goes from directory to directory, so every part of it must
exist; only the last part may be missing when something is made there.

The main statement is `entryAt?_put`: a change at one place leaves all others alone.
-/

namespace LinearProgram

/-- What stands at a place in a workspace. -/
inductive Entry where
  | directory
  | file (content : ByteArray)

/-- The names on the way from the root. -/
abbrev Place :=
  List String

/-- The entries at their places, and the place where relative paths start. -/
structure Workspace where
  home : Place
  entries : List (Place × Entry)

namespace Workspace

/-- What stands at a place; the root is always a directory. -/
def entryAt? (workspace : Workspace) (place : Place) : Option Entry :=
  if place.isEmpty then some .directory else workspace.entries.lookup place

/-- The workspace with an entry at a place, whatever stood there before. -/
def put (workspace : Workspace) (place : Place) (entry : Entry) : Workspace :=
  { workspace with
    entries := (place, entry) :: workspace.entries.filter fun other => other.1 != place }

theorem lookup_filter_ne {entries : List (Place × Entry)} {place other : Place}
    (h : other ≠ place) :
    (entries.filter fun entry => entry.1 != place).lookup other = entries.lookup other := by
  induction entries with
  | nil => rfl
  | cons entry entries ih =>
      by_cases hentry : entry.1 = place
      · have hne : (other == entry.1) = false := by simpa [hentry] using h
        rw [List.filter_cons_of_neg (by simpa using hentry), ih, List.lookup_cons, hne]
      · rw [List.filter_cons_of_pos (by simpa using hentry), List.lookup_cons, List.lookup_cons,
          ih]

/-- Putting an entry changes what stands at its place and nothing else. -/
theorem entryAt?_put {workspace : Workspace} {place : Place} (entry : Entry) (other : Place)
    (h : place ≠ []) :
    (workspace.put place entry).entryAt? other =
      if other = place then some entry else workspace.entryAt? other := by
  unfold entryAt? put
  by_cases hother : other = place
  · subst hother
    simp [h]
  · have hne : (other == place) = false := by simpa using hother
    simp [hother, hne, List.lookup_cons, lookup_filter_ne hother]

/-- The most bytes that a name can have. -/
def nameLimit : Nat :=
  255

/-- The most bytes that a path can have. -/
def pathLimit : Nat :=
  4095

/-- The place of a name in a directory, whether or not something stands there. -/
def placeIn (workspace : Workspace) (place : Place) (name : String) : Except FileError Place :=
  match workspace.entryAt? place with
  | none => .error .notFound
  | some (.file _) => .error .notADirectory
  | some .directory =>
    if Path.isIdle name then .ok place
    else if name = ".." then .ok place.dropLast
    else if nameLimit < name.utf8ByteSize then .error .nameTooLong
    else .ok (place ++ [name])

/-- The place that further parts lead to, if something stands at each place on the way. -/
def walk (workspace : Workspace) (place : Place) : List String → Except FileError Place
  | [] => .ok place
  | part :: parts =>
    match workspace.placeIn place part with
    | .error error => .error error
    | .ok next =>
      match workspace.entryAt? next with
      | none => .error .notFound
      | some _ => walk workspace next parts

/-- The place where a path starts, unless no path can be written like that. -/
def start (workspace : Workspace) (path : Path) : Except FileError Place :=
  if path.isEmpty then .error .notFound
  else if pathLimit < path.text.utf8ByteSize then .error .nameTooLong
  else .ok (if path.fromRoot then [] else workspace.home)

/-- What stands at a path. -/
def entry (workspace : Workspace) (path : Path) : Except FileError Entry := do
  let place ← workspace.walk (← workspace.start path) path.parts
  match workspace.entryAt? place with
  | some entry => return entry
  | none => throw .notFound

def isDirectory (workspace : Workspace) (path : Path) : Bool :=
  match workspace.entry path with
  | .ok .directory => true
  | _ => false

/-- The text of the file at a path. -/
def read (workspace : Workspace) (path : Path) : Except FileError String := do
  match ← workspace.entry path with
  | .directory => throw .isADirectory
  | .file content =>
    match String.fromUTF8? content with
    | some text => return text
    | none => throw .notText

/-- The last part of a path and the parts before it, slashes at the end aside. -/
def lastPart? (parts : List String) : Option (List String × String) :=
  match (Path.withoutTrailing (· == "") parts).getLast? with
  | some last => some ((Path.withoutTrailing (· == "") parts).dropLast, last)
  | none => none

/-- Whether a last part names an entry, rather than the directory or the one above it. -/
def isProperName (part : String) : Bool :=
  part != "." && part != ".."

/-- The workspace with a directory at a path where nothing stood. -/
def makeDirectory (workspace : Workspace) (path : Path) : Except FileError Workspace := do
  let start ← workspace.start path
  match lastPart? path.parts with
  | none => throw .alreadyThere
  | some (leading, last) =>
    let place ← workspace.placeIn (← workspace.walk start leading) last
    if isProperName last && (workspace.entryAt? place).isNone then
      return workspace.put place .directory
    else
      throw .alreadyThere

/-- The workspace with a file at a path where no directory stood. -/
def writeFile (workspace : Workspace) (path : Path) (text : String) :
    Except FileError Workspace := do
  let start ← workspace.start path
  match lastPart? path.parts with
  | none => throw .isADirectory
  | some (leading, last) =>
    let above ← workspace.walk start leading
    let _ ← workspace.placeIn above "."
    if !isProperName last || path.parts.getLast? == some "" then
      throw .isADirectory
    let place ← workspace.placeIn above last
    match workspace.entryAt? place with
    | some .directory => throw .isADirectory
    | _ => return workspace.put place (.file text.toUTF8)

/-- A change of a workspace that leaves it as it was when it fails. -/
def attempt (change : Workspace → Except FileError Workspace) :
    StateM Workspace (Except FileError Unit) := do
  let workspace ← get
  match change workspace with
  | .ok changed =>
    set changed
    return .ok ()
  | .error error => return .error error

/-- The changes that can be made to a workspace. -/
def access : FileAccess (StateM Workspace) where
  isDirectory path := return (← get).isDirectory path
  makeDirectory path := attempt fun workspace => workspace.makeDirectory path
  writeFile path text := attempt fun workspace => workspace.writeFile path text

end Workspace

end LinearProgram
