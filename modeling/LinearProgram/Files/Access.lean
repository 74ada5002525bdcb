import LinearProgram.Files.Path

/-!
# Access to files

What can go wrong with a file, and how text is deposited at a path: the directories
above it are made first, from the nearest one that is there.
-/

namespace LinearProgram

inductive FileError where
  | notFound
  | alreadyThere
  | notADirectory
  | isADirectory
  | nameTooLong
  | notText
  | system (number : Nat) (details : String)
deriving DecidableEq

namespace FileError

/-- The error that a system gives a number and a description. -/
def ofNumber (number : Nat) (details : String) : FileError :=
  match number with
  | 2 => notFound
  | 17 => alreadyThere
  | 20 => notADirectory
  | 21 => isADirectory
  | 36 => nameTooLong
  | _ => system number details

def numbered (details : String) (number : Nat) : String :=
  details ++ " (os error " ++ toString number ++ ")"

def message : FileError → String
  | notFound => numbered "No such file or directory" 2
  | alreadyThere => numbered "File exists" 17
  | notADirectory => numbered "Not a directory" 20
  | isADirectory => numbered "Is a directory" 21
  | nameTooLong => numbered "File name too long" 36
  | notText => "stream did not contain valid UTF-8"
  | system number details => numbered details number

end FileError

/-- The changes that can be made to files and directories. -/
structure FileAccess (m : Type → Type) where
  isDirectory : Path → m Bool
  makeDirectory : Path → m (Except FileError Unit)
  writeFile : Path → String → m (Except FileError Unit)

namespace FileAccess

variable {m : Type → Type} [Monad m] (access : FileAccess m)

/-- Makes a directory unless there is one already. -/
def ensureDirectory (path : Path) : m (Except FileError Unit) := do
  match ← access.makeDirectory path with
  | .ok () => return .ok ()
  | .error error => if ← access.isDirectory path then return .ok () else return .error error

/-- Makes a directory and every directory above it that is missing. -/
def makeDirectories (path : Path) : m (Except FileError Unit) := do
  if path.isEmpty then
    return .ok ()
  match ← access.makeDirectory path with
  | .ok () => return .ok ()
  | .error .notFound =>
    match _hparent : path.parent? with
    | none => return .error .notFound
    | some parent =>
      match ← makeDirectories parent with
      | .error error => return .error error
      | .ok () => access.ensureDirectory path
  | .error error => if ← access.isDirectory path then return .ok () else return .error error
termination_by path.parts.length
decreasing_by exact Path.length_parent?_lt _hparent

/-- Writes a file after making the directories above it. -/
def deposit (path : Path) (text : String) : m (Except FileError Unit) := do
  let above ← match path.parent? with
    | some parent => access.makeDirectories parent
    | none => pure (.ok ())
  match above with
  | .ok () => access.writeFile path text
  | .error error => return .error error

end FileAccess

end LinearProgram
