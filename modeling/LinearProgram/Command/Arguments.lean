/-!
# Arguments

A command line holds operands and options in any order.  An option has a name behind
two hyphens, may have a letter behind one hyphen, and may take a value, which is either
attached or the next argument.  Two hyphens alone end the options.
-/

namespace LinearProgram

/-- An option that a command understands. -/
structure OptionForm where
  name : String
  letter : Option Char
  takesValue : Bool
deriving DecidableEq

namespace OptionForm

/-- The characters behind an equals sign at the beginning, if there is one. -/
def behindEquals? : List Char → Option String
  | '=' :: value => some (String.ofList value)
  | _ => none

/-- The option with the name that stands before an equals sign, and what is attached to it. -/
def named? (forms : List OptionForm) (cs : List Char) : Option (OptionForm × Option String) :=
  let name := String.ofList (cs.takeWhile (· ≠ '='))
  (forms.find? fun form => form.name == name).map fun form =>
    (form, behindEquals? (cs.dropWhile (· ≠ '=')))

/-- The value that is attached to a letter, with or without an equals sign. -/
def attached? (cs : List Char) : Option String :=
  if cs.isEmpty then none else (behindEquals? cs).or (some (String.ofList cs))

/-- The option with a letter, and what is attached to it. -/
def lettered? (forms : List OptionForm) (letter : Char) (cs : List Char) :
    Option (OptionForm × Option String) :=
  (forms.find? fun form => form.letter == some letter).map fun form => (form, attached? cs)

/-- The option that an argument gives, and what is attached to it. -/
def given? (forms : List OptionForm) (argument : String) : Option (OptionForm × Option String) :=
  match argument.toList with
  | '-' :: '-' :: cs => named? forms cs
  | '-' :: letter :: cs => lettered? forms letter cs
  | _ => none

end OptionForm

/-- Whether an argument can only be an option: a hyphen with something behind it. -/
def looksLikeOption (argument : String) : Bool :=
  match argument.toList with
  | '-' :: _ :: _ => true
  | _ => false

/-- The operands and the options of a command line, each in the order given. -/
structure Arguments where
  operands : List String
  options : List (String × Option String)
deriving DecidableEq

namespace Arguments

def addOperand (operand : String) (arguments : Arguments) : Arguments :=
  { arguments with operands := operand :: arguments.operands }

def addOption (form : OptionForm) (value : Option String) (arguments : Arguments) : Arguments :=
  { arguments with options := (form.name, value) :: arguments.options }

/-- The operands and options of some arguments, unless an option or a value does not fit. -/
def read? (forms : List OptionForm) : List String → Option Arguments
  | [] => some ⟨[], []⟩
  | argument :: rest =>
    if argument = "--" then some ⟨rest, []⟩
    else if looksLikeOption argument then
      match OptionForm.given? forms argument, rest with
      | none, _ => none
      | some (form@⟨_, _, true⟩, some value), rest =>
        (read? forms rest).map (addOption form (some value))
      | some (form@⟨_, _, true⟩, none), value :: rest =>
        if looksLikeOption value then none
        else (read? forms rest).map (addOption form (some value))
      | some (⟨_, _, true⟩, none), [] => none
      | some (form@⟨_, _, false⟩, none), rest => (read? forms rest).map (addOption form none)
      | some (⟨_, _, false⟩, some _), _ => none
    else (read? forms rest).map (addOperand argument)

/-- Whether no option is given twice. -/
def isDistinct (arguments : Arguments) : Bool :=
  (arguments.options.map Prod.fst).Nodup

def has (arguments : Arguments) (name : String) : Bool :=
  arguments.options.any fun option => option.1 == name

/-- The value that is given for an option. -/
def value? (arguments : Arguments) (name : String) : Option String :=
  (arguments.options.lookup name).join

end Arguments

end LinearProgram
