import LinearProgram.Layout

/-!
# Settings

The choices in writing a model can be given by name.  A setting that is not given keeps
its default and a name without a meaning is passed over, but a value that does not suit
its name is refused.
-/

namespace LinearProgram

/-- A value given for a setting. -/
inductive SettingValue where
  | count (n : Nat)
  | switch (on : Bool)
  | unsuitable
deriving DecidableEq

namespace WriteOptions

/-- Counts are numbers of 64 bits. -/
def countLimit : Nat :=
  18446744073709551616

def count? : SettingValue → Option Nat
  | .count n => if n < countLimit then some n else none
  | _ => none

def switch? : SettingValue → Option Bool
  | .switch on => some on
  | _ => none

/-- The options with one setting applied, unless its value does not suit it. -/
def set? (options : WriteOptions) (name : String) (value : SettingValue) :
    Option WriteOptions :=
  match name with
  | "max_line_length" => (count? value).map fun n => { options with maxLineLength := n }
  | "continuation_indent" => (count? value).map fun n => { options with continuationIndent := n }
  | "signature" => (switch? value).map fun on => { options with signature := on }
  | "var_names" => (switch? value).map fun on => { options with declaredNames := on }
  | _ => some options

/-- The default options with all settings applied. -/
def ofSettings? (settings : List (String × SettingValue)) : Option WriteOptions :=
  settings.foldlM (fun options (name, value) => options.set? name value) default

/-- Every setting of the options by name. -/
def settings (options : WriteOptions) : List (String × SettingValue) :=
  [("max_line_length", .count options.maxLineLength),
    ("continuation_indent", .count options.continuationIndent),
    ("signature", .switch options.signature), ("var_names", .switch options.declaredNames)]

/-- Options with counts below the limit are those that their settings give. -/
theorem ofSettings?_settings {options : WriteOptions}
    (hlength : options.maxLineLength < countLimit)
    (hindent : options.continuationIndent < countLimit) :
    ofSettings? options.settings = some options := by
  simp [ofSettings?, settings, set?, count?, switch?, hlength, hindent]

end WriteOptions

end LinearProgram
