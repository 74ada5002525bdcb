import LinearProgram.Compilation
import LinearProgram.Comparison
import LinearProgram.Model.Printer

/-!
# Round trips

A written model can be read back and written once more with the same options.  Both
texts are kept side by side, so that what reading and writing have done to the model
can be seen.
-/

namespace LinearProgram

/-- A written model, and the text or the error that reading it back has led to. -/
structure RoundTrip where
  first : String
  second : Except CompileError String

/-- Whether the first text carries the signature of its body. -/
def RoundTrip.isVerified (trip : RoundTrip) : Bool :=
  (SignatureCheck.ofText trip.first).isMatch

namespace Model

/-- The model written, read back and written again with the same options. -/
def roundTrip (model : Model) (options : WriteOptions) : WriteOutcome RoundTrip := do
  let first ← model.write options
  match read first with
  | .error error => return ⟨first, .error error⟩
  | .ok again =>
    let second ← again.write options
    return ⟨first, .ok second⟩

end Model

end LinearProgram
