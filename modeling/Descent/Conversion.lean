import Descent.Element
import Descent.ParseError
import Descent.Text.Decimal
import Descent.Text.Numeral

/-!
# Elements to text and numbers

What a parser has matched can be taken as text if the elements are textual, and as a number if the
text denotes one.  A text that denotes none is quoted in the message, and the reason stays behind
it as the cause.
-/

namespace Descent

/-- Why matched input could not be taken as text or as a number. -/
inductive TextFault where
  /-- The elements are not textual. -/
  | notText
  /-- The text is no integer of the type asked for. -/
  | notInteger (text : String) (reason : Text.NumeralFault)
  /-- The text is no fraction. -/
  | notFraction (text : String) (reason : Text.DecimalFault)
  deriving DecidableEq, Repr

namespace TextFault

/-- The reason behind a fault about a number. -/
def cause? : TextFault → Option String
  | notText => none
  | notInteger _ reason => some reason.message
  | notFraction _ reason => some reason.message

/-- The fault as a message. -/
def message : TextFault → String
  | notText => "input is not text"
  | notInteger text reason => "invalid number " ++ Text.quoted text ++ ": " ++ reason.message
  | notFraction text reason => "invalid number " ++ Text.quoted text ++ ": " ++ reason.message

/-- The fault as a converter reports it. -/
def toFault (fault : TextFault) : Fault :=
  ⟨fault.message, fault.cause?.toList⟩

end TextFault

namespace Conversion

variable {α : Type} [Element α]

/-- The elements as text. -/
def toText (elements : List α) : Except TextFault String :=
  match Element.text? elements with
  | some text => .ok text
  | none => .error .notText

/-- The elements as an integer of a type, in base ten. -/
def toInt (type : Text.IntType) (elements : List α) : Except TextFault Int := do
  let text ← toText elements
  (Text.readInt type 10 text.toList).mapError (.notInteger text)

/-- The elements as a fraction. -/
def toFloat (elements : List α) : Except TextFault Float := do
  let text ← toText elements
  (Text.readFloat text.toList).mapError (.notFraction text)

end Conversion

end Descent
