import Descent.Cursor

/-!
# Failures of a parse

A failure is one of four causes; the texts are a function of the cause, so that what is decided and
how it is worded can be told apart.

Terse callers learn only that the input does not match.  Verbose callers also learn what was
expected and where.  A failed conversion always says what and where, because its message is about
the input's meaning, which no other alternative would repair.
-/

namespace Descent

/-- How much a failure should say.  It is chosen for each call and handed on to children. -/
inductive Verbosity where
  /-- Only that the input does not match. -/
  | terse
  /-- What was expected, and where. -/
  | verbose
  deriving DecidableEq, Repr

/-- A call says as little as possible unless it asks for more. -/
instance : Inhabited Verbosity := ⟨.terse⟩

/-- Whether failures should name what was expected. -/
def Verbosity.isVerbose : Verbosity → Bool
  | .terse => false
  | .verbose => true

/-- The error of a converter: its message, and the messages of what caused it, outermost first. -/
structure Fault where
  message : String
  causes : List String
  deriving DecidableEq, Repr

/-- A fault without a further cause. -/
def Fault.plain (message : String) : Fault := ⟨message, []⟩

/-- Why a parse failed. -/
inductive ParseError (α : Type) where
  /-- The input does not match; nothing more is known. -/
  | invalidInput
  /-- Something of this name was expected here. -/
  | expected (name : String) (loc : Location α)
  /-- What was read here under this name could not be converted. -/
  | conversion (name : String) (loc : Location α) (fault : Fault)
  /-- The input goes on here although it should have ended. -/
  | trailingInput (loc : Location α)
  deriving DecidableEq, Repr

namespace ParseError

variable {α : Type}

/-- Something of this name was expected at the cursor, said as fully as the caller asks. -/
def mismatch (verbosity : Verbosity) (name : String) (c : Cursor α) : ParseError α :=
  match verbosity with
  | .terse => .invalidInput
  | .verbose => .expected name c.loc

@[simp] theorem mismatch_terse (name : String) (c : Cursor α) :
    mismatch .terse name c = .invalidInput := rfl

@[simp] theorem mismatch_verbose (name : String) (c : Cursor α) :
    mismatch .verbose name c = .expected name c.loc := rfl

/-- The place of the failure, if it is known. -/
def location? : ParseError α → Option (Location α)
  | invalidInput => none
  | expected _ loc => some loc
  | conversion _ loc _ => some loc
  | trailingInput loc => some loc

/-- What was expected or being converted, if the failure says. -/
def name? : ParseError α → Option String
  | invalidInput => none
  | expected name _ => some name
  | conversion name _ _ => some name
  | trailingInput _ => none

/-- Whether a converter failed. -/
def isConversion : ParseError α → Bool
  | conversion _ _ _ => true
  | _ => false

/-- The messages of the errors behind this one, outermost first. -/
def sources : ParseError α → List String
  | conversion _ _ fault => fault.message :: fault.causes
  | _ => []

/-- The failure seen from a parser with a label: an expectation is that of the label, at the place
where the labelled parser started.  Other failures keep what they say. -/
def relabelled (label : String) (start : Cursor α) : ParseError α → ParseError α
  | expected _ _ => expected label start.loc
  | e => e

/-- Whether two failures say the same.  Of a conversion's fault only the message counts. -/
def agrees [DecidableEq α] : ParseError α → ParseError α → Bool
  | invalidInput, invalidInput => true
  | expected a la, expected b lb => a == b && la == lb
  | conversion a la fa, conversion b lb fb => a == b && la == lb && fa.message == fb.message
  | trailingInput la, trailingInput lb => la == lb
  | _, _ => false

variable [Element α]

/-- The failure as one line. -/
def message : ParseError α → String
  | invalidInput => "invalid input"
  | expected name loc => "expected " ++ name ++ " but got " ++ loc.preview
  | conversion name _ fault => "failed to convert " ++ name ++ ": " ++ fault.message
  | trailingInput loc => "unexpected trailing input " ++ loc.preview

theorem message_expected (name : String) (loc : Location α) :
    (expected name loc).message = "expected " ++ name ++ " but got " ++ loc.preview := rfl

theorem message_conversion (name : String) (loc : Location α) (fault : Fault) :
    (conversion name loc fault).message =
      "failed to convert " ++ name ++ ": " ++ fault.message := rfl

/-- The failure with its line number and the lines around it, if those can be written out. -/
def report (e : ParseError α) : Option String :=
  match e.location? with
  | none => some e.message
  | some loc =>
    loc.contextLines.map fun context =>
      let head := e.message ++ " (" ++ loc.display ++ ")"
      if context.isEmpty then head else head ++ "\n\n" ++ "\n".intercalate context

end ParseError

end Descent
