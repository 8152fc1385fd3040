/-!
# Integers in text

An integer is written as an optional sign and at least one digit, nothing else.  A minus sign is
for signed types only; to an unsigned type it is a character that is no digit.

Digits are read from the left.  The first one that is no digit, or that takes the number out of
the type's range, decides the failure, so a numeral that is both too long and malformed is called
too large if its range runs out before its first bad character.
-/

namespace Descent.Text

/-- An integer type: its width, and whether half of its values are negative. -/
structure IntType where
  bits : Nat
  signed : Bool
  deriving DecidableEq, Repr

namespace IntType

/-- How many values a word of so many bits has. -/
def wordCount (bits : Nat) : Nat := Nat.pow 2 bits

/-- The greatest value of the type. -/
def greatest (type : IntType) : Nat :=
  if type.signed then wordCount (type.bits - 1) - 1 else wordCount type.bits - 1

/-- The size of the least value of the type. -/
def deepest (type : IntType) : Nat :=
  if type.signed then wordCount (type.bits - 1) else 0

end IntType

/-- Why a text is no integer of a type. -/
inductive NumeralFault where
  | empty
  | invalidDigit
  | tooLarge
  | tooSmall
  deriving DecidableEq, Repr

/-- The fault as a message. -/
def NumeralFault.message : NumeralFault → String
  | empty => "cannot parse integer from empty string"
  | invalidDigit => "invalid digit found in string"
  | tooLarge => "number too large to fit in target type"
  | tooSmall => "number too small to fit in target type"

/-- The value of a digit, of either case, in a base of at most thirty-six. -/
def digitValue? (base : Nat) (c : Char) : Option Nat :=
  let value :=
    if '0' ≤ c ∧ c ≤ '9' then c.toNat - '0'.toNat
    else if 'a' ≤ c ∧ c ≤ 'z' then c.toNat - 'a'.toNat + 10
    else if 'A' ≤ c ∧ c ≤ 'Z' then c.toNat - 'A'.toNat + 10
    else base
  if value < base then some value else none

/-- Reads digits onto a number, up to a limit. -/
def readDigits (base limit : Nat) (beyond : NumeralFault) :
    Nat → List Char → Except NumeralFault Nat
  | value, [] => .ok value
  | value, c :: cs =>
    match digitValue? base c with
    | none => .error .invalidDigit
    | some digit =>
      if value * base + digit ≤ limit then
        readDigits base limit beyond (value * base + digit) cs
      else
        .error beyond

/-- The integer of a type that a text denotes in a base. -/
def readInt (type : IntType) (base : Nat) (text : List Char) : Except NumeralFault Int :=
  let positive (digits : List Char) :=
    (readDigits base type.greatest .tooLarge 0 digits).map Int.ofNat
  match text with
  | [] => .error .empty
  | ['+'] => .error .invalidDigit
  | ['-'] => .error .invalidDigit
  | '+' :: digits => positive digits
  | '-' :: digits =>
    if type.signed then
      (readDigits base type.deepest .tooSmall 0 digits).map fun n => -Int.ofNat n
    else
      .error .invalidDigit
  | digits => positive digits

end Descent.Text
