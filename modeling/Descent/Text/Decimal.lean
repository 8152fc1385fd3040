/-!
# Fractions in text

A number is written as an optional sign and one of

* digits with at most one point among them, at least one digit in all, and possibly an exponent:
  a letter `e` of either case, an optional sign and at least one digit;
* `inf`, `infinity` or `nan`, in any mixture of cases.

Its value is the floating-point number nearest to the one written.  The digits are read as a
numeral and a power of ten; where the power puts the number beyond the range of floating point, in
either direction, the value is decided without forming the power.
-/

namespace Descent.Text

/-- Why a text is no fraction. -/
inductive DecimalFault where
  | empty
  | invalid
  deriving DecidableEq, Repr

/-- The fault as a message. -/
def DecimalFault.message : DecimalFault → String
  | empty => "cannot parse float from empty string"
  | invalid => "invalid float literal"

/-- Digits and a power of ten. -/
structure Decimal where
  digits : List Char
  exponent : Int
  deriving DecidableEq, Repr

namespace Decimal

/-- Whether a character is a decimal digit. -/
def isDigit (c : Char) : Bool :=
  '0' ≤ c && c ≤ '9'

/-- The number that digits denote, after one read before them. -/
def numeral (start : Nat) (digits : List Char) : Nat :=
  digits.foldl (fun n c => n * 10 + (c.toNat - '0'.toNat)) start

/-- An exponent at or beyond this is so far out of range that its further digits do not matter. -/
def farExponent : Nat := 0x10000

/-- The number that the digits of an exponent denote, which stops growing once it is far. -/
def exponentSize (digits : List Char) : Nat :=
  digits.foldl (fun n c => if n < farExponent then numeral n [c] else n) 0

/-- What follows the digits: nothing, or an exponent. -/
def readExponent? : List Char → Option Int
  | [] => some 0
  | e :: cs =>
    if e = 'e' ∨ e = 'E' then
      let (negative, digits) :=
        match cs with
        | '-' :: ds => (true, ds)
        | '+' :: ds => (false, ds)
        | ds => (false, ds)
      if digits ≠ [] ∧ digits.all isDigit then
        let size := Int.ofNat (exponentSize digits)
        some (if negative then -size else size)
      else
        none
    else
      none

/-- The number that a text without a sign denotes, if it is written with digits. -/
def read? (text : List Char) : Option Decimal :=
  let whole := text.takeWhile isDigit
  let behind := text.dropWhile isDigit
  let (fraction, rest) :=
    match behind with
    | '.' :: cs => (cs.takeWhile isDigit, cs.dropWhile isDigit)
    | cs => ([], cs)
  if whole ++ fraction = [] then
    none
  else
    (readExponent? rest).map fun exponent => ⟨whole ++ fraction, exponent - fraction.length⟩

/-- The floating-point number nearest to a decimal. -/
def toFloat (d : Decimal) : Float :=
  let significant := d.digits.dropWhile (· == '0')
  let digits := significant.length
  let n := numeral 0 significant
  if significant = [] then 0
  else if d.exponent + digits > 310 then 1 / 0
  else if d.exponent + digits < -330 then 0
  else if d.exponent < 0 then Float.ofScientific n true d.exponent.natAbs
  else Float.ofScientific n false d.exponent.natAbs

end Decimal

/-- The value of a word for a number that is not written with digits. -/
def specialFloat? (text : List Char) : Option Float :=
  match String.ofList (text.map Char.toLower) with
  | "inf" => some (1 / 0)
  | "infinity" => some (1 / 0)
  | "nan" => some (0 / 0)
  | _ => none

/-- The floating-point number that a text denotes. -/
def readFloat (text : List Char) : Except DecimalFault Float :=
  let unsigned (body : List Char) : Except DecimalFault Float :=
    match Decimal.read? body with
    | some d => .ok d.toFloat
    | none =>
      match specialFloat? body with
      | some x => .ok x
      | none => .error .invalid
  match text with
  | [] => .error .empty
  | '-' :: body => (unsigned body).map fun x => -x
  | '+' :: body => unsigned body
  | body => unsigned body

end Descent.Text
