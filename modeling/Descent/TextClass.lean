import Descent.Element
import Descent.Parser.Match

/-!
# Classes of characters

Tests on elements that stand for characters.  An element that stands for none passes no test, so
every test can be asked of every element type.  All classes are made of ASCII characters only.

Each class also has a name, under which one element or the longest run of elements of the class is
read.
-/

namespace Descent

/-- The classes of characters that grammars of text are made of. -/
inductive TextClass where
  /-- Space or tab. -/
  | space
  /-- Carriage return or line feed. -/
  | newline
  | spaceOrNewline
  /-- A letter, of either case. -/
  | alpha
  /-- A decimal digit. -/
  | digit
  /-- A hexadecimal digit, of either case. -/
  | hexDigit
  /-- A letter or a decimal digit. -/
  | alphaNum
  deriving DecidableEq, Repr

namespace TextClass

/-- Whether a character is a letter. -/
def isAlphaChar (c : Char) : Bool :=
  ('a' ≤ c && c ≤ 'z') || ('A' ≤ c && c ≤ 'Z')

/-- Whether a character is a decimal digit. -/
def isDigitChar (c : Char) : Bool :=
  '0' ≤ c && c ≤ '9'

/-- Whether a character is a space or a tab. -/
def isSpaceChar (c : Char) : Bool :=
  c == ' ' || c == '\t'

/-- Whether a character is a carriage return or a line feed. -/
def isNewlineChar (c : Char) : Bool :=
  c == '\r' || c == '\n'

/-- Whether a character belongs to the class. -/
def holds : TextClass → Char → Bool
  | space, c => isSpaceChar c
  | newline, c => isNewlineChar c
  | spaceOrNewline, c => isSpaceChar c || isNewlineChar c
  | alpha, c => isAlphaChar c
  | digit, c => isDigitChar c
  | hexDigit, c => isDigitChar c || ('a' ≤ c && c ≤ 'f') || ('A' ≤ c && c ≤ 'F')
  | alphaNum, c => isAlphaChar c || isDigitChar c

/-- The name of the class in messages. -/
def name : TextClass → String
  | space => "SPACE"
  | newline => "NEWLINE"
  | spaceOrNewline => "SPACE_OR_NEWLINE"
  | alpha => "ALPHA"
  | digit => "DIGIT"
  | hexDigit => "HEX_DIGIT"
  | alphaNum => "ALPHA_NUM"

variable {α : Type} [Element α]

/-- Whether an element stands for a character of the class. -/
def accepts (cls : TextClass) (e : α) : Bool :=
  match Element.char? e with
  | some c => cls.holds c
  | none => false

/-- One element of the class. -/
def single (cls : TextClass) : Parser α α := Parser.takeSingle cls.name cls.accepts

/-- The longest run of elements of the class. -/
def multi (cls : TextClass) : Parser α (List α) := Parser.takeWhile cls.name cls.accepts

theorem accepts_of_char {cls : TextClass} {e : α} {c : Char} (h : Element.char? e = some c) :
    cls.accepts e = cls.holds c := by
  simp only [accepts, h]

theorem accepts_of_no_char {cls : TextClass} {e : α} (h : Element.char? e = none) :
    cls.accepts e = false := by
  simp only [accepts, h]

end TextClass

end Descent
