import Descent.Text.Combining
import Descent.Text.Unprintable

/-!
# Quoted text

Text in an error message stands between double quotes, with the characters that would not survive
there spelled as escapes: the quote and the backslash, the four named controls, and by number
whatever a reader could not see or could not tell from its neighbour.  A single quote needs no
escape between double quotes and gets none.

Everything is stated on lists of characters, so that it can be read back and compared; `quoted` is
the same on strings.
-/

namespace Descent.Text

/-- Whether a character has to be spelled by number: it is not printable, or it would attach itself
to the character before it. -/
def needsNumber (c : Char) : Bool :=
  CodeRange.covers combining c || CodeRange.covers unprintable c

/-- A character spelled by its number in lower-case hexadecimal, without leading zeros. -/
def numbered (c : Char) : List Char :=
  '\\' :: 'u' :: '\x7b' :: (Nat.toDigits 16 c.toNat ++ ['\x7d'])

/-- How one character is written between quotes. -/
def escape (c : Char) : List Char :=
  match c with
  | '\x00' => ['\\', '0']
  | '\t' => ['\\', 't']
  | '\r' => ['\\', 'r']
  | '\n' => ['\\', 'n']
  | '\\' => ['\\', '\\']
  | '"' => ['\\', '"']
  | c => if needsNumber c then numbered c else [c]

/-- A list of characters between quotes. -/
def quote (text : List Char) : List Char :=
  '"' :: (text.flatMap escape ++ ['"'])

theorem quote_eq (text : List Char) : quote text = '"' :: (text.flatMap escape ++ ['"']) := rfl

@[simp] theorem quote_nil : quote [] = ['"', '"'] := rfl

/-- A string between quotes. -/
def quoted (text : String) : String :=
  String.ofList (quote text.toList)

end Descent.Text
