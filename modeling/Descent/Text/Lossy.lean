/-!
# Reading bytes as text, whatever they are

Bytes are read as UTF-8.  Where they are not UTF-8, each longest piece that could still have begun
a character, and each byte that could not, becomes one replacement character, so that every list
of bytes has a text and well-formed bytes have their own.

The reader is a machine over the bytes.  Inside a character it remembers how many bytes are owed
and which range the next one has to lie in; the range is narrower than that of a continuation byte
only right after the first bytes that would otherwise begin an overlong form, a surrogate or a
number beyond the last code point.  Because the state says everything, cutting the bytes at a place
where the machine stands between characters cuts the text at the same place.
-/

namespace Descent.Text

/-- Stands for bytes that are no character. -/
def replacementChar : Char := '\ufffd'

/-- A character of which some bytes have been read. -/
structure Pending where
  /-- The number collected from the bytes read so far. -/
  value : Nat
  /-- How many bytes are still owed after the next one. -/
  owed : Nat
  /-- The least the next byte may be. -/
  least : Nat
  /-- The greatest the next byte may be. -/
  greatest : Nat

namespace Pending

/-- A character whose first byte has been read: `payload` are the bits that byte holds, and the
next byte may be any continuation byte. -/
def begun (payload owed : Nat) : Pending := ⟨payload, owed, 0x80, 0xBF⟩

/-- Whether the next byte can belong to the character. -/
def accepts (p : Pending) (b : UInt8) : Bool :=
  p.least ≤ b.toNat && b.toNat ≤ p.greatest

/-- The number after one more byte, which holds six bits. -/
def extended (p : Pending) (b : UInt8) : Nat :=
  p.value * 64 + (b.toNat - 0x80)

end Pending

/-- Where the reader stands. -/
inductive Reading where
  | between
  | inside (p : Pending)

/-- What a byte read between characters does: it may be a character, begin one, or be neither. -/
def readFirst (b : UInt8) : List Char × Reading :=
  let n := b.toNat
  if n < 0x80 then ([Char.ofNat n], .between)
  else if n < 0xC2 then ([replacementChar], .between)
  else if n < 0xE0 then ([], .inside (.begun (n - 0xC0) 0))
  else if n = 0xE0 then ([], .inside { Pending.begun 0 1 with least := 0xA0 })
  else if n = 0xED then ([], .inside { Pending.begun 0xD 1 with greatest := 0x9F })
  else if n < 0xF0 then ([], .inside (.begun (n - 0xE0) 1))
  else if n = 0xF0 then ([], .inside { Pending.begun 0 2 with least := 0x90 })
  else if n < 0xF4 then ([], .inside (.begun (n - 0xF0) 2))
  else if n = 0xF4 then ([], .inside { Pending.begun 4 2 with greatest := 0x8F })
  else ([replacementChar], .between)

/-- What a byte does in any state.  A byte that cannot continue a character ends it, broken, and
is then read as a first byte. -/
def Reading.read (state : Reading) (b : UInt8) : List Char × Reading :=
  match state with
  | .between => readFirst b
  | .inside p =>
    if p.accepts b then
      match p.owed with
      | 0 => ([Char.ofNat (p.extended b)], .between)
      | owed + 1 => ([], .inside (.begun (p.extended b) owed))
    else
      let (cs, next) := readFirst b
      (replacementChar :: cs, next)

/-- What the end of the bytes leaves: a character that was begun is broken. -/
def Reading.atEnd : Reading → List Char
  | .between => []
  | .inside _ => [replacementChar]

/-- The text of the bytes, from any state. -/
def decodeFrom (state : Reading) : List UInt8 → List Char
  | [] => state.atEnd
  | b :: bytes => (state.read b).1 ++ decodeFrom (state.read b).2 bytes

/-- The text of a list of bytes. -/
def decodeLossy (bytes : List UInt8) : List Char :=
  decodeFrom .between bytes

@[simp] theorem decodeFrom_nil (state : Reading) : decodeFrom state [] = state.atEnd := rfl

theorem decodeFrom_cons (state : Reading) (b : UInt8) (bytes : List UInt8) :
    decodeFrom state (b :: bytes) = (state.read b).1 ++ decodeFrom (state.read b).2 bytes := rfl

@[simp] theorem decodeLossy_nil : decodeLossy [] = [] := rfl

end Descent.Text
