import Descent.Element

/-!
# Locations

A location is a place in an input, kept as a plain position so that it can be formed anywhere.  It
can be shown three ways: by the input that starts there (`preview`), by line and offset
(`readable`), and by an excerpt of the lines around it with a marker below (`excerpt`).

The offset counts elements, not columns: columns depend on encoding, tab width and fonts, element
counts do not.  A position beyond the input counts as further along the last line.

The excerpt is kept as data.  Writing it out can fail in one way only, a marker indented by more
than any text can hold, so `contextLines` yields nothing for such a location and the lines for all
others.
-/

namespace Descent

/-- How many elements a preview shows. -/
def previewLength : Nat := 32

/-- The length that no text can exceed: lengths are counted in signed words of 64 bits. -/
def maxTextLength : Nat := 0x7fffffffffffffff

/-- A line number, counted from one, and the number of elements before a place in that line. -/
structure LinePosition where
  line : Nat
  offset : Nat
  deriving DecidableEq, Repr

namespace LinePosition

variable {α : Type} [Element α]

/-- Where every input starts. -/
def start : LinePosition := ⟨1, 0⟩

/-- The place after one more element. -/
def after (place : LinePosition) (e : α) : LinePosition :=
  if Element.isNewline e then ⟨place.line + 1, 0⟩ else ⟨place.line, place.offset + 1⟩

/-- The place as a message names it. -/
def display (place : LinePosition) : String :=
  "line " ++ toString place.line ++ ", offset " ++ toString place.offset

end LinePosition

/-- A place in an input. -/
structure Location (α : Type) where
  source : List α
  position : Nat
  deriving DecidableEq, Repr

/-- One line of an excerpt. -/
inductive ExcerptLine where
  /-- A numbered line of the input; the line of the location is marked. -/
  | code (number : Nat) (marked : Bool) (text : String)
  /-- The marker, after so many blanks. -/
  | marker (indent : Nat)
  deriving DecidableEq, Repr

namespace ExcerptLine

/-- What stands before the text of a numbered line. -/
def gutter (number : Nat) (marked : Bool) : String :=
  (if marked then "  > " else "    ") ++ toString number ++ " | "

/-- The line as text, unless it would be too long to be one. -/
def render? : ExcerptLine → Option String
  | .code number marked text => some (gutter number marked ++ text)
  | .marker indent =>
    if indent ≤ maxTextLength then
      some (String.ofList (List.replicate indent ' ') ++ "^--- here")
    else
      none

@[simp] theorem render?_code (number : Nat) (marked : Bool) (text : String) :
    (code number marked text).render? = some (gutter number marked ++ text) := rfl

theorem render?_marker (indent : Nat) :
    (marker indent).render? =
      if indent ≤ maxTextLength then
        some (String.ofList (List.replicate indent ' ') ++ "^--- here")
      else none := rfl

end ExcerptLine

/-- The lines of an input, without the elements that end them.  There is one more line than there
are such elements. -/
def splitLines {α : Type} [Element α] : List α → List (List α)
  | [] => [[]]
  | e :: es =>
    if Element.isNewline e then [] :: splitLines es
    else (splitLines es).modifyHead (e :: ·)

namespace Location

variable {α : Type}

/-- The input from the location on. -/
def rest (loc : Location α) : List α :=
  loc.source.drop loc.position

@[simp] theorem rest_mk (source : List α) (position : Nat) :
    (Location.mk source position).rest = source.drop position := rfl

variable [Element α]

/-- The input at the location, quoted and cut short with dots if it is long. -/
def preview (loc : Location α) : String :=
  if previewLength < loc.rest.length then
    Element.format (loc.rest.take (Element.previewBoundary loc.rest previewLength)) ++ "..."
  else
    Element.format loc.rest

/-- Line and offset of the location, found by walking the input up to it. -/
def readable (loc : Location α) : LinePosition :=
  let walked := (loc.source.take loc.position).foldl LinePosition.after .start
  ⟨walked.line, walked.offset + (loc.position - loc.source.length)⟩

/-- The location as a message names it. -/
def display (loc : Location α) : String :=
  loc.readable.display

/-- The lines from two before a line to two after it, each with its number. -/
def window (source : List α) (line : Nat) : List (List α × Nat) :=
  ((splitLines source).zipIdx 1).filter fun (_, number) =>
    line ≤ number + 2 && number ≤ line + 2

/-- One line of the window, with the marker below it if it is the line of the place. -/
def excerptAt (place : LinePosition) (text : String) (number : Nat) : List ExcerptLine :=
  if number = place.line then
    [.code number true text, .marker ((ExcerptLine.gutter number true).length + place.offset)]
  else
    [.code number false text]

/-- The lines around the location with a marker below the place; empty if the elements are not
text. -/
def excerpt (loc : Location α) : List ExcerptLine :=
  let place := loc.readable
  match (window loc.source place.line).mapM fun (line, number) =>
      (Element.text? line).map (·, number) with
  | some rows => rows.flatMap fun (text, number) => excerptAt place text number
  | none => []

/-- The excerpt written out. -/
def contextLines (loc : Location α) : Option (List String) :=
  loc.excerpt.mapM ExcerptLine.render?

end Location

end Descent
