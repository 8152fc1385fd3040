import Descent.Text.Lossy
import Descent.Text.Quoted

/-!
# Elements of an input

An input is a list of elements of any type.  Parsing asks only whether two elements are equal; the
class below holds what a diagnostic needs besides: how an element is shown, whether it ends a line,
and, for types that stand for text, which character it is and how a list of them reads.

Characters and bytes are text.  The other numeric types are plain codes: they end no line, stand
for no character, and a list of them is shown as a list of numbers.
-/

namespace Descent

/-- What diagnostics ask of an element type. -/
class Element (α : Type) where
  /-- How one element is shown in a list. -/
  dump : α → String
  /-- The element an optional parser yields when there is none in the input. -/
  blank : α
  /-- Whether the element ends a line. -/
  isNewline : α → Bool := fun _ => false
  /-- The character the element stands for, if the type is textual. -/
  char? : α → Option Char := fun _ => none
  /-- The text of a list of elements, if the type is textual. -/
  text? : List α → Option String := fun _ => none
  /-- How many leading elements, at most the limit, can be shown without cutting a character. -/
  previewBoundary : List α → Nat → Nat := fun elements limit => min limit elements.length

namespace Element

variable {α : Type} [Element α]

/-- A list of elements as a message shows it: quoted if it is text, element by element if not. -/
def format (elements : List α) : String :=
  match text? elements with
  | some text => Text.quoted text
  | none => "[" ++ ", ".intercalate (elements.map dump) ++ "]"

theorem format_of_text {elements : List α} {text : String} (h : text? elements = some text) :
    format elements = Text.quoted text := by
  simp only [format, h]

theorem format_of_no_text {elements : List α} (h : text? elements = none) :
    format elements = "[" ++ ", ".intercalate (elements.map dump) ++ "]" := by
  simp only [format, h]

end Element

/-! ## Textual elements -/

instance : Element Char where
  dump c := "'" ++ String.ofList (Text.escape c) ++ "'"
  blank := '\x00'
  isNewline c := c == '\n'
  char? c := some c
  text? cs := some (String.ofList cs)

/-- Whether the byte can only stand inside a character of several bytes. -/
def isContinuation (b : UInt8) : Bool :=
  b &&& 0xC0 == 0x80

/-- How far to back up from a stop, given the bytes up to and including the one after it, last
first: to before the nearest byte that starts something, or to the start of the bytes. -/
def backUp : List UInt8 → Nat
  | [] => 0
  | b :: earlier => if isContinuation b then backUp earlier else earlier.length

theorem backUp_lt {bytes : List UInt8} (h : bytes ≠ []) : backUp bytes < bytes.length := by
  induction bytes with
  | nil => exact absurd rfl h
  | cons b earlier ih =>
    rw [backUp, List.length_cons]
    split
    · cases earlier with
      | nil => exact Nat.lt_succ_self 0
      | cons => exact Nat.lt_succ_of_lt (ih (List.cons_ne_nil _ _))
    · exact Nat.lt_succ_self _

/-- The last place, at or before `stop`, that is the end of the bytes or the start of a byte that
is no continuation; the start of the bytes if there is none. -/
def boundaryBefore (bytes : List UInt8) (stop : Nat) : Nat :=
  if stop < bytes.length then backUp (bytes.take (stop + 1)).reverse else stop

theorem boundaryBefore_le (bytes : List UInt8) (stop : Nat) : boundaryBefore bytes stop ≤ stop := by
  unfold boundaryBefore
  split
  next h =>
    have bound : backUp (bytes.take (stop + 1)).reverse < (bytes.take (stop + 1)).reverse.length :=
      backUp_lt (by
        rw [ne_eq, List.reverse_eq_nil_iff, List.take_eq_nil_iff]
        rintro (h' | rfl)
        · exact absurd h' (Nat.succ_ne_zero stop)
        · exact absurd h (Nat.not_lt_zero stop))
    rw [List.length_reverse, List.length_take] at bound
    omega
  next => exact Nat.le_refl stop

/-- A byte stands for the character of the same number, and bytes together for their text. -/
instance : Element UInt8 where
  dump b := toString b.toNat
  blank := 0
  isNewline b := b == 10
  char? b := some (Char.ofNat b.toNat)
  text? bytes := some (String.ofList (Text.decodeLossy bytes))
  previewBoundary bytes limit := boundaryBefore bytes (min limit bytes.length)

/-! ## Codes -/

instance : Element UInt16 where
  dump n := toString n.toNat
  blank := 0

instance : Element UInt32 where
  dump n := toString n.toNat
  blank := 0

instance : Element UInt64 where
  dump n := toString n.toNat
  blank := 0

instance : Element Int8 where
  dump n := toString n.toInt
  blank := 0

instance : Element Int16 where
  dump n := toString n.toInt
  blank := 0

instance : Element Int32 where
  dump n := toString n.toInt
  blank := 0

instance : Element Int64 where
  dump n := toString n.toInt
  blank := 0

end Descent
