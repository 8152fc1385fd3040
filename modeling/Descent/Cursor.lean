import Descent.Location

/-!
# Cursors

A cursor is a place in an input from which a parser reads.  It keeps the whole input, so a place
can be shown to a reader and the span between two places can be cut out; moving it changes the
place only.

A cursor is either at a position or at the end of input.  The operations keep the first form to
positions inside the input (`Cursor.WellFormed`), but a cursor may be built by hand at any
position, and every operation answers for those too: `position` counts at most to the length, and
there is nothing left to read at or beyond it.

A cursor is its input and its position; `Cursor.valid` and `Cursor.endOfInput` build the two forms
from these alone, and `Cursor.onForm` says that there are no others.  Inside, it also carries the
length of the input and the part that is still to be read.  Both are determined by the rest, and
both are there so that reading an element and moving past it take the same time everywhere in the
input.
-/

namespace Descent

/-- An input together with its length. -/
structure Source (α : Type) where
  elements : List α
  size : Nat
  size_eq : size = elements.length
  deriving DecidableEq

/-- The input with these elements. -/
def Source.ofList {α : Type} (elements : List α) : Source α := ⟨elements, elements.length, rfl⟩

/-- A place in an input. -/
inductive Cursor (α : Type) where
  /-- At a position, with what is still to be read from there. -/
  | inside (input : Source α) (position : Nat) (rest : List α)
      (rest_eq : rest = input.elements.drop position)
  /-- Past the last element. -/
  | past (input : Source α)
  deriving DecidableEq

namespace Cursor

universe u

variable {α : Type}

/-- The cursor at a position, normally of a readable element. -/
def valid (source : List α) (position : Nat) : Cursor α :=
  inside (.ofList source) position (source.drop position) rfl

/-- The cursor past the last element. -/
def endOfInput (source : List α) : Cursor α :=
  past (.ofList source)

/-- Every cursor is at a position of an input or at its end. -/
@[elab_as_elim, cases_eliminator]
def onForm {motive : Cursor α → Sort u}
    (valid : ∀ source position, motive (valid source position))
    (endOfInput : ∀ source, motive (endOfInput source)) : ∀ c, motive c
  | inside ⟨source, _, rfl⟩ position _ rfl => valid source position
  | past ⟨source, _, rfl⟩ => endOfInput source

/-- The cursor at a position of an input, or at the end of input if there is no element there. -/
def place (source : List α) (position : Nat) : Cursor α :=
  if position < source.length then valid source position else endOfInput source

/-- The cursor at the start of an input. -/
def new (source : List α) : Cursor α :=
  place source 0

/-- The whole input. -/
def source : Cursor α → List α
  | inside input _ _ _ => input.elements
  | past input => input.elements

/-- The number of elements before the cursor. -/
def position : Cursor α → Nat
  | inside input position _ _ => min position input.size
  | past input => input.size

/-- The input from the cursor on. -/
def remaining : Cursor α → List α
  | inside _ _ rest _ => rest
  | past _ => []

/-- The element under the cursor. -/
def value (c : Cursor α) : Option α :=
  c.remaining.head?

/-- Whether the cursor is of the form that marks the end of input. -/
def isEnd : Cursor α → Bool
  | inside _ _ _ _ => false
  | past _ => true

/-- The cursor so many elements further on, or the end of input. -/
def advance : Cursor α → Nat → Cursor α
  | inside input position rest rest_eq, count =>
    if position + count < input.size then
      inside input (position + count) (rest.drop count) (by rw [rest_eq, List.drop_drop])
    else
      past input
  | past input, _ => past input

/-- The cursor one element further on. -/
def next (c : Cursor α) : Cursor α :=
  c.advance 1

/-- The span from an earlier cursor to this one, cut by position; empty if the other one is not
earlier. -/
def consumedSince (c start : Cursor α) : List α :=
  (c.source.drop start.position).take (c.position - start.position)

/-- The number of elements from the cursor to the end of the input. -/
def left : Cursor α → Nat
  | inside input position _ _ => input.size - position
  | past _ => 0

/-- The cursor's place, for a diagnostic. -/
def loc (c : Cursor α) : Location α :=
  ⟨c.source, c.position⟩

/-- Cursors that the operations yield: one with a position stands on an element. -/
def WellFormed (c : Cursor α) : Prop :=
  c.isEnd = false → c.position < c.source.length

/-! ## How the operations meet -/

@[simp] theorem source_valid (source : List α) (position : Nat) :
    (valid source position).source = source := rfl

@[simp] theorem source_endOfInput (source : List α) : (endOfInput source).source = source := rfl

@[simp] theorem position_valid (source : List α) (position : Nat) :
    (valid source position).position = min position source.length := rfl

@[simp] theorem position_endOfInput (source : List α) :
    (endOfInput source).position = source.length := rfl

@[simp] theorem remaining_valid (source : List α) (position : Nat) :
    (valid source position).remaining = source.drop position := rfl

@[simp] theorem remaining_endOfInput (source : List α) : (endOfInput source).remaining = [] := rfl

@[simp] theorem isEnd_valid (source : List α) (position : Nat) :
    (valid source position).isEnd = false := rfl

@[simp] theorem isEnd_endOfInput (source : List α) : (endOfInput source).isEnd = true := rfl

@[simp] theorem value_valid (source : List α) (position : Nat) :
    (valid source position).value = source[position]? := by
  rw [value, remaining_valid, List.head?_drop]

@[simp] theorem value_endOfInput (source : List α) : (endOfInput source).value = none := rfl

@[simp] theorem left_valid (source : List α) (position : Nat) :
    (valid source position).left = source.length - position := rfl

@[simp] theorem left_endOfInput (source : List α) : (endOfInput source).left = 0 := rfl

@[simp] theorem advance_valid (source : List α) (position count : Nat) :
    (valid source position).advance count = place source (position + count) := by
  simp only [valid, endOfInput, advance, place, Source.ofList, List.drop_drop]

@[simp] theorem advance_endOfInput (source : List α) (count : Nat) :
    (endOfInput source).advance count = endOfInput source := rfl

@[simp] theorem source_place (source : List α) (position : Nat) :
    (place source position).source = source := by
  unfold place
  split <;> rfl

@[simp] theorem position_place (source : List α) (position : Nat) :
    (place source position).position = min position source.length := by
  unfold place
  split
  · rfl
  · simp only [position_endOfInput]
    omega

@[simp] theorem remaining_place (source : List α) (position : Nat) :
    (place source position).remaining = source.drop position := by
  unfold place
  split
  · rfl
  · rw [remaining_endOfInput, List.drop_eq_nil_of_le (by omega)]

@[simp] theorem wellFormed_valid (source : List α) (position : Nat) :
    (valid source position).WellFormed ↔ position < source.length := by
  simp only [WellFormed, isEnd_valid, position_valid, source_valid, true_imp_iff]
  omega

@[simp] theorem wellFormed_endOfInput (source : List α) : (endOfInput source).WellFormed :=
  fun h => absurd h (by simp)

theorem wellFormed_place (source : List α) (position : Nat) :
    (place source position).WellFormed := by
  unfold place
  split
  · exact (wellFormed_valid source position).mpr ‹_›
  · exact wellFormed_endOfInput source

@[simp] theorem source_advance (c : Cursor α) (count : Nat) :
    (c.advance count).source = c.source := by
  cases c with
  | valid source position => simp
  | endOfInput source => rfl

theorem position_le (c : Cursor α) : c.position ≤ c.source.length := by
  cases c with
  | valid source position => exact Nat.min_le_right _ _
  | endOfInput source => exact Nat.le_refl _

/-- What remains is what the input holds from the position on. -/
theorem remaining_eq_drop (c : Cursor α) : c.remaining = c.source.drop c.position := by
  cases c with
  | valid source position =>
    rw [remaining_valid, source_valid, position_valid]
    rcases Nat.le_total position source.length with h | h
    · rw [Nat.min_eq_left h]
    · rw [Nat.min_eq_right h, List.drop_length, List.drop_eq_nil_of_le h]
  | endOfInput source => simp

theorem left_eq (c : Cursor α) : c.left = c.source.length - c.position := by
  cases c with
  | valid source position =>
    rw [left_valid, source_valid, position_valid]
    omega
  | endOfInput source => simp

theorem length_remaining (c : Cursor α) : c.remaining.length = c.left := by
  rw [remaining_eq_drop, List.length_drop, left_eq]

theorem position_add_length_remaining (c : Cursor α) :
    c.position + c.remaining.length = c.source.length := by
  rw [length_remaining, left_eq, Nat.add_sub_cancel' c.position_le]

/-- There is an element under a cursor as long as anything remains. -/
theorem value_eq_none_iff {c : Cursor α} : c.value = none ↔ c.remaining = [] := by
  rw [value, List.head?_eq_none_iff]

theorem consumedSince_eq_nil {c next : Cursor α} (h : next.position ≤ c.position) :
    next.consumedSince c = [] := by
  rw [consumedSince, Nat.sub_eq_zero_of_le h, List.take_zero]

end Cursor

end Descent
