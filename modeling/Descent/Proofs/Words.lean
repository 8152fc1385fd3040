import Descent.Proofs.Consumption

/-!
# Cursors that count in words

The position of a cursor is a natural number here.  A machine keeps it in a word: a cursor built by
hand may be at any word, however far beyond the end of its input, a sum that no word holds is cut
off at the greatest one, and a span is cut out of the input by two indices that have to be in range.
`WordCursor` is the cursor of the machine, with positions that are words and with every index
checked, and `WordCursor.cursor` is the cursor that it stands for.

The two answer alike (`WordCursor.AnswersAlike`).  No input is longer than the greatest word, so
where a sum is cut off, both the sum and the greatest word are beyond the last element, and beyond
the last element there is one place only (`Cursor.place_min`).  The indices of a span are cut off at
the length of the input and compared before they are used, and so they are in range in whatever
input the other cursor lies.

* `movement_clamps_and_spans_add`: moving by two counts is moving by their sum, which may be cut
  off, and ends at the end of the input at the latest; two spans, one behind the other, are one
  span; and no span is cut out by an index that is out of range.
-/

namespace Descent

variable {α : Type}

/-! ## Indices that are checked -/

/-- A list from an index on, if the index is in range. -/
def sliceFrom? (es : List α) (start : Nat) : Option (List α) :=
  if start ≤ es.length then some (es.drop start) else none

/-- A list up to an index, if the index is in range. -/
def sliceTo? (es : List α) (stop : Nat) : Option (List α) :=
  if stop ≤ es.length then some (es.take stop) else none

/-- The part of a list between two indices, if they are in order and in range. -/
def slice? (es : List α) (start stop : Nat) : Option (List α) :=
  (sliceTo? es stop).bind fun front => sliceFrom? front start

theorem sliceFrom?_of_le {es : List α} {start : Nat} (h : start ≤ es.length) :
    sliceFrom? es start = some (es.drop start) :=
  if_pos h

theorem sliceTo?_of_le {es : List α} {stop : Nat} (h : stop ≤ es.length) :
    sliceTo? es stop = some (es.take stop) :=
  if_pos h

theorem slice?_of_le {es : List α} {start stop : Nat} (hle : start ≤ stop)
    (hstop : stop ≤ es.length) :
    slice? es start stop = some ((es.drop start).take (stop - start)) := by
  have hfront : start ≤ (es.take stop).length := by rwa [List.length_take_of_le hstop]
  rw [slice?, sliceTo?_of_le hstop, Option.bind_some, sliceFrom?_of_le hfront, List.drop_take]

/-! ## Words -/

/-- The sum of two words, or the greatest word if no word holds it. -/
def saturatingSum (a b : UInt64) : UInt64 :=
  .ofNatClamp (a.toNat + b.toNat)

theorem toNat_saturatingSum (a b : UInt64) :
    (saturatingSum a b).toNat = min (a.toNat + b.toNat) (UInt64.size - 1) := by
  rw [saturatingSum]
  by_cases h : a.toNat + b.toNat < UInt64.size
  · rw [UInt64.toNat_ofNatClamp_of_lt h]
    omega
  · rw [UInt64.toNat_ofNatClamp_of_le (Nat.le_of_not_lt h)]
    omega

/-- An input whose length is a word. -/
@[ext]
structure Slice (α : Type) where
  elements : List α
  length_lt : elements.length < UInt64.size

namespace Slice

/-- The number of elements. -/
def length (data : Slice α) : UInt64 :=
  .ofNatLT data.elements.length data.length_lt

@[simp] theorem toNat_length (data : Slice α) : data.length.toNat = data.elements.length :=
  UInt64.toNat_ofNatLT

theorem length_le_iff {data : Slice α} {position : UInt64} :
    data.length ≤ position ↔ data.elements.length ≤ position.toNat := by
  rw [UInt64.le_iff_toNat_le, toNat_length]

theorem length_le_greatest (data : Slice α) : data.elements.length ≤ UInt64.size - 1 :=
  Nat.le_sub_one_of_lt data.length_lt

end Slice

/-- A place in an input, as a machine keeps it. -/
inductive WordCursor (α : Type) where
  /-- At a position, which may be any word. -/
  | valid (data : Slice α) (position : UInt64)
  /-- Past the last element. -/
  | endOfInput (data : Slice α)

namespace WordCursor

/-- The cursor at a position of an input, or at the end of input if there is no element there. -/
def place (data : Slice α) (position : UInt64) : WordCursor α :=
  if data.length ≤ position then endOfInput data else valid data position

/-- The whole input. -/
def source : WordCursor α → Slice α
  | valid data _ => data
  | endOfInput data => data

/-- The element under the cursor, looked up by its index. -/
def value : WordCursor α → Option α
  | valid data position => data.elements[position.toNat]?
  | endOfInput _ => none

/-- The cursor so many elements further on, or the end of input. -/
def advance : WordCursor α → UInt64 → WordCursor α
  | valid data position, count => place data (saturatingSum position count)
  | endOfInput data, _ => endOfInput data

/-- The number of elements before the cursor. -/
def position : WordCursor α → UInt64
  | valid data position => min position data.length
  | endOfInput data => data.length

/-- The input from the cursor on, or nothing if the position is out of range. -/
def remaining : WordCursor α → List α
  | valid data position => (sliceFrom? data.elements position.toNat).getD []
  | endOfInput _ => []

/-- The span from an earlier cursor to this one, if the indices that cut it out are in range; empty
if the other one is not earlier. -/
def consumedSince? (w start : WordCursor α) : Option (List α) :=
  let first := min start.position w.source.length
  let last := min w.position w.source.length
  if last < first then some [] else slice? w.source.elements first.toNat last.toNat

/-- The cursor that this one stands for. -/
def cursor : WordCursor α → Cursor α
  | valid data position => .valid data.elements position.toNat
  | endOfInput data => .endOfInput data.elements

end WordCursor

/-! ## Bounds beyond the end -/

namespace Cursor

/-- Beyond the last element there is one place only, so a bound there changes nothing. -/
theorem place_min {source : List α} {most : Nat} (h : source.length ≤ most) (position : Nat) :
    place source (min position most) = place source position := by
  by_cases hlt : position < source.length
  · have hmin : min position most = position := by omega
    rw [hmin]
  · have hmin : ¬ min position most < source.length := by omega
    rw [place, place, if_neg hmin, if_neg hlt]

theorem advance_min (c : Cursor α) {most : Nat} (h : c.source.length ≤ most) (count : Nat) :
    c.advance (min count most) = c.advance count := by
  cases c with
  | valid source position =>
    have hmost : source.length ≤ position + most := Nat.le_add_left_of_le h
    rw [advance_valid, advance_valid, ← Nat.add_min_add_left, place_min hmost]
  | endOfInput source => rfl

/-- A span is cut out between its two positions, once the first is cut off at the length of the
input. -/
theorem slice?_eq_consumedSince {c start : Cursor α}
    (h : min start.position c.source.length ≤ c.position) :
    slice? c.source (min start.position c.source.length) c.position =
      some (c.consumedSince start) := by
  have hend := c.position_le
  rw [slice?_of_le h hend]
  by_cases hle : start.position ≤ c.source.length
  · rw [Nat.min_eq_left hle, consumedSince]
  · -- the other cursor lies in a longer input, further on than this one ends
    have hbeyond : c.source.length ≤ start.position := Nat.le_of_not_le hle
    rw [Nat.min_eq_right hbeyond, Nat.sub_eq_zero_of_le hend, List.take_zero,
      consumedSince_eq_nil (Nat.le_trans hend hbeyond)]

/-- A cursor moves by the sum of two counts where it moves by one and then by the other, no further
than to the end of the input, and reads the first of what remains. -/
structure MovesClamped (c : Cursor α) : Prop where
  advance_advance (a b : UInt64) :
    (c.advance a.toNat).advance b.toNat = c.advance (saturatingSum a b).toNat
  position_advance (a : UInt64) :
    (c.advance a.toNat).position = min (c.position + a.toNat) c.source.length
  value_eq_head? : c.value = c.remaining.head?
  value_eq_none_iff : c.value = none ↔ c.remaining = []
  position_add_length_remaining : c.position + c.remaining.length = c.source.length

theorem movesClamped {c : Cursor α} (h : c.source.length < UInt64.size) : c.MovesClamped where
  advance_advance a b := by
    rw [Cursor.advance_advance, toNat_saturatingSum, c.advance_min (Nat.le_sub_one_of_lt h)]
  position_advance a := c.position_advance a.toNat
  value_eq_head? := rfl
  value_eq_none_iff := Cursor.value_eq_none_iff
  position_add_length_remaining := c.position_add_length_remaining

end Cursor

/-! ## Words answer as numbers -/

namespace WordCursor

/-- Cursors that stand for the same one are of the same form and at the same position. -/
theorem cursor_inj {w w' : WordCursor α} : w.cursor = w'.cursor ↔ w = w' := by
  refine ⟨fun h => ?_, fun h => congrArg cursor h⟩
  have hsource := congrArg Cursor.source h
  have hend := congrArg Cursor.isEnd h
  cases w with
  | valid data position =>
    cases w' with
    | valid data' position' =>
      obtain ⟨-, hposition, -⟩ := Cursor.inside.inj h
      rw [Slice.ext hsource, UInt64.toNat_inj.mp hposition]
    | endOfInput data' => exact absurd hend Bool.false_ne_true
  | endOfInput data =>
    cases w' with
    | valid data' position' => exact absurd hend.symm Bool.false_ne_true
    | endOfInput data' => rw [Slice.ext hsource]

theorem source_cursor (w : WordCursor α) : w.cursor.source = w.source.elements := by
  cases w <;> rfl

theorem cursor_place (data : Slice α) (position : UInt64) :
    (place data position).cursor = .place data.elements position.toNat := by
  by_cases h : data.length ≤ position
  · have hbeyond : ¬ position.toNat < data.elements.length :=
      Nat.not_lt.mpr (Slice.length_le_iff.mp h)
    rw [place, if_pos h, Cursor.place, if_neg hbeyond, cursor]
  · have hinside : position.toNat < data.elements.length :=
      Nat.lt_of_not_le (mt Slice.length_le_iff.mpr h)
    rw [place, if_neg h, Cursor.place, if_pos hinside, cursor]

theorem cursor_advance (w : WordCursor α) (count : UInt64) :
    (w.advance count).cursor = w.cursor.advance count.toNat := by
  cases w with
  | valid data position =>
    calc (place data (saturatingSum position count)).cursor
        = .place data.elements (min (position.toNat + count.toNat) (UInt64.size - 1)) := by
          rw [cursor_place, toNat_saturatingSum]
      _ = .place data.elements (position.toNat + count.toNat) :=
          Cursor.place_min data.length_le_greatest _
      _ = (Cursor.valid data.elements position.toNat).advance count.toNat :=
          (Cursor.advance_valid _ _ _).symm
  | endOfInput data => rfl

theorem toNat_position (w : WordCursor α) : w.position.toNat = w.cursor.position := by
  cases w with
  | valid data position =>
    show (min position data.length).toNat = min position.toNat data.elements.length
    rw [UInt64.toNat_min, Slice.toNat_length]
  | endOfInput data => exact data.toNat_length

theorem value_cursor (w : WordCursor α) : w.cursor.value = w.value := by
  cases w with
  | valid data position => exact Cursor.value_valid data.elements position.toNat
  | endOfInput data => rfl

theorem remaining_cursor (w : WordCursor α) : w.cursor.remaining = w.remaining := by
  cases w with
  | valid data position =>
    show data.elements.drop position.toNat = (sliceFrom? data.elements position.toNat).getD []
    by_cases h : position.toNat ≤ data.elements.length
    · rw [sliceFrom?_of_le h, Option.getD_some]
    · rw [sliceFrom?, if_neg h, Option.getD_none, List.drop_eq_nil_of_le (Nat.le_of_not_le h)]
  | endOfInput data => rfl

/-- The indices of a span are in range wherever the two cursors are, in one input or in two. -/
theorem consumedSince?_eq (w start : WordCursor α) :
    w.consumedSince? start = some (w.cursor.consumedSince start.cursor) := by
  have hlast : min w.cursor.position w.cursor.source.length = w.cursor.position :=
    Nat.min_eq_left w.cursor.position_le
  simp only [consumedSince?, UInt64.lt_iff_toNat_lt, UInt64.toNat_min, toNat_position,
    Slice.toNat_length, ← source_cursor, hlast]
  split
  next h =>
    have hle : w.cursor.position ≤ start.cursor.position :=
      Nat.le_of_lt (Nat.lt_of_lt_of_le h (Nat.min_le_left _ _))
    rw [Cursor.consumedSince_eq_nil hle]
  next h => exact Cursor.slice?_eq_consumedSince (Nat.le_of_not_lt h)

/-- A cursor that counts in words answers as the one that it stands for. -/
structure AnswersAlike (w : WordCursor α) : Prop where
  source : w.source.elements = w.cursor.source
  advance (count : UInt64) : (w.advance count).cursor = w.cursor.advance count.toNat
  position : w.position.toNat = w.cursor.position
  value : w.value = w.cursor.value
  remaining : w.remaining = w.cursor.remaining
  consumedSince (start : WordCursor α) :
    w.consumedSince? start = some (w.cursor.consumedSince start.cursor)

theorem answersAlike (w : WordCursor α) : w.AnswersAlike where
  source := w.source_cursor.symm
  advance := w.cursor_advance
  position := w.toNat_position
  value := w.value_cursor.symm
  remaining := w.remaining_cursor.symm
  consumedSince := w.consumedSince?_eq

theorem movesClamped_cursor (w : WordCursor α) : w.cursor.MovesClamped := by
  apply Cursor.movesClamped
  rw [source_cursor]
  exact w.source.length_lt

theorem advance_advance (w : WordCursor α) (a b : UInt64) :
    (w.advance a).advance b = w.advance (saturatingSum a b) := by
  rw [← cursor_inj, cursor_advance, cursor_advance, cursor_advance,
    w.movesClamped_cursor.advance_advance]

end WordCursor

/-- **Movement is a clamped action of addition, and spans add up.**  Take any cursor that a machine
can hold, be it well formed or built by hand.  It answers as the cursor that it stands for: neither
a sum that is cut off nor an index of a span makes a difference, whatever input the other cursor of
the span lies in.  Moving it by one count and then by another is moving it by their sum, cut off at
the greatest word; it then stands at the sum of position and count, or at the end of the input if
that is less; the element under it is the first that remains, if any does; and what is before it
and what remains make up the length of the input.  The span from it to a place further on, with the
span from there to a third place behind it, is the span from it to the third. -/
theorem movement_clamps_and_spans_add (w : WordCursor α) :
    w.AnswersAlike ∧
      (∀ a b : UInt64, (w.advance a).advance b = w.advance (saturatingSum a b)) ∧
      w.cursor.MovesClamped ∧
      ∀ mid next : Cursor α, mid.source = w.cursor.source → next.source = w.cursor.source →
        w.cursor.position ≤ mid.position → mid.position ≤ next.position →
        next.consumedSince w.cursor =
          mid.consumedSince w.cursor ++ next.consumedSince mid := by
  refine ⟨w.answersAlike, w.advance_advance, w.movesClamped_cursor, ?_⟩
  intro mid next hmid hnext hle hle'
  exact (Cursor.consumedSince_append_consumedSince hmid (hnext.trans hmid.symm) hle hle').symm

/-- Three characters. -/
def Slice.letters : Slice Char := ⟨['a', 'b', 'c'], by decide⟩

/-- From the second of three characters on, five elements and the greatest count lead to the end of
input, and the span to a cursor built by hand at the last word but one is that to the third
character with that from there on. -/
theorem letters_move_and_span :
    ((WordCursor.valid Slice.letters 1).advance 5).advance 18446744073709551615 =
        .endOfInput Slice.letters ∧
      (Cursor.valid ['a', 'b', 'c'] 1).position ≤ (Cursor.valid ['a', 'b', 'c'] 2).position ∧
      (Cursor.valid ['a', 'b', 'c'] 2).position ≤
        (Cursor.valid ['a', 'b', 'c'] 18446744073709551614).position ∧
      (Cursor.valid ['a', 'b', 'c'] 18446744073709551614).consumedSince
        (.valid ['a', 'b', 'c'] 1) = ['b'] ++ ['c'] := by
  obtain ⟨-, hmoves, -, hspans⟩ :=
    movement_clamps_and_spans_add (WordCursor.valid Slice.letters 1)
  have hmid : (Cursor.valid ['a', 'b', 'c'] 1).position ≤
      (Cursor.valid ['a', 'b', 'c'] 2).position := by decide
  have hnext : (Cursor.valid ['a', 'b', 'c'] 2).position ≤
      (Cursor.valid ['a', 'b', 'c'] 18446744073709551614).position := by decide
  exact ⟨hmoves 5 18446744073709551615, hmid, hnext,
    hspans (.valid ['a', 'b', 'c'] 2) (.valid ['a', 'b', 'c'] 18446744073709551614) rfl rfl hmid
      hnext⟩

end Descent
