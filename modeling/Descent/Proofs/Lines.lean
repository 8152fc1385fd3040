import Descent.Location
import Mathlib.Algebra.GroupWithZero.Nat
import Mathlib.Data.List.Induction
import Mathlib.Data.Prod.Lex
import Mathlib.Order.Monotone.Basic

/-!
# Lines and places

Two things are said of the lines of an input, and neither definition knows of the other.  The line
and the offset of a place come from a walk over the elements before it.  The lines themselves come
from splitting the whole input at the elements that end lines, wherever the place is.

They meet in what has been read of the input when the walk arrives: whole lines, and the beginning
of the next one (`LinesRead`).  One more element changes these as it changes line and offset
(`LinesRead.place_after`), and it does not change what the lines of the whole input are
(`LinesRead.followed_cons`).  So the lines of the input are those read before the place, then one
that the place cuts in two, then others (`Location.exists_splitLines_source`), and the line and the
offset of the place count the first and measure the part before the cut (`Location.readable_eq`).

* `located_by_lines`: the line counts the elements that end lines, line and offset add up to the
  position, the offset stays within its line, and both together increase with the position.
-/

namespace Descent

variable {α : Type} [Element α]

/-! ## Splitting an input -/

theorem splitLines_cons_newline {e : α} (h : Element.isNewline e = true) (es : List α) :
    splitLines (e :: es) = [] :: splitLines es := by
  rw [splitLines, if_pos h]

theorem splitLines_cons_other {e : α} (h : Element.isNewline e = false) (es : List α) :
    splitLines (e :: es) = (splitLines es).modifyHead (e :: ·) := by
  rw [splitLines, if_neg (Bool.eq_false_iff.mp h)]

/-- The lines are the pieces between the elements that end lines. -/
theorem splitLines_eq_splitOnP (es : List α) : splitLines es = es.splitOnP Element.isNewline := by
  induction es with
  | nil => rfl
  | cons e es ih => rw [splitLines, List.splitOnP_cons_eq_if_modifyHead, ih]

/-- The first line goes up to the first element that ends a line. -/
theorem exists_splitLines_eq_cons (es : List α) :
    ∃ below, splitLines es = es.takeWhile (fun e => !Element.isNewline e) :: below := by
  induction es with
  | nil => exact ⟨[], rfl⟩
  | cons e es ih =>
    cases h : Element.isNewline e with
    | true =>
      have hnone : (e :: es).takeWhile (fun e => !Element.isNewline e) = [] :=
        List.takeWhile_cons_of_neg (by simp [h])
      exact ⟨splitLines es, by rw [splitLines_cons_newline h, hnone]⟩
    | false =>
      obtain ⟨below, hbelow⟩ := ih
      have hmore : (e :: es).takeWhile (fun e => !Element.isNewline e) =
          e :: es.takeWhile (fun e => !Element.isNewline e) :=
        List.takeWhile_cons_of_pos (by simp [h])
      exact ⟨below, by rw [splitLines_cons_other h, hbelow, hmore, List.modifyHead_cons]⟩

/-! ## Reading an input -/

/-- What has been read of an input: whole lines, and the beginning of the next one. -/
structure LinesRead (α : Type) where
  above : List (List α)
  before : List α

namespace LinesRead

/-- Nothing has been read, so the first line has just begun. -/
def start : LinesRead α := ⟨[], []⟩

/-- What has been read after one more element. -/
def after (read : LinesRead α) (e : α) : LinesRead α :=
  if Element.isNewline e then ⟨read.above ++ [read.before], []⟩
  else ⟨read.above, read.before ++ [e]⟩

/-- What has been read after these elements. -/
def of (es : List α) : LinesRead α := es.foldl after start

/-- Line and offset of the place behind what has been read. -/
def place (read : LinesRead α) : LinePosition := ⟨read.above.length + 1, read.before.length⟩

/-- The number of elements in some whole lines, counting those that end them. -/
def size (lines : List (List α)) : Nat := (lines.map fun line => line.length + 1).sum

/-- The lines of the input if these elements follow. -/
def followed (read : LinesRead α) (rest : List α) : List (List α) :=
  read.above ++ (splitLines rest).modifyHead (read.before ++ ·)

variable {read : LinesRead α} {e : α}

theorem after_newline (h : Element.isNewline e = true) :
    read.after e = ⟨read.above ++ [read.before], []⟩ := by
  rw [after, if_pos h]

theorem after_other (h : Element.isNewline e = false) :
    read.after e = ⟨read.above, read.before ++ [e]⟩ := by
  rw [after, if_neg (Bool.eq_false_iff.mp h)]

omit [Element α] in
theorem size_concat (lines : List (List α)) (line : List α) :
    size (lines ++ [line]) = size lines + (line.length + 1) := by
  simp [size]

omit [Element α] in
theorem length_le_size (lines : List (List α)) : lines.length ≤ size lines := by
  induction lines with
  | nil => exact Nat.le_refl 0
  | cons line lines ih =>
    rw [size, List.map_cons, List.sum_cons, ← size, List.length_cons]
    omega

/-! ### One more element -/

/-- An element moves what has been read as it moves line and offset. -/
theorem place_after (read : LinesRead α) (e : α) : (read.after e).place = read.place.after e := by
  cases h : Element.isNewline e with
  | true =>
    rw [after_newline h, place, place, LinePosition.after, if_pos h, List.length_append,
      List.length_singleton, List.length_nil]
  | false =>
    rw [after_other h, place, place, LinePosition.after, if_neg (Bool.eq_false_iff.mp h),
      List.length_append, List.length_singleton]

theorem length_above_after (read : LinesRead α) (e : α) :
    (read.after e).above.length = read.above.length + if Element.isNewline e then 1 else 0 := by
  cases h : Element.isNewline e with
  | true => rw [after_newline h, List.length_append, List.length_singleton, if_pos rfl]
  | false => rw [after_other h, if_neg Bool.false_ne_true, Nat.add_zero]

theorem size_after (read : LinesRead α) (e : α) :
    size (read.after e).above + (read.after e).before.length =
      size read.above + read.before.length + 1 := by
  cases h : Element.isNewline e with
  | true => rw [after_newline h, size_concat, List.length_nil, Nat.add_zero, Nat.add_assoc]
  | false => rw [after_other h, List.length_append, List.length_singleton, Nat.add_assoc]

/-- Which of two neighbours has been read does not matter to the lines of the whole. -/
theorem followed_cons (read : LinesRead α) (e : α) (es : List α) :
    read.followed (e :: es) = (read.after e).followed es := by
  obtain ⟨below, hbelow⟩ := exists_splitLines_eq_cons es
  cases h : Element.isNewline e with
  | true =>
    rw [after_newline h, followed, followed, splitLines_cons_newline h, hbelow,
      List.modifyHead_cons, List.modifyHead_cons, List.append_nil, List.nil_append,
      List.append_assoc, List.singleton_append]
  | false =>
    rw [after_other h, followed, followed, splitLines_cons_other h, hbelow, List.modifyHead_cons,
      List.modifyHead_cons, List.modifyHead_cons, List.append_assoc, List.singleton_append]

/-! ### Any number of elements -/

theorem of_append (es rest : List α) : of (es ++ rest) = rest.foldl after (of es) :=
  List.foldl_append

theorem of_concat (es : List α) (e : α) : of (es ++ [e]) = (of es).after e := of_append es [e]

/-- The walk that finds line and offset passes the same places. -/
theorem place_of (es : List α) : (of es).place = es.foldl LinePosition.after .start :=
  (List.foldl_hom place fun read e => (place_after read e).symm).symm

theorem length_above_of (es : List α) : (of es).above.length = es.countP Element.isNewline := by
  induction es using List.reverseRecOn with
  | nil => rfl
  | append_singleton es e ih =>
    rw [of_concat, length_above_after, ih, List.countP_append, List.countP_singleton]

theorem size_of (es : List α) : size (of es).above + (of es).before.length = es.length := by
  induction es using List.reverseRecOn with
  | nil => rfl
  | append_singleton es e ih =>
    rw [of_concat, size_after, ih, List.length_append, List.length_singleton]

/-- The lines of an input are the same wherever it is cut. -/
theorem splitLines_append (es rest : List α) : splitLines (es ++ rest) = (of es).followed rest := by
  induction es using List.reverseRecOn generalizing rest with
  | nil =>
    obtain ⟨below, hbelow⟩ := exists_splitLines_eq_cons rest
    show splitLines rest = [] ++ (splitLines rest).modifyHead ([] ++ ·)
    rw [hbelow, List.modifyHead_cons, List.nil_append, List.nil_append]
  | append_singleton es e ih =>
    rw [List.append_assoc, List.singleton_append, ih, of_concat, followed_cons]

theorem splitLines_eq (es : List α) : splitLines es = (of es).above ++ [(of es).before] := by
  have hwhole := splitLines_append es []
  rwa [List.append_nil, followed, splitLines, List.modifyHead_cons, List.append_nil] at hwhole

end LinesRead

/-! ## Places -/

namespace LinePosition

/-- Places in the order of lines, and within a line in the order of offsets. -/
def lex (place : LinePosition) : ℕ ×ₗ ℕ := toLex (place.line, place.offset)

theorem lex_lt_iff {place place' : LinePosition} :
    place.lex < place'.lex ↔
      place.line < place'.line ∨ place.line = place'.line ∧ place.offset < place'.offset :=
  Prod.Lex.toLex_lt_toLex

theorem lex_lt_after (place : LinePosition) (e : α) : place.lex < (place.after e).lex := by
  rw [lex_lt_iff, after]
  split
  · exact Or.inl (Nat.lt_succ_self _)
  · exact Or.inr ⟨rfl, Nat.lt_succ_self _⟩

end LinePosition

namespace Location

/-- What has been read of the input before the location. -/
def lead (loc : Location α) : LinesRead α := .of (loc.source.take loc.position)

theorem readable_eq (loc : Location α) :
    loc.readable = ⟨loc.lead.above.length + 1,
      loc.lead.before.length + (loc.position - loc.source.length)⟩ := by
  rw [readable, ← LinesRead.place_of]
  rfl

theorem readable_of_le {loc : Location α} (h : loc.position ≤ loc.source.length) :
    loc.readable = loc.lead.place := by
  rw [readable_eq, Nat.sub_eq_zero_of_le h]
  rfl

/-- The location cuts one line of the input in two. -/
theorem exists_splitLines_source (loc : Location α) :
    ∃ below, splitLines loc.source = loc.lead.above ++
      (loc.lead.before ++ loc.rest.takeWhile fun e => !Element.isNewline e) :: below := by
  obtain ⟨below, hbelow⟩ := exists_splitLines_eq_cons loc.rest
  refine ⟨below, ?_⟩
  have hlines := LinesRead.splitLines_append (loc.source.take loc.position) loc.rest
  rwa [rest, List.take_append_drop, ← rest, LinesRead.followed, hbelow,
    List.modifyHead_cons] at hlines

/-- The lines read before the location are the first ones of the input. -/
theorem take_splitLines (loc : Location α) :
    (splitLines loc.source).take (loc.readable.line - 1) = loc.lead.above := by
  obtain ⟨below, hbelow⟩ := loc.exists_splitLines_source
  rw [readable_eq, Nat.add_sub_cancel, hbelow, List.take_left]

/-- The line of the location is the part before the place and the part behind it. -/
theorem getElem?_splitLines (loc : Location α) :
    (splitLines loc.source)[loc.readable.line - 1]? =
      some (loc.lead.before ++ loc.rest.takeWhile fun e => !Element.isNewline e) := by
  obtain ⟨below, hbelow⟩ := loc.exists_splitLines_source
  rw [readable_eq, Nat.add_sub_cancel, hbelow, List.getElem?_append_right (Nat.le_refl _),
    Nat.sub_self, List.getElem?_cons_zero]

theorem size_lead (loc : Location α) :
    LinesRead.size loc.lead.above + loc.lead.before.length =
      min loc.position loc.source.length := by
  rw [lead, LinesRead.size_of, List.length_take]

theorem lead_succ {source : List α} {position : Nat} (h : position < source.length) :
    (Location.mk source (position + 1)).lead =
      (Location.mk source position).lead.after source[position] := by
  rw [lead, lead, List.take_succ_eq_append_getElem h, LinesRead.of_concat]

/-- Between an element and the next, and beyond the last element as well, the place moves on. -/
theorem lex_readable_lt_succ (source : List α) (position : Nat) :
    (Location.mk source position).readable.lex <
      (Location.mk source (position + 1)).readable.lex := by
  -- in the input the walk goes one step further, and beyond it only the offset grows
  rcases Nat.lt_or_ge position source.length with h | h
  · rw [readable_of_le (Nat.le_of_lt h), readable_of_le (Nat.succ_le_of_lt h), lead_succ h,
      LinesRead.place_after]
    exact LinePosition.lex_lt_after _ _
  · have hlead : (Location.mk source (position + 1)).lead = (Location.mk source position).lead := by
      rw [lead, lead, List.take_of_length_le h, List.take_of_length_le (Nat.le_succ_of_le h)]
    rw [LinePosition.lex_lt_iff, readable_eq, readable_eq, hlead]
    exact Or.inr ⟨rfl, by dsimp only; omega⟩

end Location

/-- How line and offset tell the places of an input. -/
structure LocatedByLines (source : List α) : Prop where
  /-- The line is one more than the elements before the place that end lines. -/
  line : ∀ position, (Location.mk source position).readable.line - 1 =
    (source.take position).countP Element.isNewline
  /-- Lines are counted from one. -/
  one_le : ∀ position, 1 ≤ (Location.mk source position).readable.line
  /-- The lines before, each with the element that ends it, and the offset add up to the place. -/
  position : ∀ position,
    (((splitLines source).take ((Location.mk source position).readable.line - 1)).map
        fun line => line.length + 1).sum + (Location.mk source position).readable.offset = position
  /-- A place in the input is in the line of its number, or at the end of that line. -/
  offset : ∀ position, position ≤ source.length →
    ∃ line, (splitLines source)[(Location.mk source position).readable.line - 1]? = some line ∧
      (Location.mk source position).readable.offset ≤ line.length
  /-- Of two places, the later one is in a later line, or further on in the same line. -/
  increasing : ∀ position position', position < position' →
    (Location.mk source position).readable.lex < (Location.mk source position').readable.lex

/-- **Line and offset determine the position**, whatever the elements are and also beyond the end of
the input. -/
theorem located_by_lines (source : List α) : LocatedByLines source := by
  constructor
  case line =>
    intro position
    rw [Location.readable_eq, Nat.add_sub_cancel, Location.lead, LinesRead.length_above_of]
  case one_le =>
    intro position
    rw [Location.readable_eq]
    exact Nat.le_add_left _ _
  case position =>
    intro position
    have hsize := (Location.mk source position).size_lead
    rw [Location.take_splitLines, Location.readable_eq]
    dsimp only [LinesRead.size] at hsize ⊢
    omega
  case offset =>
    intro position h
    refine ⟨_, (Location.mk source position).getElem?_splitLines, ?_⟩
    rw [Location.readable_of_le h, List.length_append]
    exact Nat.le_add_right _ _
  case increasing =>
    intro position position' h
    exact strictMono_nat_of_lt_succ (Location.lex_readable_lt_succ source) h

end Descent
