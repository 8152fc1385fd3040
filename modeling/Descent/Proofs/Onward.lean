import Descent.Proofs.Passage

/-!
# Parsers only move forward

A cursor that a success ends on lies in the same input as the one it started from, no earlier, and
it is well formed if that one was (`Onward`).  This is a passage, so it holds of whole grammars as
soon as it holds of their functions.

Well-formed cursors are exactly those that advancing from the start of an input yields, which is
how statements about positions become statements about cursors (`Cursor.WellFormed.eq_advance`).
-/

namespace Descent

variable {α κ ρ : Type}

/-! ## Cursors -/

namespace Cursor

theorem advance_place (source : List α) (position count : Nat) :
    (place source position).advance count = place source (position + count) := by
  unfold place
  by_cases h : position < source.length
  · rw [if_pos h, advance_valid]
    rfl
  · rw [if_neg h, if_neg (by omega), advance_endOfInput]

theorem advance_new (source : List α) (count : Nat) :
    (new source).advance count = place source count := by
  rw [new, advance_place, Nat.zero_add]

theorem advance_advance (c : Cursor α) (count more : Nat) :
    (c.advance count).advance more = c.advance (count + more) := by
  cases c with
  | valid source position => rw [advance_valid, advance_place, advance_valid, Nat.add_assoc]
  | endOfInput source => rfl

theorem advance_next (c : Cursor α) (count : Nat) :
    c.next.advance count = c.advance (count + 1) := by
  rw [next, advance_advance, Nat.add_comm]

/-- Wherever one advances from, one ends on a well-formed cursor. -/
theorem wellFormed_advance (c : Cursor α) (count : Nat) : (c.advance count).WellFormed := by
  cases c with
  | valid source position =>
    rw [advance_valid]
    exact wellFormed_place source _
  | endOfInput source => exact wellFormed_endOfInput source

theorem wellFormed_next (c : Cursor α) : c.next.WellFormed :=
  wellFormed_advance c 1

/-- A well-formed cursor is the place of its position. -/
theorem WellFormed.eq_place {c : Cursor α} (h : c.WellFormed) :
    c = place c.source c.position := by
  cases c with
  | valid source position =>
    have hlt : position < source.length := (wellFormed_valid source position).mp h
    rw [source_valid, position_valid, Nat.min_eq_left (Nat.le_of_lt hlt), place, if_pos hlt]
  | endOfInput source =>
    rw [source_endOfInput, position_endOfInput, place, if_neg (Nat.lt_irrefl _)]

theorem WellFormed.eq_advance {c : Cursor α} (h : c.WellFormed) :
    c = (new c.source).advance c.position := by
  rw [advance_new]
  exact h.eq_place

theorem WellFormed.advance_zero {c : Cursor α} (h : c.WellFormed) : c.advance 0 = c := by
  rw [h.eq_place, advance_place, Nat.add_zero]

theorem wellFormed_advance_new (source : List α) (count : Nat) :
    ((new source).advance count).WellFormed :=
  wellFormed_advance (new source) count

@[simp] theorem source_new (source : List α) : (new source).source = source :=
  source_place source 0

@[simp] theorem remaining_new (source : List α) : (new source).remaining = source :=
  remaining_place source 0

/-- Advancing adds to the position, up to the length of the input. -/
theorem position_advance (c : Cursor α) (count : Nat) :
    (c.advance count).position = min (c.position + count) c.source.length := by
  cases c with
  | valid source position =>
    rw [advance_valid, position_place, position_valid, source_valid]
    omega
  | endOfInput source =>
    rw [advance_endOfInput, position_endOfInput, source_endOfInput]
    omega

theorem position_advance_le (c : Cursor α) (count : Nat) :
    c.position ≤ (c.advance count).position := by
  rw [position_advance]
  exact Nat.le_min.mpr ⟨Nat.le_add_right _ _, c.position_le⟩

/-- Advancing by some elements moves a cursor that has any left. -/
theorem position_lt_advance {c : Cursor α} {count : Nat} (hcount : 0 < count)
    (hleft : 0 < c.left) : c.position < (c.advance count).position := by
  rw [left_eq] at hleft
  rw [position_advance]
  exact Nat.lt_min.mpr ⟨Nat.lt_add_of_pos_right hcount, Nat.lt_of_sub_pos hleft⟩

/-- At a later position of the same input there is no more of it left. -/
theorem left_le_left {c next : Cursor α} (hsource : next.source = c.source)
    (hposition : c.position ≤ next.position) : next.left ≤ c.left := by
  rw [left_eq, left_eq, hsource]
  omega

theorem left_lt_left {c next : Cursor α} (hsource : next.source = c.source)
    (hposition : c.position < next.position) : next.left < c.left := by
  have hend := next.position_le
  rw [hsource] at hend
  rw [left_eq, left_eq, hsource]
  omega

end Cursor

/-! ## Forward in one input -/

/-- The second cursor is no earlier a place of the same input, and as well formed as the first. -/
structure Onward (c next : Cursor α) : Prop where
  source_eq : next.source = c.source
  position_le : c.position ≤ next.position
  wellFormed : c.WellFormed → next.WellFormed

namespace Onward

variable {c next : Cursor α}

theorem left_le (h : Onward c next) : next.left ≤ c.left :=
  Cursor.left_le_left h.source_eq h.position_le

/-- A success that ends elsewhere than it began has used up input. -/
theorem left_lt (h : Onward c next) (hne : next.position ≠ c.position) : next.left < c.left :=
  Cursor.left_lt_left h.source_eq (Nat.lt_of_le_of_ne h.position_le hne.symm)

/-- A passage by way of a third cursor that ends where it began stays put in both halves. -/
theorem still_of_between {mid : Cursor α} (h : Onward c mid) (h' : Onward mid next)
    (hstill : next.position = c.position) :
    mid.position = c.position ∧ next.position = mid.position := by
  have hfirst := h.position_le
  have hsecond := h'.position_le
  constructor
  · omega
  · omega

end Onward

theorem isPassage_onward : IsPassage (α := α) Onward where
  refl _ := ⟨rfl, Nat.le_refl _, id⟩
  trans h h' := ⟨h'.source_eq.trans h.source_eq, Nat.le_trans h.position_le h'.position_le,
    h'.wellFormed ∘ h.wellFormed⟩
  advance c count := ⟨Cursor.source_advance c count, Cursor.position_advance_le c count,
    fun _ => Cursor.wellFormed_advance c count⟩

end Descent
