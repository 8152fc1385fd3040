import Descent.Proofs.Onward

/-!
# What a success reads

Between the start and the end of a success lies a span of the input, and what remained at the start
is that span with what remains at the end behind it.  So nothing is read twice, nothing is skipped
and nothing is given back (`Consumes`).  All of it follows from the places of the two cursors: a
success consumes if and only if it leads onward (`consumes_iff_onward`), and leading onward is a
passage, so that it holds of whole grammars as soon as it holds of their functions.

* `Rules.success_consumes`: every success of a grammar consumes, and from a well-formed cursor it
  ends on one, whose form tells whether any input is left.
-/

namespace Descent

variable {α κ ρ : Type}

/-! ## Spans -/

namespace Cursor

variable {c mid next : Cursor α}

theorem remaining_advance (c : Cursor α) (count : Nat) :
    (c.advance count).remaining = c.remaining.drop count := by
  cases c with
  | valid source position =>
    rw [advance_valid, remaining_place, remaining_valid, List.drop_drop]
  | endOfInput source => rw [advance_endOfInput, remaining_endOfInput, List.drop_nil]

theorem value_of_remaining {e : α} {es : List α} (h : c.remaining = e :: es) :
    c.value = some e := by
  rw [value, h, List.head?_cons]

theorem remaining_next {e : α} {es : List α} (h : c.remaining = e :: es) :
    c.next.remaining = es := by
  rw [next, remaining_advance, h, List.drop_one, List.tail_cons]

/-- A span and what remains behind it are what remained before it. -/
theorem consumedSince_append_remaining (hsource : next.source = c.source)
    (hle : c.position ≤ next.position) :
    next.consumedSince c ++ next.remaining = c.remaining := by
  have hbehind : next.remaining =
      (c.source.drop c.position).drop (next.position - c.position) := by
    rw [remaining_eq_drop, hsource, List.drop_drop, Nat.add_sub_cancel' hle]
  rw [hbehind, consumedSince, hsource, remaining_eq_drop, List.take_append_drop]

/-- Advancing by some elements consumes these, as far as there are any. -/
theorem consumedSince_advance (c : Cursor α) (count : Nat) :
    (c.advance count).consumedSince c = c.remaining.take count := by
  have hspan := consumedSince_append_remaining (source_advance c count)
    (position_advance_le c count)
  rw [remaining_advance] at hspan
  exact List.append_cancel_right (hspan.trans (List.take_append_drop count c.remaining).symm)

/-- Two spans, one behind the other, are one span. -/
theorem consumedSince_append_consumedSince (hsource : mid.source = c.source)
    (hsource' : next.source = mid.source) (hle : c.position ≤ mid.position)
    (hle' : mid.position ≤ next.position) :
    mid.consumedSince c ++ next.consumedSince mid = next.consumedSince c := by
  have hfirst := consumedSince_append_remaining hsource hle
  have hsecond := consumedSince_append_remaining hsource' hle'
  have hboth := consumedSince_append_remaining (hsource'.trans hsource) (Nat.le_trans hle hle')
  have hsame : (mid.consumedSince c ++ next.consumedSince mid) ++ next.remaining =
      next.consumedSince c ++ next.remaining := by
    rw [List.append_assoc, hsecond, hfirst, hboth]
  exact List.append_cancel_right hsame

@[simp] theorem consumedSince_self (c : Cursor α) : c.consumedSince c = [] := by
  rw [consumedSince, Nat.sub_self, List.take_zero]

theorem isEnd_of_position_eq (h : c.WellFormed) (hposition : c.position = c.source.length) :
    c.isEnd = true := by
  by_contra hend
  exact absurd hposition (Nat.ne_of_lt (h (Bool.eq_false_iff.mpr hend)))

/-- A well-formed cursor says by its form whether it is at the end. -/
theorem WellFormed.isEnd_iff_position (h : c.WellFormed) :
    c.isEnd = true ↔ c.position = c.source.length := by
  refine ⟨?_, isEnd_of_position_eq h⟩
  cases c with
  | valid source position => exact fun hend => absurd hend (by simp)
  | endOfInput source => exact fun _ => rfl

theorem WellFormed.isEnd_iff_remaining (h : c.WellFormed) :
    c.isEnd = true ↔ c.remaining = [] := by
  rw [h.isEnd_iff_position, remaining_eq_drop, List.drop_eq_nil_iff]
  exact ⟨fun hposition => Nat.le_of_eq hposition.symm, fun hle => Nat.le_antisymm c.position_le hle⟩

end Cursor

/-! ## The law of consumption -/

/-- The second cursor is behind a span of the input that begins at the first. -/
structure Consumes (c next : Cursor α) : Prop where
  source_eq : next.source = c.source
  position_le : c.position ≤ next.position
  position_le_length : next.position ≤ c.source.length
  consumed_append_remaining : next.consumedSince c ++ next.remaining = c.remaining
  wellFormed : c.WellFormed → next.WellFormed

/-- Consuming is leading onward. -/
theorem consumes_iff_onward {c next : Cursor α} : Consumes c next ↔ Onward c next := by
  constructor
  · intro h
    exact ⟨h.source_eq, h.position_le, h.wellFormed⟩
  · intro h
    have hlength : next.position ≤ c.source.length := by
      rw [← h.source_eq]
      exact next.position_le
    have hspan := Cursor.consumedSince_append_remaining h.source_eq h.position_le
    exact ⟨h.source_eq, h.position_le, hlength, hspan, h.wellFormed⟩

theorem isPassage_consumes : IsPassage (α := α) Consumes := by
  have h : (Consumes : Cursor α → Cursor α → Prop) = Onward := by
    funext c next
    exact propext consumes_iff_onward
  rw [h]
  exact isPassage_onward

variable [DecidableEq α]

/-- **Every success consumes.**  If the functions in a grammar keep the law of consumption, then so
does the grammar, at both verbosities and from every cursor: a success ends in the same input, no
earlier than it started and within the input, and what it consumed with what remains behind it is
what remained at the start.  From a well-formed cursor it ends on a well-formed one, which is of
the form that marks the end of input exactly if it is there and exactly if nothing remains. -/
theorem Rules.success_consumes (rules : Rules α κ ρ) (g : Grammar α κ ρ)
    (hfunc : ∀ run, rules.Contains g (.func run) → ∀ v, Step.Keeps Consumes (run v))
    (v : Verbosity) (c next : Cursor α) (x : Tree α κ)
    (h : rules.Yields g v c (.ok (x, next))) :
    Consumes c next ∧
      (c.WellFormed →
        (next.isEnd = true ↔ next.position = c.source.length) ∧
          (next.isEnd = true ↔ next.remaining = [])) := by
  obtain ⟨levels, h⟩ := h
  have hconsumes : Consumes c next :=
    rules.keeps isPassage_consumes levels g hfunc v c x next h
  refine ⟨hconsumes, fun hc => ?_⟩
  have hnext := hconsumes.wellFormed hc
  refine ⟨?_, hnext.isEnd_iff_remaining⟩
  rw [hnext.isEnd_iff_position, hconsumes.source_eq]

/-- Blocks of two elements, the last of which may be short; each is skipped by a function. -/
def Rules.blocks : Rules Char Unit Unit := fun _ =>
  .repeated ⟨1, none⟩ (.func fun _ c => pure (.unit, c.advance 2))

/-- From the second of six elements on there are three blocks, of which the last is short. -/
theorem Rules.blocks_consume :
    (∀ run, blocks.Contains (.defer "BLOCKS" ()) (.func run) →
        ∀ v, Step.Keeps Consumes (run v)) ∧
      blocks.Yields (.defer "BLOCKS" ()) .terse
        ((Cursor.new ['a', 'b', 'c', 'd', 'e', 'f']).advance 1)
        (.ok (.list [.unit, .unit, .unit], .endOfInput ['a', 'b', 'c', 'd', 'e', 'f'])) ∧
      Consumes ((Cursor.new ['a', 'b', 'c', 'd', 'e', 'f']).advance 1)
        (.endOfInput ['a', 'b', 'c', 'd', 'e', 'f']) := by
  have hfunc : ∀ run, blocks.Contains (.defer "BLOCKS" ()) (.func run) →
      ∀ v, Step.Keeps Consumes (run v) := by
    intro run h v c x next hx
    have hrun : run = fun _ c => pure (.unit, c.advance 2) := by
      cases h with
      | part hq => exact absurd hq List.not_mem_nil
      | rule h =>
        unfold blocks at h
        cases h with
        | part hq h =>
          obtain rfl := List.mem_singleton.mp hq
          cases h with
          | self => rfl
          | part hq => exact absurd hq List.not_mem_nil
    rw [hrun] at hx
    obtain ⟨-, rfl⟩ := Prod.mk.inj (Run.result?_pure_eq_ok.mp hx)
    exact isPassage_consumes.advance c 2
  have hyields : blocks.Yields (.defer "BLOCKS" ()) .terse
      ((Cursor.new ['a', 'b', 'c', 'd', 'e', 'f']).advance 1)
      (.ok (.list [.unit, .unit, .unit], .endOfInput ['a', 'b', 'c', 'd', 'e', 'f'])) := ⟨1, rfl⟩
  exact ⟨hfunc, hyields, (blocks.success_consumes _ hfunc _ _ _ _ hyields).1⟩

end Descent
