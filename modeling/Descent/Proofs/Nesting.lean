import Descent.Proofs.WholeInput
import Mathlib.Data.List.TakeWhile

/-!
# Balanced nesting

A nesting is a nesting in parentheses, one deeper, or else it is nothing, of depth zero.  The
grammar says so by a reference to itself, and it does not say how deep an input may be nested.

At each level the first of the two is tried, and if a closing parenthesis is missing, this level
gives back what it has read and is of depth zero.  But then the level around it, which needs a
closing parenthesis next, finds the opening one that was given back, and gives back what it has read
as well, and so on up to the first level.  So either all parentheses that open at the front are
closed right behind them, or none counts (`Nesting.depth_cons_open`).  Closing parentheses beyond
these are not touched.

* `nesting_exact`: the grammar yields the depth of the balanced parentheses at the front of an input
  and reads just these.
-/

namespace Descent

/-! ## Depths -/

namespace Nesting

/-- The number of opening parentheses at the front. -/
def opened (input : List Char) : Nat := (input.takeWhile (· = '(')).length

/-- As many closing parentheses are right behind those that open at the front. -/
def Closed (input : List Char) : Prop :=
  List.replicate (opened input) ')' <+: input.drop (opened input)

instance : DecidablePred Closed := fun _ => inferInstanceAs (Decidable (_ <+: _))

/-- The number of opening parentheses at the front, if all of them are closed right behind, or
zero. -/
def depth (input : List Char) : Nat := if Closed input then opened input else 0

theorem opened_cons_open (es : List Char) : opened ('(' :: es) = opened es + 1 := by
  simp [opened]

theorem opened_of_not_open {es : List Char} (h : ¬ ['('] <+: es) : opened es = 0 := by
  rcases es with _ | ⟨e, es⟩
  · rfl
  · have hne : e ≠ '(' := by
      rintro rfl
      exact h (List.prefix_append ['('] es)
    simp [opened, hne]

theorem depth_of_not_open {es : List Char} (h : ¬ ['('] <+: es) : depth es = 0 := by
  rw [depth, opened_of_not_open h, ite_self]

/-- So many copies and one more begin a list if one more is behind so many. -/
theorem replicate_succ_isPrefix_iff {a : Char} {count : Nat} {es : List Char} :
    List.replicate (count + 1) a <+: es ↔
      List.replicate count a <+: es ∧ [a] <+: es.drop count := by
  rw [List.replicate_succ']
  constructor
  · rintro ⟨rest, rfl⟩
    rw [List.append_assoc, List.drop_left' (List.length_replicate)]
    exact ⟨List.prefix_append _ _, List.prefix_append _ _⟩
  · rintro ⟨⟨behind, rfl⟩, h⟩
    rw [List.drop_left' (List.length_replicate)] at h
    obtain ⟨rest, rfl⟩ := h
    exact ⟨rest, List.append_assoc _ _ _⟩

theorem closed_cons_open_iff {es : List Char} :
    Closed ('(' :: es) ↔ Closed es ∧ [')'] <+: es.drop (2 * opened es) := by
  have hbehind : ('(' :: es).drop (opened es + 1) = es.drop (opened es) := rfl
  rw [Closed, opened_cons_open, hbehind, replicate_succ_isPrefix_iff, List.drop_drop,
    ← Nat.two_mul, ← Closed]

/-- Where what opens is not closed, something opens. -/
theorem open_of_not_closed {es : List Char} (h : ¬ Closed es) : ['('] <+: es := by
  by_contra hnot
  rw [Closed, opened_of_not_open hnot] at h
  exact h List.nil_prefix

/-- **One pair of parentheses more.**  It counts if a closing one is right behind the balanced ones
inside.  If those inside are not balanced, there is an opening one instead. -/
theorem depth_cons_open (es : List Char) :
    depth ('(' :: es) = if [')'] <+: es.drop (2 * depth es) then depth es + 1 else 0 := by
  by_cases hes : Closed es
  · have hdepth : depth es = opened es := if_pos hes
    rw [hdepth, depth, opened_cons_open]
    exact if_congr (closed_cons_open_iff.trans (and_iff_right hes)) rfl rfl
  · have hdepth : depth es = 0 := if_neg hes
    have hnot : ¬ Closed ('(' :: es) := fun h => hes (closed_cons_open_iff.mp h).1
    obtain ⟨rest, rfl⟩ := open_of_not_closed hes
    rw [hdepth, depth, if_neg hnot]
    simp

theorem take_opened (input : List Char) :
    input.take (opened input) = List.replicate (opened input) '(' := by
  have hrun : input.takeWhile (· = '(') <+: input := List.takeWhile_prefix _
  have hopen : ∀ c ∈ input.takeWhile (· = '('), c = '(' := by
    intro c hc
    simpa using List.mem_takeWhile_imp hc
  rw [opened, ← List.prefix_iff_eq_take.mp hrun]
  exact List.eq_replicate_of_mem hopen

/-- A depth is that of parentheses which are there, opening ones and then closing ones. -/
theorem balanced_isPrefix (input : List Char) :
    List.replicate (depth input) '(' ++ List.replicate (depth input) ')' <+: input := by
  by_cases h : Closed input
  · have hdepth : depth input = opened input := if_pos h
    obtain ⟨rest, hrest⟩ := h
    rw [hdepth, ← take_opened]
    exact ⟨rest, by rw [List.append_assoc, hrest, List.take_append_drop]⟩
  · have hdepth : depth input = 0 := if_neg h
    rw [hdepth]
    exact List.nil_prefix

end Nesting

/-! ## The grammar -/

/-- One deeper than a depth; other outputs stay as they are. -/
def Tree.deepened {α κ : Type} : Tree α κ → Tree α κ
  | .int depth => .int (depth + 1)
  | t => t

/-- A nesting in parentheses. -/
def Grammar.parenthesized : Grammar Char Unit Unit :=
  .convert (.delimited (.tag "OPEN" ['(']) (.defer "NESTING" ()) (.tag "CLOSE" [')']))
    fun t => .ok t.deepened

/-- A nesting in parentheses, or nothing. -/
def Rules.nesting : Rules Char Unit Unit :=
  fun _ => .choice [.parenthesized, .tagAs "EMPTY" [] (.int 0)]

/-! ## What the grammar reads -/

namespace Rules

open Nesting

variable {levels : Nat} {v : Verbosity} {c next mid : Cursor Char} {t : Tree Char Unit}

theorem accepts_literal_iff {rules : Rules Char Unit Unit} {name : String} {literal : List Char} :
    ((rules.parser levels (.tag name literal)).run v).Accepts c t next ↔
      literal <+: c.remaining ∧ t = .span literal ∧ next = c.advance literal.length := by
  rw [parser_tag, Parser.accepts_map]
  simp only [Parser.accepts_tag]
  constructor
  · rintro ⟨_, ⟨hstarts, rfl, rfl⟩, rfl⟩
    exact ⟨hstarts, rfl, rfl⟩
  · rintro ⟨hstarts, rfl, rfl⟩
    exact ⟨literal, ⟨hstarts, rfl, rfl⟩, rfl⟩

theorem rejects_literal {rules : Rules Char Unit Unit} {name : String} {literal : List Char}
    (h : ¬ literal <+: c.remaining) :
    ((rules.parser levels (.tag name literal)).run v).Rejects c (.mismatch v name c) := by
  rw [parser_tag]
  exact Parser.rejects_map.mpr (Parser.rejects_tag.mpr ⟨h, rfl⟩)

/-- The rule reads a nesting in parentheses, or where there is none it reads nothing. -/
theorem accepts_nesting_iff :
    ((nesting.parser levels (nesting ())).run v).Accepts c t next ↔
      ((nesting.parser levels .parenthesized).run .terse).Accepts c t next ∨
        (∃ e, ((nesting.parser levels .parenthesized).run .terse).Rejects c e) ∧
          t = .int 0 ∧ next = c.advance 0 := by
  have hempty : ((nesting.parser levels (.tagAs "EMPTY" [] (.int 0))).run .terse).Accepts c t next ↔
      t = .int 0 ∧ next = c.advance 0 := by
    rw [Grammar.tagAs, parser_replace, Parser.accepts_map]
    simp only [accepts_literal_iff, List.nil_prefix, true_and]
    constructor
    · rintro ⟨_, ⟨rfl, rfl⟩, rfl⟩
      exact ⟨rfl, rfl⟩
    · rintro ⟨rfl, rfl⟩
      exact ⟨.span [], ⟨rfl, rfl⟩, rfl⟩
  have halternatives : nesting.parser levels (nesting ()) =
      Parser.choice [nesting.parser levels .parenthesized,
        nesting.parser levels (.tagAs "EMPTY" [] (.int 0))] := parser_choice nesting levels _
  rw [halternatives, Parser.accepts_choice_cons, Parser.accepts_choice_singleton, hempty]

theorem accepts_opening (h : ['('] <+: c.remaining) :
    ((nesting.parser levels (.tag "OPEN" ['('])).run v).Accepts c (.span ['(']) (c.advance 1) :=
  accepts_literal_iff.mpr ⟨h, rfl, rfl⟩

/-- Where no parenthesis opens there is no nesting in parentheses. -/
theorem rejects_parenthesized_of_not_open (h : ¬ ['('] <+: c.remaining) :
    ∃ e, ((nesting.parser levels .parenthesized).run v).Rejects c e := by
  have hopen : ((nesting.parser levels (.tag "OPEN" ['('])).run v).Rejects c
      (.mismatch v "OPEN" c) := rejects_literal h
  rw [Grammar.parenthesized, parser_convert, parser_delimited]
  exact ⟨_, Parser.rejects_convert.mpr (Or.inl (Parser.rejects_delimited.mpr (Or.inl hopen)))⟩

section Inside

variable {count : Nat} (hopen : ['('] <+: c.remaining)
  (hinside : ((nesting.parser levels (nesting ())).run v).Accepts (c.advance 1) (.int count) mid)

include hopen hinside

/-- A nesting that is closed is one deeper than the one inside. -/
theorem accepts_parenthesized (hclose : [')'] <+: mid.remaining) :
    ((nesting.parser (levels + 1) .parenthesized).run v).Accepts c (.int (count + 1))
      (mid.advance 1) := by
  have hlast : ((nesting.parser (levels + 1) (.tag "CLOSE" [')'])).run v).Accepts mid (.span [')'])
      (mid.advance 1) := accepts_literal_iff.mpr ⟨hclose, rfl, rfl⟩
  rw [Grammar.parenthesized, parser_convert, parser_delimited, parser_defer_succ]
  refine Parser.accepts_convert.mpr ⟨.int count, ?_, rfl⟩
  exact Parser.accepts_delimited.mpr ⟨_, _, _, _, accepts_opening hopen, hinside, hlast⟩

/-- A nesting that is not closed is none. -/
theorem rejects_parenthesized (hclose : ¬ [')'] <+: mid.remaining) :
    ∃ e, ((nesting.parser (levels + 1) .parenthesized).run v).Rejects c e := by
  have hlast : ((nesting.parser (levels + 1) (.tag "CLOSE" [')'])).run v).Rejects mid
      (.mismatch v "CLOSE" mid) := rejects_literal hclose
  rw [Grammar.parenthesized, parser_convert, parser_delimited, parser_defer_succ]
  refine ⟨.mismatch v "CLOSE" mid, ?_⟩
  refine Parser.rejects_convert.mpr (Or.inl (Parser.rejects_delimited.mpr ?_))
  exact Or.inr ⟨_, _, accepts_opening hopen, Or.inr ⟨_, _, hinside, hlast⟩⟩

end Inside

/-- Where no parenthesis opens the rule reads nothing. -/
theorem accepts_nesting_of_not_open (h : ¬ ['('] <+: c.remaining) :
    ((nesting.parser levels (nesting ())).run v).Accepts c (.int (depth c.remaining))
      (c.advance (2 * depth c.remaining)) := by
  rw [depth_of_not_open h]
  exact accepts_nesting_iff.mpr (Or.inr ⟨rejects_parenthesized_of_not_open h, rfl, rfl⟩)

/-- Where one opens, the rule reads what is balanced if it does so behind this one. -/
theorem accepts_nesting_of_open {es : List Char} (hes : c.remaining = '(' :: es)
    (hinside : ((nesting.parser levels (nesting ())).run .terse).Accepts (c.advance 1)
      (.int (depth es)) ((c.advance 1).advance (2 * depth es))) :
    ((nesting.parser (levels + 1) (nesting ())).run v).Accepts c (.int (depth ('(' :: es)))
      (c.advance (2 * depth ('(' :: es))) := by
  have hopen : ['('] <+: c.remaining := ⟨es, hes.symm⟩
  have hbehind : ((c.advance 1).advance (2 * depth es)).remaining = es.drop (2 * depth es) := by
    rw [Cursor.remaining_advance, ← Cursor.next, Cursor.remaining_next hes]
  rw [accepts_nesting_iff, depth_cons_open]
  split
  next hclose =>
    rw [← hbehind] at hclose
    have hcount : 1 + (2 * depth es + 1) = 2 * (depth es + 1) := by omega
    have hall := accepts_parenthesized hopen hinside hclose
    rw [Cursor.advance_advance, Cursor.advance_advance, hcount] at hall
    exact Or.inl hall
  next hclose =>
    rw [← hbehind] at hclose
    exact Or.inr ⟨rejects_parenthesized hopen hinside hclose, rfl, rfl⟩

/-- **The rule reads what is balanced.**  References nest no deeper than there are parentheses that
open at the front. -/
theorem accepts_nesting (h : opened c.remaining ≤ levels) :
    ((nesting.parser levels (nesting ())).run v).Accepts c (.int (depth c.remaining))
      (c.advance (2 * depth c.remaining)) := by
  induction levels generalizing c v with
  | zero =>
    refine accepts_nesting_of_not_open ?_
    rintro ⟨es, hes⟩
    rw [← hes, List.singleton_append, opened_cons_open] at h
    exact absurd h (Nat.not_succ_le_zero _)
  | succ levels ih =>
    by_cases hopen : ['('] <+: c.remaining
    · obtain ⟨es, hes⟩ := hopen
      have hinside : (c.advance 1).remaining = es := Cursor.remaining_next hes.symm
      rw [← hes, List.singleton_append, opened_cons_open] at h
      have hrule := @ih .terse (c.advance 1) (hinside ▸ Nat.le_of_succ_le_succ h)
      rw [hinside] at hrule
      rw [← hes]
      exact accepts_nesting_of_open hes.symm hrule
    · exact accepts_nesting_of_not_open hopen

/-- **The grammar recognises exactly balanced nesting.**  At both verbosities and at every cursor it
comes to one result, which is a success.  If as many closing parentheses are right behind those that
open at the front of what remains, it yields their number and reads the ones and the others;
otherwise it yields zero and reads nothing.  So from the start of an input it leaves all but the
balanced parentheses at the front, and these are as many opening and then as many closing ones as
the depth says. -/
theorem nesting_exact (v : Verbosity) :
    (∀ (c : Cursor Char) r, nesting.Yields (nesting ()) v c r ↔
        r = .ok (.int (depth c.remaining), c.advance (2 * depth c.remaining))) ∧
      ∀ input : List Char,
        (∀ r, nesting.Slices (nesting ()) v input r ↔
            r = .ok (.int (depth input), input.drop (2 * depth input))) ∧
          List.replicate (depth input) '(' ++ List.replicate (depth input) ')' <+: input := by
  have hyields : ∀ (c : Cursor Char) r, nesting.Yields (nesting ()) v c r ↔
      r = .ok (.int (depth c.remaining), c.advance (2 * depth c.remaining)) := by
    intro c r
    have hrule : nesting.Yields (nesting ()) v c _ := ⟨_, accepts_nesting (Nat.le_refl _)⟩
    constructor
    · exact fun h => h.unique hrule
    · rintro rfl
      exact hrule
  refine ⟨hyields, fun input => ⟨fun r => ?_, balanced_isPrefix input⟩⟩
  rcases r with e | ⟨t, rest⟩
  · rw [slices_error, hyields]
    simp
  · rw [slices_ok]
    simp only [hyields, Except.ok.injEq, Prod.mk.injEq, Cursor.remaining_new]
    constructor
    · rintro ⟨next, ⟨rfl, rfl⟩, rfl⟩
      rw [Cursor.remaining_advance, Cursor.remaining_new]
      exact ⟨rfl, rfl⟩
    · rintro ⟨rfl, rfl⟩
      refine ⟨_, ⟨rfl, rfl⟩, ?_⟩
      rw [Cursor.remaining_advance, Cursor.remaining_new]

/-- Three that are closed, two of which one is closed, and one that is closed twice. -/
example : depth ['(', '(', '(', ')', ')', ')', 'x'] = 3 ∧ depth ['(', '(', ')', 'x'] = 0 ∧
    depth ['(', ')', ')'] = 1 := by
  decide

end Rules

end Descent
