import Descent.Proofs.Converse
import Mathlib.Data.List.Infix

/-!
# Renaming the elements

Parsers ask of elements only whether two of them are equal, and whether one of them passes a test
that the grammar brings along.  So if all elements are renamed by an injective map, in the input and
in the grammar, nothing else changes: the renamed grammar does on the renamed input what the grammar
did, and its output is the renamed output.

What is renamed in a grammar are the elements in literals, in sets and in fixed outputs
(`Counterparts.renamed`).  A test becomes one that agrees with it along the map, and for a set that
is the set of the renamed elements (`inSet_map`, `notInSet_map`).  Converters are left out, because
nothing is known of what they make of elements.

* `Rules.parse_renamed`: a grammar and its renaming come to a result together, and the results are
  the same up to renaming.
-/

namespace Descent

variable {α α' κ ρ : Type}

/-! ## Renamed cursors, places and outputs -/

namespace Cursor

/-- The cursor at the same place of the renamed input. -/
def map (f : α → α') : Cursor α → Cursor α'
  | inside input position rest rest_eq =>
    inside ⟨input.elements.map f, input.size, by rw [List.length_map, input.size_eq]⟩ position
      (rest.map f) (by rw [rest_eq, List.map_drop])
  | past input => past ⟨input.elements.map f, input.size, by rw [List.length_map, input.size_eq]⟩

variable (f : α → α')

@[simp] theorem map_valid (source : List α) (position : Nat) :
    (valid source position).map f = valid (source.map f) position := by
  simp only [valid, map, Source.ofList, List.length_map, List.map_drop]

@[simp] theorem map_endOfInput (source : List α) :
    (endOfInput source).map f = endOfInput (source.map f) := by
  simp only [endOfInput, map, Source.ofList, List.length_map]

@[simp] theorem map_place (source : List α) (position : Nat) :
    (place source position).map f = place (source.map f) position := by
  unfold place
  rw [List.length_map]
  split
  · exact map_valid f source position
  · exact map_endOfInput f source

variable (c : Cursor α)

@[simp] theorem source_map : (c.map f).source = c.source.map f := by
  cases c with
  | valid source position => simp
  | endOfInput source => simp

@[simp] theorem position_map : (c.map f).position = c.position := by
  cases c with
  | valid source position => simp
  | endOfInput source => simp

@[simp] theorem remaining_map : (c.map f).remaining = c.remaining.map f := by
  cases c with
  | valid source position => simp
  | endOfInput source => simp

theorem left_map : (c.map f).left = c.left := by
  rw [← length_remaining, ← length_remaining, remaining_map, List.length_map]

theorem advance_map (count : Nat) : (c.map f).advance count = (c.advance count).map f := by
  cases c with
  | valid source position => simp
  | endOfInput source => simp

theorem value_map : (c.map f).value = c.value.map f := by
  rw [value, value, remaining_map, List.head?_map]

theorem consumedSince_map (start : Cursor α) :
    (c.map f).consumedSince (start.map f) = (c.consumedSince start).map f := by
  rw [consumedSince, consumedSince, source_map, position_map, position_map, List.map_take,
    List.map_drop]

end Cursor

/-- The same place of the renamed input. -/
def Location.map (f : α → α') (loc : Location α) : Location α' :=
  ⟨loc.source.map f, loc.position⟩

theorem Cursor.loc_map (f : α → α') (c : Cursor α) : (c.map f).loc = c.loc.map f := by
  rw [loc, loc, Location.map, source_map, position_map]

namespace Tree

mutual

/-- The output with its elements renamed; values that are no elements stay. -/
def map (f : α → α') : Tree α κ → Tree α' κ
  | absent => absent
  | unit => unit
  | elem e => elem (f e)
  | span es => span (es.map f)
  | list entries => list (mapAll f entries)
  | pair first second => pair (map f first) (map f second)
  | text value => text value
  | int value => int value
  | float value => float value
  | const value => const value

/-- A list of outputs with their elements renamed. -/
def mapAll (f : α → α') : List (Tree α κ) → List (Tree α' κ)
  | [] => []
  | t :: ts => map f t :: mapAll f ts

end

variable (f : α → α')

theorem mapAll_eq_map (ts : List (Tree α κ)) : mapAll f ts = ts.map (map f) := by
  induction ts with
  | nil => simp only [mapAll, List.map_nil]
  | cons t ts ih => simp only [mapAll, List.map_cons, ih]

@[simp] theorem map_unit : (unit : Tree α κ).map f = unit := by simp only [map]

@[simp] theorem map_elem (e : α) : (elem e : Tree α κ).map f = elem (f e) := by simp only [map]

@[simp] theorem map_span (es : List α) : (span es : Tree α κ).map f = span (es.map f) := by
  simp only [map]

@[simp] theorem map_list (ts : List (Tree α κ)) : (list ts).map f = list (ts.map (map f)) := by
  simp only [map, mapAll_eq_map]

@[simp] theorem map_pair (first second : Tree α κ) :
    (pair first second).map f = pair (first.map f) (second.map f) := by simp only [map]

/-- The entries of a renamed output are the renamed entries. -/
theorem entries_map (t : Tree α κ) : (t.map f).entries = t.entries.map (map f) := by
  cases t with
  | list ts => rw [map_list, entries_list, entries_list]
  | _ => simp only [map, entries, List.map_cons, List.map_nil]

end Tree

/-! ## Tests -/

section Tests

variable [DecidableEq α] [DecidableEq α'] {f : α → α'}

/-- Of a set, the set of the renamed elements is what agrees with it. -/
theorem inSet_map (hf : Function.Injective f) (set : List α) (e : α) :
    Parser.inSet (set.map f) (f e) = Parser.inSet set e := by
  rw [Parser.inSet, Parser.inSet, Bool.eq_iff_iff, List.contains_iff_mem, List.contains_iff_mem,
    List.mem_map_of_injective hf]

theorem notInSet_map (hf : Function.Injective f) (set : List α) (e : α) :
    Parser.notInSet (set.map f) (f e) = Parser.notInSet set e :=
  congrArg not (inSet_map hf set e)

end Tests

/-! ## Parsing the renamed input -/

/-- The comparison of a parse with one of the renamed input from the same place. -/
def alongMap (f : α → α') : Simulation α α' where
  cursor c c' := c' = c.map f
  events _ _ := True
  lossy := False
  events_nil := trivial
  events_append := fun _ _ => trivial
  still := by
    rintro c next _ _ rfl rfl
    rw [Cursor.position_map, Cursor.position_map]
  room := by
    rintro c _ rfl
    exact Or.inr (Nat.le_of_eq (c.left_map f).symm)

/-- What stands for what when elements are renamed. -/
def Counterparts.renamed (f : α → α') : Counterparts α α' κ κ where
  literal es es' := es' = es.map f
  single test test' := ∀ e, test' (f e) = test e
  munch test test' := ∀ e, test' (f e) = test e
  output t t' := t' = t.map f
  converter _ _ := False

theorem Counterparts.sound_renamed {f : α → α'} (hf : Function.Injective f) :
    (renamed f : Counterparts α α' κ κ).Sound (alongMap f) (fun loc loc' => loc' = loc.map f) where
  events _ _ := trivial
  loc := by
    rintro c _ rfl
    exact c.loc_map f
  literal := by
    rintro es _ c _ rfl rfl
    rw [Cursor.remaining_map, List.prefix_map_iff_of_injective hf, List.length_map,
      Cursor.advance_map]
    exact ⟨Iff.rfl, fun _ => ⟨(Tree.map_span f es).symm, rfl⟩⟩
  single := by
    rintro test test' c _ htest rfl
    have hcomp : test' ∘ f = test := funext htest
    rw [Cursor.value_map, Option.filter_map, hcomp]
    cases c.value.filter test with
    | none => exact Option.Rel.none
    | some e => exact Option.Rel.some ⟨(Tree.map_elem f e).symm, c.advance_map f 1⟩
  munch := by
    rintro test test' c _ htest rfl
    have hcomp : test' ∘ f = test := funext htest
    rw [Cursor.remaining_map, List.takeWhile_map, hcomp, List.map_eq_nil_iff, List.length_map]
    exact ⟨Iff.rfl, (Tree.map_span f _).symm, c.advance_map f _⟩
  span := by
    rintro c _ next _ rfl rfl
    rw [Cursor.consumedSince_map]
    exact (Tree.map_span f _).symm
  unit := (Tree.map_unit f).symm
  list := by
    intro ts ts' h
    have hsame : ts' = ts.map (Tree.map f) := by
      rw [← List.forall₂_eq_eq_eq, List.forall₂_map_right_iff]
      exact h.flip
    show Tree.list ts' = (Tree.list ts).map f
    rw [hsame, Tree.map_list]
  pair := by
    rintro first _ second _ rfl rfl
    exact (Tree.map_pair f first second).symm
  entries := by
    rintro t _ rfl
    rw [Tree.entries_map, List.forall₂_map_right_iff, List.forall₂_same]
    exact fun _ _ => rfl
  converter := False.elim

/-! ## Grammars -/

variable [DecidableEq α] [DecidableEq α']

/-- **Parsing commutes with renaming.**  Rename the elements of an input and those in a grammar
without functions and converters by an injective map, and parse from the same place at the same
verbosity.  Then both parses come to a result or neither does.  Either both succeed, and the second
output is the first one renamed, with the second cursor at the same place of the renamed input; or
both fail with an error of the same kind, under the same name and at the same place. -/
theorem Rules.parse_renamed (f : α → α') (hf : Function.Injective f) (rules : Rules α κ ρ)
    (rules' : Rules α' κ ρ) (g : Grammar α κ ρ) (g' : Grammar α' κ ρ)
    (h : Rules.Alike (Counterparts.renamed f) rules rules' g g') (v : Verbosity) (c : Cursor α) :
    ((∃ r, rules.Yields g v c r) ↔ ∃ r', rules'.Yields g' v (c.map f) r') ∧
      ∀ r r', rules.Yields g v c r → rules'.Yields g' v (c.map f) r' →
        Agree (ParseError.Alike fun loc loc' => loc' = loc.map f)
          (fun y y' => y'.1 = y.1.map f ∧ y'.2 = y.2.map f) r r' := by
  have hsound := Counterparts.sound_renamed (κ := κ) hf
  have hroom : ∀ {c : Cursor α} {c' : Cursor α'}, (alongMap f).cursor c c' → c'.left ≤ c.left := by
    rintro c _ rfl
    exact Nat.le_of_eq (c.left_map f)
  exact ⟨returns_iff_of_alike hsound h not_false hroom rfl,
    fun r r' hr hr' => agree_of_alike hsound h rfl hr hr'⟩

/-! ## An example -/

/-- A value: digits, or in parentheses a list of values, each with a sign that may be left out.  The
elements are characters, written in some way and known by their numbers. -/
def Rules.signed (write : Char → α) (number : α → Nat) : Rules α Unit Unit := fun _ =>
  .choice [.takeWhile "DIGITS" fun e => Nat.ble 48 (number e) && Nat.ble (number e) 57,
    .delimited (.tag "OPEN" [write '('])
      (.separated .any
        (.pair (.orDefault (.elem (write '+')) (.oneOf "SIGN" (['+', '-'].map write)))
          (.defer "VALUE" ()))
        (.noneOf "GAP" (['0', '1', '(', ')'].map write)))
      (.tag "CLOSE" [write ')'])]

/-- In `x(1;-0)`, read from the second character on, and in the numbers of its characters. -/
theorem Rules.signed_renamed :
    Function.Injective Char.toNat ∧
      Rules.Alike (Counterparts.renamed Char.toNat) (signed id Char.toNat) (signed Char.toNat id)
        (.defer "VALUE" ()) (.defer "VALUE" ()) ∧
      (signed id Char.toNat).Yields (.defer "VALUE" ()) .verbose
        ((Cursor.new ['x', '(', '1', ';', '-', '0', ')']).advance 1)
        (.ok (.list [.pair (.elem '+') (.span ['1']), .pair (.elem '-') (.span ['0'])],
          .endOfInput ['x', '(', '1', ';', '-', '0', ')'])) ∧
      (signed Char.toNat id).Yields (.defer "VALUE" ()) .verbose
        ((Cursor.new [120, 40, 49, 59, 45, 48, 41]).advance 1)
        (.ok (.list [.pair (.elem 43) (.span [49]), .pair (.elem 45) (.span [48])],
          .endOfInput [120, 40, 49, 59, 45, 48, 41])) := by
  have hinjective : Function.Injective Char.toNat := fun _ _ => Char.toNat_inj.mp
  have hrule : ∀ rule, (signed id Char.toNat rule).Alike (Counterparts.renamed Char.toNat)
      (signed Char.toNat id rule) := by
    intro rule
    refine .choice (.cons ?digits (.cons ?list .nil))
    case digits => exact .munch _ fun _ => rfl
    case list =>
      refine .delimited (.tag _ rfl) (.separated _ (.pair ?sign (.defer _ _)) ?gap) (.tag _ rfl)
      case sign => exact .orDefault rfl (.single _ (inSet_map hinjective _))
      case gap => exact .single _ (notInSet_map hinjective _)
  have halike : Rules.Alike (Counterparts.renamed Char.toNat) (signed id Char.toNat)
      (signed Char.toNat id) (.defer "VALUE" ()) (.defer "VALUE" ()) :=
    ⟨.defer _ _, fun _ rule _ => hrule rule⟩
  have hchars : (signed id Char.toNat).Yields (.defer "VALUE" ()) .verbose
      ((Cursor.new ['x', '(', '1', ';', '-', '0', ')']).advance 1)
      (.ok (.list [.pair (.elem '+') (.span ['1']), .pair (.elem '-') (.span ['0'])],
        .endOfInput ['x', '(', '1', ';', '-', '0', ')'])) := ⟨3, rfl⟩
  obtain ⟨htogether, hsame⟩ := parse_renamed Char.toNat hinjective _ _ _ _ halike .verbose
    ((Cursor.new ['x', '(', '1', ';', '-', '0', ')']).advance 1)
  -- the parse of the numbers is never run: that it succeeds, and with what, is the theorem's
  obtain ⟨r', hnumbers⟩ := htogether.mp ⟨_, hchars⟩
  cases hsame _ _ hchars hnumbers with
  | @ok _ y' hy =>
    obtain ⟨y', next'⟩ := y'
    obtain ⟨rfl, rfl⟩ := hy
    exact ⟨hinjective, halike, hchars, hnumbers⟩

end Descent
