import Descent.Cursor

/-!
# Output trees

What a grammar yields on an input is a tree: single elements and spans of the input at the leaves,
lists and pairs above them, and values that converters made.  Where a part of the input was
optional and absent the tree has a leaf that says so.

`flatten` reads the input elements off a tree from left to right.  Values made by converters hold
no elements of the input, so a tree with such a value in it has no flattening.
-/

namespace Descent

/-- The output of a grammar over elements `α`, with fixed values from `κ`. -/
inductive Tree (α κ : Type) where
  /-- An optional part that was not there and whose kind is not known. -/
  | absent
  /-- The output of a parser that reads nothing. -/
  | unit
  /-- One element. -/
  | elem (e : α)
  /-- A span of the input. -/
  | span (es : List α)
  | list (entries : List (Tree α κ))
  | pair (first second : Tree α κ)
  /-- Text made by a converter. -/
  | text (value : String)
  /-- An integer made by a converter. -/
  | int (value : Int)
  /-- A fraction made by a converter. -/
  | float (value : Float)
  /-- A value fixed in the grammar. -/
  | const (value : κ)

namespace Tree

variable {α κ : Type}

/-- Induction on trees, with the hypothesis for every entry of a list. -/
@[elab_as_elim]
theorem induct {motive : Tree α κ → Prop}
    (absent : motive .absent) (unit : motive .unit) (elem : ∀ e, motive (.elem e))
    (span : ∀ es, motive (.span es))
    (list : ∀ entries, (∀ t ∈ entries, motive t) → motive (.list entries))
    (pair : ∀ first second, motive first → motive second → motive (.pair first second))
    (text : ∀ value, motive (.text value)) (int : ∀ value, motive (.int value))
    (float : ∀ value, motive (.float value)) (const : ∀ value, motive (.const value)) :
    ∀ t, motive t :=
  @Tree.rec α κ motive (fun entries => ∀ t ∈ entries, motive t)
    absent unit elem span list pair text int float const
    (fun _ h => absurd h List.not_mem_nil)
    (fun _ _ head tail t h => by
      cases h with
      | head => exact head
      | tail _ h => exact tail t h)

/-- The entries of a list; any other tree is its own only entry. -/
def entries : Tree α κ → List (Tree α κ)
  | list entries => entries
  | t => [t]

@[simp] theorem entries_list (ts : List (Tree α κ)) : (list ts).entries = ts := rfl

mutual

/-- The elements of the input in a tree, in order; none if some value in it is not input. -/
def flatten : Tree α κ → Option (List α)
  | absent => some []
  | unit => some []
  | elem e => some [e]
  | span es => some es
  | list entries => flattenAll entries
  | pair first second =>
    match flatten first, flatten second with
    | some es, some es' => some (es ++ es')
    | _, _ => none
  | text _ => none
  | int _ => none
  | float _ => none
  | const _ => none

/-- The elements of the input in a list of trees. -/
def flattenAll : List (Tree α κ) → Option (List α)
  | [] => some []
  | t :: ts =>
    match flatten t, flattenAll ts with
    | some es, some es' => some (es ++ es')
    | _, _ => none

end

@[simp] theorem flatten_absent : (absent : Tree α κ).flatten = some [] := by simp only [flatten]

@[simp] theorem flatten_unit : (unit : Tree α κ).flatten = some [] := by simp only [flatten]

@[simp] theorem flatten_elem (e : α) : (elem e : Tree α κ).flatten = some [e] := by
  simp only [flatten]

@[simp] theorem flatten_span (es : List α) : (span es : Tree α κ).flatten = some es := by
  simp only [flatten]

@[simp] theorem flatten_list (ts : List (Tree α κ)) : (list ts).flatten = flattenAll ts := by
  simp only [flatten]

@[simp] theorem flattenAll_nil : flattenAll ([] : List (Tree α κ)) = some [] := by
  simp only [flattenAll]

end Tree

end Descent
