import Descent.Grammar.Basic

/-!
# Kinds of output

The kind of output a grammar yields can be read off the grammar.  It decides what an optional part
yields when it is absent: a list with nothing in it for a list, an empty span for a span, and so
on.  Where alternatives yield different kinds, or a converter decides, the kind is not known and an
absent part is only known to be absent.
-/

namespace Descent

/-- The kinds of output. -/
inductive Shape where
  | span
  | elem
  | list
  | pair
  | unit
  | unknown
  deriving DecidableEq, Repr

namespace Shape

/-- What an optional part of this kind yields when it is absent. -/
def fallback {α κ : Type} [Element α] : Shape → Tree α κ
  | span => .span []
  | elem => .elem Element.blank
  | list => .list []
  | pair => .pair .absent .absent
  | unit => .unit
  | unknown => .absent

/-- The kind of a choice between alternatives of these kinds: their common one, if they have one and
it is that of a span, an element or a list. -/
def common : List Shape → Shape
  | [] => unknown
  | s :: ss => if (s = span ∨ s = elem ∨ s = list) ∧ ∀ s' ∈ ss, s' = s then s else unknown

end Shape

namespace Grammar

variable {α κ ρ : Type}

mutual

/-- The kind of output of a grammar. -/
def shape : Grammar α κ ρ → Shape
  | .tag _ _ => .span
  | .single _ _ => .elem
  | .munch _ _ => .span
  | .nothing => .unit
  | .sequence _ => .list
  | .choice alternatives => .common (shapes alternatives)
  | .pair _ _ => .pair
  | .delimited _ body _ => shape body
  | .orDefault _ body => shape body
  | .repeated _ _ => .list
  | .separated _ _ _ => .list
  | .named _ body => shape body
  | .convert _ _ => .unknown
  | .mapEach _ _ => .list
  | .replace _ _ => .unknown
  | .matchOnly _ => .span
  | .defer _ _ => .unknown
  | .func _ => .unknown

/-- The kinds of output of a list of grammars. -/
def shapes : List (Grammar α κ ρ) → List Shape
  | [] => []
  | g :: gs => shape g :: shapes gs

end

theorem shapes_eq_map (gs : List (Grammar α κ ρ)) : shapes gs = gs.map shape := by
  induction gs with
  | nil => simp only [shapes, List.map_nil]
  | cons g gs ih => simp only [shapes, List.map_cons, ih]

/-- A part that may be absent, with the output that its kind has when it is. -/
def optional [Element α] (body : Grammar α κ ρ) : Grammar α κ ρ :=
  .orDefault body.shape.fallback body

end Grammar

end Descent
