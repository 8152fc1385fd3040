import Descent.Parser.Match

/-!
# One parser or another

The alternatives of a choice are tried in order from the same place, and the first success is the
outcome, even where a later alternative would read more.  What a failed alternative says is never
used, so alternatives always run tersely; when all have failed, a verbose caller is told the names
of all of them, at the place where the choice started.

An optional parser is a choice with a fixed last resort: it never fails, and where its parser fails
it yields a fallback and reads nothing.
-/

namespace Descent.Parser

variable {α β : Type}

/-- The first success among the parsers, if there is one. -/
def firstSuccess : List (Parser α β) → Cursor α → Run (ParseError α) (Option (β × Cursor α))
  | [], _ => pure none
  | p :: ps, c => (p.run .terse c).attempt >>= fun
    | .ok success => pure (some success)
    | .error _ => firstSuccess ps c

@[simp] theorem firstSuccess_nil (c : Cursor α) :
    firstSuccess ([] : List (Parser α β)) c = pure none := rfl

theorem firstSuccess_cons (p : Parser α β) (ps : List (Parser α β)) (c : Cursor α) :
    firstSuccess (p :: ps) c = (p.run .terse c).attempt >>= fun
      | .ok success => pure (some success)
      | .error _ => firstSuccess ps c := rfl

/-- The names of alternatives, as a choice shows them. -/
def alternatives (names : List String) : String :=
  "one of" ++ String.join (names.map fun name => " [" ++ name ++ "]")

/-- The first parser of a list that succeeds. -/
def choice (ps : List (Parser α β)) : Parser α β where
  name := alternatives (ps.map name)
  run v c := firstSuccess ps c >>= fun
    | some success => pure success
    | none =>
      match v with
      | .terse => .fail .invalidInput
      | .verbose => do
        .emit (.exhausted ps.length c.position (alternatives (ps.map name)))
        .fail (.expected (alternatives (ps.map name)) c.loc)

/-- The parser, or a fallback that reads nothing. -/
def orDefault (fallback : β) (p : Parser α β) : Parser α β where
  name := p.name
  run _ c := (p.run .terse c).attempt >>= fun
    | .ok success => pure success
    | .error _ => pure (fallback, c)

@[simp] theorem name_choice (ps : List (Parser α β)) :
    (choice ps).name = alternatives (ps.map name) := rfl

@[simp] theorem name_orDefault (fallback : β) (p : Parser α β) :
    (orDefault fallback p).name = p.name := rfl

theorem run_orDefault (fallback : β) (p : Parser α β) (v : Verbosity) (c : Cursor α) :
    (orDefault fallback p).run v c = (p.run .terse c).attempt >>= fun
      | .ok success => pure success
      | .error _ => pure (fallback, c) := rfl

end Descent.Parser
