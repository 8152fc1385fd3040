import Descent.Run

/-!
# Parsers

A parser has a name, which messages use for what it expects, and a function from cursors to runs.
A run that succeeds yields an output and the cursor behind what was read; one that fails yields the
reason and no cursor, so nobody can go on from the middle of a failed attempt.

Parsers are values: running one changes nothing, and it can be run on any number of inputs.
-/

namespace Descent

/-- A way to read from a cursor: it yields an output and the cursor after it, or a failure. -/
abbrev Step (α β : Type) : Type := Cursor α → Run (ParseError α) (β × Cursor α)

/-- A named reader of inputs. -/
structure Parser (α β : Type) where
  /-- What the parser expects, for messages. -/
  name : String
  /-- Reads from a cursor. -/
  run : Verbosity → Step α β

namespace Parser

variable {α β γ : Type}

/-- The name of a parser that is only a function. -/
def functionName : String := "FUNCTION"

/-- A function used as a parser. -/
def ofFunction (run : Verbosity → Step α β) : Parser α β := ⟨functionName, run⟩

/-- The parser with another output made from its own. -/
def map (f : β → γ) (p : Parser α β) : Parser α γ where
  name := p.name
  run v c := do
    let (x, next) ← p.run v c
    pure (f x, next)

@[simp] theorem name_ofFunction (run : Verbosity → Step α β) :
    (ofFunction run).name = functionName := rfl

@[simp] theorem run_ofFunction (run : Verbosity → Step α β) :
    (ofFunction run).run = run := rfl

@[simp] theorem name_map (f : β → γ) (p : Parser α β) : (p.map f).name = p.name := rfl

theorem run_map (f : β → γ) (p : Parser α β) (v : Verbosity) (c : Cursor α) :
    (p.map f).run v c = p.run v c >>= fun (x, next) => pure (f x, next) := rfl

/-! ## Whole inputs -/

/-- Reads from the start of an input and yields what is left of it. -/
def parseSlice (p : Parser α β) (v : Verbosity) (input : List α) :
    Run (ParseError α) (β × List α) := do
  let (x, c) ← p.run v (Cursor.new input)
  pure (x, c.remaining)

/-- Reads all of an input; input that is left over is a failure. -/
def parseComplete (p : Parser α β) (v : Verbosity) (input : List α) : Run (ParseError α) β := do
  let (x, c) ← p.run v (Cursor.new input)
  if c.isEnd then
    pure x
  else
    Run.emit (.leftover p.name c.position input.length)
    Run.fail (.trailingInput c.loc)

end Parser

end Descent
