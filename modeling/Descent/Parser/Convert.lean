import Descent.Parser.Match

/-!
# Other outputs, other names

These parsers read exactly what the parser inside them reads.  They differ in what they yield, and
`named` in what a failure says.

A converter may reject the output it is given.  That failure is reported at both verbosities, at
the place where the inner parser started and under the inner parser's name, and it keeps the
converter's own message.
-/

namespace Descent.Parser

variable {α β γ : Type}

/-- What a converter makes of an output that was read under a name from a place on. -/
def converted (name : String) (start : Cursor α) (next : Cursor α) :
    Except Fault γ → Run (ParseError α) (γ × Cursor α)
  | .ok y => pure (y, next)
  | .error fault => do
    .emit (.unconverted name fault.message)
    .fail (.conversion name start.loc fault)

/-- The parser with its output converted. -/
def convert (p : Parser α β) (f : β → Except Fault γ) : Parser α γ where
  name := p.name
  run v c := do
    let (x, next) ← p.run v c
    converted p.name c next (f x)

/-- The parser with each entry of its output converted; the first entry that is rejected decides. -/
def mapEach (p : Parser α (List β)) (f : β → Except Fault γ) : Parser α (List γ) where
  name := p.name
  run v c := do
    let (xs, next) ← p.run v c
    converted p.name c next (xs.mapM f)

/-- The parser with a fixed output. -/
def replace (value : γ) (p : Parser α β) : Parser α γ where
  name := p.name
  run v c := do
    let (_, next) ← p.run v c
    pure (value, next)

/-- Exactly these elements, with a fixed output. -/
def tagAs [DecidableEq α] (name : String) (literal : List α) (value : γ) : Parser α γ :=
  (tag name literal).replace value

/-- The parser with the span it read as its output. -/
def matchOnly (p : Parser α β) : Parser α (List α) where
  name := p.name
  run v c := do
    let (_, next) ← p.run v c
    pure (next.consumedSince c, next)

/-- The parser under a label: what it expected is the label, at the place where it started. -/
def named (label : String) (p : Parser α β) : Parser α β where
  name := label
  run v c := (p.run v c).mapError (.relabelled label c)

end Descent.Parser
