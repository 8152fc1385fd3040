import Descent.Parser.Match

/-!
# One parser after another

The parsers of a sequence run in order, each from where the one before it ended, and the first
failure is the failure of the whole.  What was read before it is not given back, because a failure
has no cursor to give.

`pair` keeps two outputs of different kinds, `delimited` keeps the middle one of three.
-/

namespace Descent.Parser

variable {α β γ δ : Type}

/-- Names between brackets, as a sequence shows them. -/
def bracketed (names : List String) : String :=
  "[" ++ ", ".intercalate names ++ "]"

/-- Runs the parsers in order and collects their outputs. -/
def runAll (v : Verbosity) : List (Parser α β) → Step α (List β)
  | [], c => pure ([], c)
  | p :: ps, c => do
    let (x, next) ← p.run v c
    let (xs, last) ← runAll v ps next
    pure (x :: xs, last)

@[simp] theorem runAll_nil (v : Verbosity) (c : Cursor α) :
    runAll v ([] : List (Parser α β)) c = pure ([], c) := rfl

theorem runAll_cons (v : Verbosity) (p : Parser α β) (ps : List (Parser α β)) (c : Cursor α) :
    runAll v (p :: ps) c =
      p.run v c >>= fun (x, next) =>
        runAll v ps next >>= fun (xs, last) => pure (x :: xs, last) := rfl

/-- All parsers of a list, one after another. -/
def sequence (ps : List (Parser α β)) : Parser α (List β) where
  name := bracketed (ps.map name)
  run v c := runAll v ps c

/-- Two parsers, one after the other. -/
def pair (p : Parser α β) (q : Parser α γ) : Parser α (β × γ) where
  name := bracketed [p.name, q.name]
  run v c := do
    let (x, mid) ← p.run v c
    let (y, last) ← q.run v mid
    pure ((x, y), last)

/-- Three parsers, one after another, of which only the middle one's output is kept. -/
def delimited (before : Parser α β) (body : Parser α γ) (behind : Parser α δ) : Parser α γ where
  name := before.name ++ ", " ++ body.name ++ ", " ++ behind.name
  run v c := do
    let (_, first) ← before.run v c
    let (x, second) ← body.run v first
    let (_, last) ← behind.run v second
    pure (x, last)

/-- A parser with something in front of it that is not kept. -/
def withPrefix (before : Parser α β) (body : Parser α γ) : Parser α γ :=
  delimited before body nothing

/-- A parser with something behind it that is not kept. -/
def withSuffix (body : Parser α β) (behind : Parser α γ) : Parser α β :=
  delimited nothing body behind

end Descent.Parser
