import Descent.Parser.Match

/-!
# Repetition

All lists are read by one policy, with a parser of elements, a parser of what stands between two of
them, a least number and possibly a greatest.

1. The first element is read without anything before it.
2. While the greatest number is not reached, a delimiter and then an element are read.  If either
   fails the list ends before that delimiter.
3. A list shorter than the least number is a failure: that of the attempt which ended it, or, if
   none failed, a mismatch of the whole repetition.

Without a greatest number the list also ends before the first step that reads nothing, so elements
that may be empty do not repeat for ever.  The first element is exempt.

A step that ends beyond where it began uses up input, so a loop over such steps needs at most one
round for each element left and one more to stop.  Steps that jump backwards need more; `spare` is
how many more the loop may take before it is cut off.
-/

namespace Descent

/-- How many elements a list may have; without a greatest number, any number from the least on. -/
structure Bounds where
  least : Nat
  greatest : Option Nat
  deriving DecidableEq, Repr

namespace Bounds

/-- Any number of elements. -/
def any : Bounds := ⟨0, none⟩

/-- Between two numbers of elements, where a greatest number of zero stands for none. -/
def limited (least greatest : Nat) : Bounds :=
  ⟨least, if greatest = 0 then none else some greatest⟩

/-- A fixed number of elements. -/
def exactly (count : Nat) : Bounds := ⟨count, some count⟩

end Bounds

/-- What a loop has read: the elements, the cursor behind the last one, and the failure that ended
the loop if one did. -/
structure Collected (α β : Type) where
  items : List β
  next : Cursor α
  stop : Option (ParseError α)

namespace Collected

variable {α β : Type}

/-- No element read at the cursor. -/
def none (c : Cursor α) (stop : Option (ParseError α)) : Collected α β := ⟨[], c, stop⟩

/-- One more element in front. -/
def cons (x : β) (collected : Collected α β) : Collected α β :=
  ⟨x :: collected.items, collected.next, collected.stop⟩

@[simp] theorem items_cons (x : β) (collected : Collected α β) :
    (collected.cons x).items = x :: collected.items := rfl

@[simp] theorem next_cons (x : β) (collected : Collected α β) :
    (collected.cons x).next = collected.next := rfl

@[simp] theorem stop_cons (x : β) (collected : Collected α β) :
    (collected.cons x).stop = collected.stop := rfl

end Collected

namespace Parser

variable {α β γ : Type}

/-- A delimiter and the element behind it. -/
def delimitedStep (p : Parser α β) (d : Parser α γ) (v : Verbosity) : Step α β :=
  fun c => do
    let (_, mid) ← d.run v c
    p.run v mid

/-- Repeats a step at most so many times, until it fails. -/
def collectUpTo (step : Step α β) :
    Nat → Cursor α → Run (ParseError α) (Collected α β)
  | 0, c => pure (.none c none)
  | rounds + 1, c => (step c).attempt >>= fun
    | .error e => pure (.none c (some e))
    | .ok (x, next) => do
      let more ← collectUpTo step rounds next
      pure (more.cons x)

/-- Repeats a step until it fails or reads nothing; cut off after so many rounds. -/
def collectAll (step : Step α β) :
    Nat → Cursor α → Run (ParseError α) (Collected α β)
  | 0, _ => .unfinished
  | rounds + 1, c => (step c).attempt >>= fun
    | .error e => pure (.none c (some e))
    | .ok (x, next) =>
      if next.position = c.position then
        pure (.none c none)
      else do
        let more ← collectAll step rounds next
        pure (more.cons x)

/-- What follows the first element. -/
def collectRest (spare : Nat) (greatest : Option Nat) (step : Step α β)
    (c : Cursor α) : Run (ParseError α) (Collected α β) :=
  match greatest with
  | some most => collectUpTo step (most - 1) c
  | none => collectAll step (c.left + 1 + spare) c

/-- The elements of a list, as many as there are up to the greatest number. -/
def collect (spare : Nat) (greatest : Option Nat) (p : Parser α β) (d : Parser α γ)
    (v : Verbosity) (start : Cursor α) : Run (ParseError α) (Collected α β) :=
  if greatest = some 0 then
    pure (.none start none)
  else
    (p.run v start).attempt >>= fun
      | .error e => pure (.none start (some e))
      | .ok (x, next) => do
        let more ← collectRest spare greatest (delimitedStep p d v) next
        pure (more.cons x)

/-- A list under a given name. -/
def listOf (name : String) (spare : Nat) (bounds : Bounds) (p : Parser α β) (d : Parser α γ) :
    Parser α (List β) where
  name := name
  run v c := do
    let found ← collect spare bounds.greatest p d v c
    if found.items.length < bounds.least then
      .emit (.tooFew name found.items.length bounds.least c.position)
      .fail (found.stop.getD (.mismatch v name c))
    else
      pure (found.items, found.next)

/-- A list of elements with nothing between them. -/
def repeated (spare : Nat) (bounds : Bounds) (p : Parser α β) : Parser α (List β) :=
  listOf ("multiple [" ++ p.name ++ "]") spare bounds p nothing

/-- A list of elements with a delimiter between any two. -/
def separated (spare : Nat) (bounds : Bounds) (p : Parser α β) (d : Parser α γ) :
    Parser α (List β) :=
  listOf ("multiple [" ++ p.name ++ "] separated by [" ++ d.name ++ "]") spare bounds p d

end Parser

end Descent
