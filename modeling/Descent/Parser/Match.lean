import Descent.Parser.Basic

/-!
# Parsers of elements

The leaves of every grammar: fixed elements (`tag`), one element that passes a test (`takeSingle`),
the longest run of such elements (`takeWhile`), any element at all, and nothing.  Parsers of sets of
elements (`ElementSet`), taken as they are (`oneOf`) or by exclusion (`noneOf`), read by themselves;
they read what the parsers of their tests do.

A run is never empty.  Whoever wants to allow an empty run says so with an optional parser.
-/

namespace Descent.Parser

variable {α : Type}

/-- Exactly these elements, as the input has them. -/
def tag [DecidableEq α] (name : String) (literal : List α) : Parser α (List α) where
  name := name
  run v c :=
    if literal.isPrefixOf c.remaining then
      pure (c.remaining.take literal.length, c.advance literal.length)
    else
      .fail (.mismatch v name c)

/-- One element that passes the test. -/
def takeSingle (name : String) (accepts : α → Bool) : Parser α α where
  name := name
  run v c :=
    match c.value with
    | some e => if accepts e then pure (e, c.next) else .fail (.mismatch v name c)
    | none => .fail (.mismatch v name c)

/-- The longest run of elements that pass the test, at least one. -/
def takeWhile (name : String) (accepts : α → Bool) : Parser α (List α) where
  name := name
  run v c :=
    match c.remaining.takeWhile accepts with
    | [] => .fail (.mismatch v name c)
    | e :: es => pure (e :: es, c.advance (es.length + 1))

/-- The test that an element is in the set. -/
def inSet [DecidableEq α] (set : List α) (e : α) : Bool := set.contains e

/-- The test that an element is not in the set. -/
def notInSet [DecidableEq α] (set : List α) (e : α) : Bool := !set.contains e

section Sets

/-- The side of a set on which elements are accepted. -/
inductive Side where
  | inside
  | outside
  deriving DecidableEq

/-- A set of elements under a name, from one side. -/
structure ElementSet (α : Type) where
  name : String
  set : List α
  side : Side

namespace ElementSet

variable [DecidableEq α]

/-- Whether the element is on the side of the set. -/
def accepts (s : ElementSet α) (e : α) : Bool :=
  s.set.contains e == (s.side == .inside)

/-- The number of elements accepted at the start of a list. -/
def runLength (s : ElementSet α) (es : List α) : Nat :=
  (es.takeWhile s.accepts).length

/-- One element that is accepted. -/
def single (s : ElementSet α) : Parser α α where
  name := s.name
  run v c :=
    match c.value with
    | some e => if s.accepts e then pure (e, c.next) else .fail (.mismatch v s.name c)
    | none => .fail (.mismatch v s.name c)

/-- The longest run of elements that are accepted, at least one, cut off by its length. -/
def munch (s : ElementSet α) : Parser α (List α) where
  name := s.name
  run v c :=
    match s.runLength c.remaining with
    | 0 => .fail (.mismatch v s.name c)
    | length => pure (c.remaining.take length, c.advance length)

/-- One element of a set is one element that passes its test. -/
theorem single_eq_takeSingle (s : ElementSet α) :
    s.single = takeSingle s.name s.accepts := rfl

/-- A run cut off by its length is the run that the test reads. -/
theorem munch_eq_takeWhile (s : ElementSet α) :
    s.munch = takeWhile s.name s.accepts := by
  have hrun : s.munch.run = (takeWhile s.name s.accepts).run := by
    funext v c
    have htake : c.remaining.take (c.remaining.takeWhile s.accepts).length =
        c.remaining.takeWhile s.accepts :=
      (List.prefix_iff_eq_take.mp (List.takeWhile_prefix s.accepts)).symm
    dsimp only [munch, takeWhile, runLength]
    rcases hes : c.remaining.takeWhile s.accepts with _ | ⟨e, es⟩
    · rfl
    · rw [hes, List.length_cons] at htake
      show pure (c.remaining.take (es.length + 1), c.advance (es.length + 1)) = _
      rw [htake]
  exact congrArg (Parser.mk s.name) hrun

end ElementSet

variable [DecidableEq α]

/-- One element of the set. -/
def oneOf (name : String) (set : List α) : Parser α α := (ElementSet.mk name set .inside).single

/-- One element outside the set. -/
def noneOf (name : String) (set : List α) : Parser α α := (ElementSet.mk name set .outside).single

/-- The longest run of elements of the set. -/
def oneOfRun (name : String) (set : List α) : Parser α (List α) :=
  (ElementSet.mk name set .inside).munch

/-- The longest run of elements outside the set. -/
def noneOfRun (name : String) (set : List α) : Parser α (List α) :=
  (ElementSet.mk name set .outside).munch

theorem accepts_inside (name : String) (set : List α) :
    (ElementSet.mk name set .inside).accepts = inSet set :=
  funext fun e => beq_true (set.contains e)

theorem accepts_outside (name : String) (set : List α) :
    (ElementSet.mk name set .outside).accepts = notInSet set :=
  funext fun e => beq_false (set.contains e)

theorem oneOf_eq_takeSingle (name : String) (set : List α) :
    oneOf name set = takeSingle name (inSet set) := by
  rw [oneOf, ElementSet.single_eq_takeSingle, accepts_inside]

theorem noneOf_eq_takeSingle (name : String) (set : List α) :
    noneOf name set = takeSingle name (notInSet set) := by
  rw [noneOf, ElementSet.single_eq_takeSingle, accepts_outside]

theorem oneOfRun_eq_takeWhile (name : String) (set : List α) :
    oneOfRun name set = takeWhile name (inSet set) := by
  rw [oneOfRun, ElementSet.munch_eq_takeWhile, accepts_inside]

theorem noneOfRun_eq_takeWhile (name : String) (set : List α) :
    noneOfRun name set = takeWhile name (notInSet set) := by
  rw [noneOfRun, ElementSet.munch_eq_takeWhile, accepts_outside]

end Sets

/-- Any one element. -/
def anything : Parser α α := takeSingle "ANYTHING" fun _ => true

/-- Nothing at all; always succeeds. -/
def nothing : Parser α Unit where
  name := "NOTHING"
  run _ c := pure ((), c)

@[simp] theorem name_tag [DecidableEq α] (name : String) (literal : List α) :
    (tag name literal).name = name := rfl

@[simp] theorem name_takeSingle (name : String) (accepts : α → Bool) :
    (takeSingle name accepts).name = name := rfl

@[simp] theorem name_takeWhile (name : String) (accepts : α → Bool) :
    (takeWhile name accepts).name = name := rfl

@[simp] theorem name_nothing : (nothing : Parser α Unit).name = "NOTHING" := rfl

@[simp] theorem run_nothing (v : Verbosity) (c : Cursor α) :
    (nothing : Parser α Unit).run v c = pure ((), c) := rfl

end Descent.Parser
