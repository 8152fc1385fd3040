import Descent.Conversion
import Descent.Parser.Choice
import Descent.Parser.Convert
import Descent.Parser.Repeat
import Descent.Parser.Sequence
import Descent.TextClass
import Descent.Tree

/-!
# Grammars

A grammar is a parser written down as data: a tree of constructors, with names of rules where it
refers to other grammars.  Being data, it can be asked about as well as run, and since it mentions
a rule by name and not by its contents, rules may refer to one another and to themselves.

`Grammar.parser` is the parser a grammar stands for, given what each rule does.  `Rules.run` ties
the knot: a rule does what its grammar stands for, with the rules one level below.  The number of
levels is a bound on the nesting of references, not on the length of the input; a run that comes to
its end at some number of levels comes to the same end at every greater one.

All outputs are trees, so that one list may hold outputs of different kinds.
-/

namespace Descent

/-- A test on elements, with sets kept as sets. -/
inductive ElementClass (α : Type) where
  /-- The elements of a set. -/
  | oneOf (set : List α)
  /-- The elements outside a set. -/
  | noneOf (set : List α)
  /-- The elements that pass a test. -/
  | satisfying (test : α → Bool)

/-- Whether an element belongs to the class. -/
def ElementClass.accepts {α : Type} [DecidableEq α] : ElementClass α → α → Bool
  | oneOf set => Parser.inSet set
  | noneOf set => Parser.notInSet set
  | satisfying test => test

/-- Grammars over elements `α` with fixed values from `κ` and rules named by `ρ`. -/
inductive Grammar (α κ ρ : Type) where
  /-- Exactly these elements. -/
  | tag (name : String) (literal : List α)
  /-- One element of a class. -/
  | single (name : String) (cls : ElementClass α)
  /-- The longest run of elements of a class, at least one. -/
  | munch (name : String) (cls : ElementClass α)
  /-- Nothing; always succeeds. -/
  | nothing
  /-- All of a list, one after another. -/
  | sequence (parts : List (Grammar α κ ρ))
  /-- The first of a list that succeeds. -/
  | choice (alternatives : List (Grammar α κ ρ))
  /-- Two parts, one after the other. -/
  | pair (first second : Grammar α κ ρ)
  /-- Three parts, of which only the middle one's output is kept. -/
  | delimited (before body behind : Grammar α κ ρ)
  /-- A part that may be absent, with the output it then has. -/
  | orDefault (fallback : Tree α κ) (body : Grammar α κ ρ)
  /-- A list. -/
  | repeated (bounds : Bounds) (body : Grammar α κ ρ)
  /-- A list with a delimiter between any two entries. -/
  | separated (bounds : Bounds) (body delimiter : Grammar α κ ρ)
  /-- A part under a label. -/
  | named (label : String) (body : Grammar α κ ρ)
  /-- A part whose output is converted. -/
  | convert (body : Grammar α κ ρ) (f : Tree α κ → Except Fault (Tree α κ))
  /-- A part whose output is a list, each entry of which is converted. -/
  | mapEach (body : Grammar α κ ρ) (f : Tree α κ → Except Fault (Tree α κ))
  /-- A part with a fixed output. -/
  | replace (value : Tree α κ) (body : Grammar α κ ρ)
  /-- A part whose output is the span it read. -/
  | matchOnly (body : Grammar α κ ρ)
  /-- A reference to a rule.  The label stands for the rule's name, which is never asked for, so
  that naming a grammar ends even where its rules are circular. -/
  | defer (label : String) (rule : ρ)
  /-- Any function from cursors to runs. -/
  | func (run : Verbosity → Step α (Tree α κ))

namespace Grammar

variable {α κ ρ : Type}

/-- Induction on grammars, with the hypothesis for every member of a list. -/
@[elab_as_elim]
theorem induct {motive : Grammar α κ ρ → Prop}
    (tag : ∀ name literal, motive (.tag name literal))
    (single : ∀ name cls, motive (.single name cls))
    (munch : ∀ name cls, motive (.munch name cls))
    (nothing : motive .nothing)
    (sequence : ∀ parts, (∀ g ∈ parts, motive g) → motive (.sequence parts))
    (choice : ∀ alternatives, (∀ g ∈ alternatives, motive g) → motive (.choice alternatives))
    (pair : ∀ first second, motive first → motive second → motive (.pair first second))
    (delimited : ∀ before body behind, motive before → motive body → motive behind →
      motive (.delimited before body behind))
    (orDefault : ∀ fallback body, motive body → motive (.orDefault fallback body))
    (repeated : ∀ bounds body, motive body → motive (.repeated bounds body))
    (separated : ∀ bounds body delimiter, motive body → motive delimiter →
      motive (.separated bounds body delimiter))
    (named : ∀ label body, motive body → motive (.named label body))
    (convert : ∀ body f, motive body → motive (.convert body f))
    (mapEach : ∀ body f, motive body → motive (.mapEach body f))
    (replace : ∀ value body, motive body → motive (.replace value body))
    (matchOnly : ∀ body, motive body → motive (.matchOnly body))
    (defer : ∀ label rule, motive (.defer label rule))
    (func : ∀ run, motive (.func run)) :
    ∀ g, motive g :=
  @Grammar.rec α κ ρ motive (fun parts => ∀ g ∈ parts, motive g)
    tag single munch nothing sequence choice pair delimited orDefault repeated separated named
    convert mapEach replace matchOnly defer func
    (fun _ h => absurd h List.not_mem_nil)
    (fun _ _ head tail g h => by
      cases h with
      | head => exact head
      | tail _ h => exact tail g h)

/-! ## Derived constructors -/

/-- One element of a set. -/
def oneOf (name : String) (set : List α) : Grammar α κ ρ := .single name (.oneOf set)

/-- One element outside a set. -/
def noneOf (name : String) (set : List α) : Grammar α κ ρ := .single name (.noneOf set)

/-- The longest run of elements of a set. -/
def oneOfRun (name : String) (set : List α) : Grammar α κ ρ := .munch name (.oneOf set)

/-- The longest run of elements outside a set. -/
def noneOfRun (name : String) (set : List α) : Grammar α κ ρ := .munch name (.noneOf set)

/-- One element that passes a test. -/
def takeSingle (name : String) (test : α → Bool) : Grammar α κ ρ := .single name (.satisfying test)

/-- The longest run of elements that pass a test. -/
def takeWhile (name : String) (test : α → Bool) : Grammar α κ ρ := .munch name (.satisfying test)

/-- One element of a class of characters. -/
def textSingle [Element α] (cls : TextClass) : Grammar α κ ρ := takeSingle cls.name cls.accepts

/-- The longest run of elements of a class of characters. -/
def textMulti [Element α] (cls : TextClass) : Grammar α κ ρ := takeWhile cls.name cls.accepts

/-- Any one element. -/
def anything : Grammar α κ ρ := takeSingle "ANYTHING" fun _ => true

/-- A part with something in front of it. -/
def withPrefix (before body : Grammar α κ ρ) : Grammar α κ ρ := .delimited before body .nothing

/-- A part with something behind it. -/
def withSuffix (body behind : Grammar α κ ρ) : Grammar α κ ρ := .delimited .nothing body behind

/-- Exactly these elements, with a fixed output. -/
def tagAs (name : String) (literal : List α) (value : Tree α κ) : Grammar α κ ρ :=
  .replace value (.tag name literal)

/-! ## What a grammar stands for -/

variable [DecidableEq α]

mutual

/-- The parser that a grammar stands for, where `call` says what each rule does and loops whose
steps jump backwards may take `spare` more rounds. -/
def parser (spare : Nat) (call : ρ → Verbosity → Step α (Tree α κ)) :
    Grammar α κ ρ → Parser α (Tree α κ)
  | .tag name literal => (Parser.tag name literal).map .span
  | .single name cls => (Parser.takeSingle name cls.accepts).map .elem
  | .munch name cls => (Parser.takeWhile name cls.accepts).map .span
  | .nothing => Parser.nothing.map fun _ => .unit
  | .sequence parts => (Parser.sequence (parsers spare call parts)).map .list
  | .choice alternatives => Parser.choice (parsers spare call alternatives)
  | .pair first second =>
    (Parser.pair (parser spare call first) (parser spare call second)).map
      fun (x, y) => .pair x y
  | .delimited before body behind =>
    Parser.delimited (parser spare call before) (parser spare call body)
      (parser spare call behind)
  | .orDefault fallback body => (parser spare call body).orDefault fallback
  | .repeated bounds body => (Parser.repeated spare bounds (parser spare call body)).map .list
  | .separated bounds body delimiter =>
    (Parser.separated spare bounds (parser spare call body) (parser spare call delimiter)).map .list
  | .named label body => (parser spare call body).named label
  | .convert body f => (parser spare call body).convert f
  | .mapEach body f => (((parser spare call body).map Tree.entries).mapEach f).map .list
  | .replace value body => (parser spare call body).replace value
  | .matchOnly body => (parser spare call body).matchOnly.map .span
  | .defer label rule => ⟨label, call rule⟩
  | .func run => Parser.ofFunction run

/-- The parsers that a list of grammars stands for. -/
def parsers (spare : Nat) (call : ρ → Verbosity → Step α (Tree α κ)) :
    List (Grammar α κ ρ) → List (Parser α (Tree α κ))
  | [] => []
  | g :: gs => parser spare call g :: parsers spare call gs

end

theorem parsers_eq_map (spare : Nat) (call : ρ → Verbosity → Step α (Tree α κ))
    (gs : List (Grammar α κ ρ)) : parsers spare call gs = gs.map (parser spare call) := by
  induction gs with
  | nil => simp only [parsers, List.map_nil]
  | cons g gs ih => simp only [parsers, List.map_cons, ih]

end Grammar

/-- The grammars of a set of rules. -/
abbrev Rules (α κ ρ : Type) : Type := ρ → Grammar α κ ρ

namespace Rules

variable {α κ ρ : Type} [DecidableEq α]

/-- What a rule does when references may nest so many levels deep. -/
def run (rules : Rules α κ ρ) : Nat → ρ → Verbosity → Step α (Tree α κ)
  | 0, _ => fun _ _ => .unfinished
  | levels + 1, rule => ((rules rule).parser levels (rules.run levels)).run

/-- The parser of a grammar over these rules, with references nesting so many levels deep. -/
def parser (rules : Rules α κ ρ) (levels : Nat) (g : Grammar α κ ρ) : Parser α (Tree α κ) :=
  g.parser levels (rules.run levels)

@[simp] theorem run_zero (rules : Rules α κ ρ) (rule : ρ) (v : Verbosity) (c : Cursor α) :
    rules.run 0 rule v c = .unfinished := rfl

theorem run_succ (rules : Rules α κ ρ) (levels : Nat) (rule : ρ) :
    rules.run (levels + 1) rule = (rules.parser levels (rules rule)).run := rfl

end Rules

end Descent
