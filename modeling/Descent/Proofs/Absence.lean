import Descent.Proofs.OrderedChoice

/-!
# What may be absent

A part that may be absent can be written in three ways: as an optional part with a fallback, as a
choice between it and nothing, and as a list of at most one.  The choice is the optional part, event
by event (`run_choice_nothing`).  The list is an optional list of one, but runs its parser at the
verbosity of the caller, and the other two run it tersely (`run_repeated_once`).  So all three come
to the same if the parser is steady.

All three give up an attempt in the same way.  A failure has no cursor, so whatever was read before
it, they go on from where they started.

* `optional_forms_agree`: the three are the same.
-/

namespace Descent.Parser

variable {α β : Type} {p : Parser α β} {v : Verbosity} {c next : Cursor α} {fallback x : β}
  {xs : List β} {e : ParseError α} {spare : Nat}

/-! ## Nothing as the last alternative -/

/-- A choice whose last alternative is nothing is an optional part. -/
theorem run_choice_nothing (fallback : β) (p : Parser α β) (v : Verbosity) :
    (choice [p, nothing.replace fallback]).run v = (orDefault fallback p).run v := by
  funext c
  rw [run_choice, run_orDefault, firstSuccess_cons, Run.bind_assoc]
  congr 1
  funext r
  cases r with
  | error e => rfl
  | ok success => rw [Run.pure_bind]

/-! ## At most one -/

/-- The parser as it runs at this verbosity, whatever its caller asks for. -/
def heldAt (v : Verbosity) (p : Parser α β) : Parser α β := ⟨p.name, fun _ => p.run v⟩

/-- A list of at most one is an optional list of one, but runs its parser at the verbosity of the
caller. -/
theorem run_repeated_once (spare : Nat) (p : Parser α β) (v : Verbosity) :
    (repeated spare (.limited 0 1) p).run v =
      (orDefault [] ((p.heldAt v).map fun x => [x])).run v := by
  funext c
  have hgreatest : (Bounds.limited 0 1).greatest = some 1 := rfl
  rw [run_orDefault, run_map]
  unfold repeated listOf heldAt
  dsimp only
  rw [hgreatest, collect, if_neg (by simp)]
  rcases p.run v c with ⟨events, e | ⟨x, next⟩⟩ | _
  · rfl
  · rfl
  · rfl

theorem accepts_repeated_once :
    ((repeated spare (.limited 0 1) p).run v).Accepts c xs next ↔
      (∃ x, (p.run v).Accepts c x next ∧ xs = [x]) ∨
        (∃ e, (p.run v).Rejects c e) ∧ xs = [] ∧ next = c := by
  rw [run_repeated_once, accepts_orDefault, accepts_map]
  simp only [rejects_map]
  exact Iff.rfl

theorem not_rejects_repeated_once :
    ¬ ((repeated spare (.limited 0 1) p).run v).Rejects c e := by
  rw [run_repeated_once]
  exact not_rejects_orDefault

theorem returns_repeated_once (h : (p.run v).Returns c) :
    ((repeated spare (.limited 0 1) p).run v).Returns c := by
  rw [run_repeated_once]
  exact returns_orDefault (returns_map h)

/-! ## One parser in three ways -/

/-- What an optional part does, said at the verbosity of the caller. -/
theorem accepts_orDefault_iff (hp : Steady p c) :
    ((orDefault fallback p).run v).Accepts c x next ↔
      (p.run v).Accepts c x next ∨
        (∃ e, (p.run v).Rejects c e) ∧ x = fallback ∧ next = c := by
  rw [accepts_orDefault, hp.accepts_iff v, hp.rejects_iff v]

/-- With the fallback in place of no element, a list of at most one comes to what an optional part
does. -/
theorem result?_repeated_once (hp : Steady p c) :
    (((repeated spare (.limited 0 1) p).map fun xs => xs.headD fallback).run v c).result? =
      ((orDefault fallback p).run v c).result? := by
  refine Step.result?_congr (fun x next => ?_) fun e => ?_
  · rw [accepts_map, accepts_orDefault_iff hp]
    constructor
    · rintro ⟨xs, hxs, rfl⟩
      rcases accepts_repeated_once.mp hxs with ⟨x, hx, rfl⟩ | ⟨he, rfl, rfl⟩
      · exact Or.inl hx
      · exact Or.inr ⟨he, rfl, rfl⟩
    · rintro (hx | ⟨he, rfl, rfl⟩)
      · exact ⟨[x], accepts_repeated_once.mpr (Or.inl ⟨x, hx, rfl⟩), rfl⟩
      · exact ⟨[], accepts_repeated_once.mpr (Or.inr ⟨he, rfl, rfl⟩), rfl⟩
  · rw [rejects_map]
    exact iff_of_false not_rejects_repeated_once not_rejects_orDefault

/-- **A part that may be absent is one thing in three ways.**  Let a parser be steady at a cursor.
At either verbosity the choice between it and nothing, replaced by a fallback, runs as the optional
part with that fallback does, and a list of at most one comes to the same, with the fallback in
place of no element.  None of them fails, and they come to a result if the parser does.  Where the
parser succeeds they end where it does, and the list has its output as the only element.  Where it
fails, for whatever reason and however far it read, the list is empty, the optional part falls back,
and they end where they started. -/
theorem optional_forms_agree (p : Parser α β) (c : Cursor α) (hp : Steady p c) (fallback : β)
    (spare : Nat) (v : Verbosity) :
    (choice [p, nothing.replace fallback]).run v c = (orDefault fallback p).run v c ∧
      (((repeated spare (.limited 0 1) p).map fun xs => xs.headD fallback).run v c).result? =
        ((orDefault fallback p).run v c).result? ∧
      (∀ e, ¬ ((orDefault fallback p).run v).Rejects c e ∧
        ¬ ((repeated spare (.limited 0 1) p).run v).Rejects c e) ∧
      ((p.run v).Returns c → ((orDefault fallback p).run v).Returns c ∧
        ((repeated spare (.limited 0 1) p).run v).Returns c) ∧
      (∀ x next, ((orDefault fallback p).run v).Accepts c x next ↔
        (p.run v).Accepts c x next ∨
          (∃ e, (p.run v).Rejects c e) ∧ x = fallback ∧ next = c) ∧
      ∀ xs next, ((repeated spare (.limited 0 1) p).run v).Accepts c xs next ↔
        (∃ x, (p.run v).Accepts c x next ∧ xs = [x]) ∨
          (∃ e, (p.run v).Rejects c e) ∧ xs = [] ∧ next = c := by
  refine ⟨?_, result?_repeated_once hp, fun e => ⟨not_rejects_orDefault, not_rejects_repeated_once⟩,
    fun h => ⟨?_, returns_repeated_once h⟩, fun x next => accepts_orDefault_iff hp,
    fun xs next => accepts_repeated_once⟩
  · rw [run_choice_nothing]
  · exact returns_orDefault ((hp.returns_iff v).mpr h)

/-- A zero is read and then refused, and everybody starts again in front of it. -/
theorem nonzero_absent :
    Steady nonzero (Cursor.new ['0', ';']) ∧
      (nonzero.run .verbose).Rejects (Cursor.new ['0', ';'])
        (.conversion "DIGIT" ⟨['0', ';'], 0⟩ (.plain "zero")) ∧
      ((choice [nonzero, nothing.replace '?']).run .verbose).Accepts (Cursor.new ['0', ';']) '?'
        (Cursor.new ['0', ';']) ∧
      ((orDefault '?' nonzero).run .verbose).Accepts (Cursor.new ['0', ';']) '?'
        (Cursor.new ['0', ';']) ∧
      ((repeated 0 (.limited 0 1) nonzero).run .verbose).Accepts (Cursor.new ['0', ';']) []
        (Cursor.new ['0', ';']) := by
  have hfails : (nonzero.run .verbose).Rejects (Cursor.new ['0', ';'])
      (.conversion "DIGIT" ⟨['0', ';'], 0⟩ (.plain "zero")) := rfl
  have hsteady := steady_nonzero (Cursor.new ['0', ';'])
  obtain ⟨hchoice, -, -, -, horDefault, hlist⟩ :=
    optional_forms_agree nonzero (Cursor.new ['0', ';']) hsteady '?' 0 .verbose
  have haccepts : ((orDefault '?' nonzero).run .verbose).Accepts (Cursor.new ['0', ';']) '?'
      (Cursor.new ['0', ';']) := (horDefault _ _).mpr (Or.inr ⟨⟨_, hfails⟩, rfl, rfl⟩)
  refine ⟨hsteady, hfails, ?_, haccepts, (hlist _ _).mpr (Or.inr ⟨⟨_, hfails⟩, rfl, rfl⟩)⟩
  rw [Step.Accepts, hchoice]
  exact haccepts

end Descent.Parser
