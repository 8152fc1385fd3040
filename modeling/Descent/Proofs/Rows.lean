import Descent.Proofs.Outcome

/-!
# Parsers in a row

A row of parsers can be run as a sequence, as nested pairs, however these are bracketed, and, if it
is one of three, as a delimited parser.  These are written apart: a sequence threads its cursor
through a list, a pair and a delimited parser through two and three steps.  They come to the same.

A bracketing is a binary tree of parsers (`Row`), and so is an output of the pairs it stands for,
so that the kind of output follows from the tree.  The outputs are read off it from left to right,
and then the pairs run as the sequence of the leaves does, event by event (`run_row`).  The one law
behind this is that a sequence may be cut in two anywhere (`run_sequence_append`).

What a sequence comes to is said without it (`Threads`): its parsers succeed one behind the other,
or the first that does not, run where those before it have led, fails.

* `sequencing_forms_agree`: the forms of a row agree, outputs, ends and errors.
-/

namespace Descent.Parser

variable {α β γ δ : Type} {v : Verbosity} {c next : Cursor α} {e : ParseError α} {xs : List β}

/-! ## One behind the other -/

/-- The parsers succeed with these outputs one behind the other, each from where the one before it
ended. -/
inductive Threads (v : Verbosity) :
    List (Parser α β) → Cursor α → List β → Cursor α → Prop
  | nil (c : Cursor α) : Threads v [] c [] c
  | cons {p : Parser α β} {ps : List (Parser α β)} {c mid next : Cursor α} {x : β}
    {xs : List β} :
    (p.run v).Accepts c x mid → Threads v ps mid xs next → Threads v (p :: ps) c (x :: xs) next

theorem accepts_sequence_iff_threads {ps : List (Parser α β)} :
    ((sequence ps).run v).Accepts c xs next ↔ Threads v ps c xs next := by
  induction ps generalizing c xs with
  | nil =>
    rw [accepts_sequence_nil]
    constructor
    · rintro ⟨rfl, rfl⟩
      exact Threads.nil _
    · intro h
      cases h
      exact ⟨rfl, rfl⟩
  | cons p ps ih =>
    rw [accepts_sequence_cons]
    constructor
    · rintro ⟨x, mid, ys, hx, hys, rfl⟩
      exact Threads.cons hx (ih.mp hys)
    · intro h
      cases h with
      | cons hx hys => exact ⟨_, _, _, hx, ih.mpr hys, rfl⟩

/-- A sequence fails with the error of the first parser that fails, run where those before it have
led. -/
theorem rejects_sequence_iff_threads {ps : List (Parser α β)} :
    ((sequence ps).run v).Rejects c e ↔
      ∃ before p behind xs mid, ps = before ++ p :: behind ∧ Threads v before c xs mid ∧
        (p.run v).Rejects mid e := by
  induction ps generalizing c with
  | nil =>
    refine ⟨fun h => absurd h not_rejects_sequence_nil, ?_⟩
    rintro ⟨before, p, behind, xs, mid, hps, -, -⟩
    exact absurd hps (by simp)
  | cons p ps ih =>
    rw [rejects_sequence_cons]
    constructor
    · rintro (hp | ⟨x, mid, hx, hps⟩)
      · exact ⟨[], p, ps, [], c, rfl, Threads.nil c, hp⟩
      · obtain ⟨before, q, behind, ys, last, rfl, hbefore, hq⟩ := ih.mp hps
        exact ⟨p :: before, q, behind, x :: ys, last, rfl, Threads.cons hx hbefore, hq⟩
    · rintro ⟨before, q, behind, ys, last, hps, hbefore, hq⟩
      cases hbefore with
      | nil =>
        obtain ⟨rfl, rfl⟩ := List.cons.inj hps
        exact Or.inl hq
      | cons hx hbefore =>
        obtain ⟨rfl, rfl⟩ := List.cons.inj hps
        exact Or.inr ⟨_, _, hx, ih.mpr ⟨_, q, behind, _, last, rfl, hbefore, hq⟩⟩

/-- A sequence comes to a result unless the parsers lead to one that does not. -/
theorem returns_sequence_or_threads (ps : List (Parser α β)) (c : Cursor α) :
    ((sequence ps).run v).Returns c ∨
      ∃ before p behind xs mid, ps = before ++ p :: behind ∧ Threads v before c xs mid ∧
        ¬ (p.run v).Returns mid := by
  induction ps generalizing c with
  | nil => exact Or.inl (accepts_sequence_nil.mpr ⟨rfl, rfl⟩).returns
  | cons p ps ih =>
    by_cases hp : (p.run v).Returns c
    · rcases Step.returns_iff.mp hp with ⟨x, mid, hx⟩ | ⟨e, he⟩
      · rcases ih mid with hps | ⟨before, q, behind, ys, last, rfl, hbefore, hq⟩
        · rw [run_sequence_cons]
          refine Or.inl (returns_map (returns_pair hp fun x' mid' hx' => ?_))
          obtain ⟨-, rfl⟩ := hx.unique hx'
          exact hps
        · exact Or.inr ⟨p :: before, q, behind, x :: ys, last, rfl, Threads.cons hx hbefore, hq⟩
      · exact Or.inl (rejects_sequence_cons.mpr (Or.inl he)).returns
    · exact Or.inr ⟨[], p, ps, [], c, rfl, Threads.nil c, hp⟩

/-! ## Pairs of parsers with other outputs -/

section Pairs

variable {p p' : Parser α β} {q q' : Parser α γ}

theorem run_map_congr (h : p.run v = p'.run v) (f : β → γ) :
    (p.map f).run v = (p'.map f).run v := by
  funext c
  rw [run_map, run_map, h]

theorem run_pair_congr (hp : p.run v = p'.run v) (hq : q.run v = q'.run v) :
    (pair p q).run v = (pair p' q').run v := by
  unfold pair
  dsimp only
  rw [hp, hq]

end Pairs

/-! ## A sequence cut in two -/

theorem runAll_append (ps qs : List (Parser α β)) (c : Cursor α) :
    runAll v (ps ++ qs) c =
      runAll v ps c >>= fun z => runAll v qs z.2 >>= fun w => pure (z.1 ++ w.1, w.2) := by
  induction ps generalizing c with
  | nil => simp
  | cons p ps ih =>
    simp only [List.cons_append, runAll_cons, Run.bind_assoc, Run.pure_bind, ih]

/-- **A sequence may be cut in two anywhere.** -/
theorem run_sequence_append (ps qs : List (Parser α β)) :
    (sequence (ps ++ qs)).run v =
      ((pair (sequence ps) (sequence qs)).map fun z => z.1 ++ z.2).run v := by
  funext c
  simp only [sequence, pair, map, runAll_append, Run.bind_assoc, Run.pure_bind]

/-! ## Rows, however they are bracketed -/

/-- Parsers of one kind of output, put together two and two. -/
inductive Row (α β : Type) where
  | one (p : Parser α β)
  | both (first second : Row α β)

namespace Row

/-- What the nested pairs of a row yield. -/
def Output : Row α β → Type
  | one _ => β
  | both first second => first.Output × second.Output

/-- The nested pairs of a row. -/
def parser : (row : Row α β) → Parser α row.Output
  | one p => p
  | both first second => pair first.parser second.parser

/-- The parsers of a row from left to right. -/
def members : Row α β → List (Parser α β)
  | one p => [p]
  | both first second => first.members ++ second.members

/-- The outputs of a row from left to right. -/
def outputs : (row : Row α β) → row.Output → List β
  | one _, x => [x]
  | both first second, z => first.outputs z.1 ++ second.outputs z.2

/-- A row and then more parsers, each paired with all before it. -/
def leftward (row : Row α β) (ps : List (Parser α β)) : Row α β :=
  ps.foldl (fun row p => both row (one p)) row

/-- Parsers in a row, each paired with all behind it. -/
def rightward (p : Parser α β) : List (Parser α β) → Row α β
  | [] => one p
  | q :: qs => both (one p) (rightward q qs)

theorem members_leftward (row : Row α β) (ps : List (Parser α β)) :
    (row.leftward ps).members = row.members ++ ps := by
  unfold leftward
  induction ps generalizing row with
  | nil => rw [List.foldl_nil, List.append_nil]
  | cons p ps ih => rw [List.foldl_cons, ih, members, members, List.append_assoc,
      List.singleton_append]

theorem members_rightward (p : Parser α β) (ps : List (Parser α β)) :
    (rightward p ps).members = p :: ps := by
  induction ps generalizing p with
  | nil => rfl
  | cons q qs ih => rw [rightward, members, members, ih, List.singleton_append]

/-- **However it is bracketed, a row runs as the sequence of its parsers.** -/
theorem run_row (row : Row α β) (v : Verbosity) :
    (row.parser.map row.outputs).run v = (sequence row.members).run v := by
  induction row with
  | one p =>
    calc (p.map fun x => [x]).run v
        = (sequence [p]).run v := by
          funext c
          simp only [sequence, map, runAll_cons, runAll_nil, Run.pure_bind]
  | both first second ihFirst ihSecond =>
    calc ((pair first.parser second.parser).map
            fun z => first.outputs z.1 ++ second.outputs z.2).run v
        = ((pair (first.parser.map first.outputs) (second.parser.map second.outputs)).map
            fun z => z.1 ++ z.2).run v := by
          funext c
          simp only [pair, map, Run.bind_assoc, Run.pure_bind]
      _ = ((pair (sequence first.members) (sequence second.members)).map
            fun z => z.1 ++ z.2).run v := run_map_congr (run_pair_congr ihFirst ihSecond) _
      _ = (sequence (first.members ++ second.members)).run v := (run_sequence_append _ _).symm

/-- Three parsers, bracketed to the left. -/
example (p q r : Parser α β) : ((one p).leftward [q, r]).parser = pair (pair p q) r := rfl

end Row

/-! ## Three in a row, or two, of which one counts -/

/-- The middle one of a sequence of three. -/
theorem run_delimited_eq_sequence (a p b : Parser α β) :
    ((delimited a p b).map some).run v = ((sequence [a, p, b]).map fun xs => xs[1]?).run v := by
  rw [run_map_congr (run_delimited a p b)]
  funext c
  simp only [sequence, runAll_cons, runAll_nil, pair, map, Run.bind_assoc, Run.pure_bind]
  rfl

theorem run_withPrefix (a : Parser α β) (p : Parser α γ) :
    (withPrefix a p).run v = ((pair a p).map Prod.snd).run v := by
  funext c
  simp only [withPrefix, run_delimited, pair, map, nothing, Run.bind_assoc, Run.pure_bind]

theorem run_withSuffix (p : Parser α β) (b : Parser α γ) :
    (withSuffix p b).run v = ((pair p b).map Prod.fst).run v := by
  funext c
  simp only [withSuffix, run_delimited, pair, map, nothing, Run.bind_assoc, Run.pure_bind]

/-- **The forms of a row agree.**  At both verbosities a sequence, the same parsers paired from the
left and the same parsers paired from the right run alike, which is more than that outputs, ends and
errors agree, since events do too.  The sequence succeeds where its parsers succeed one behind the
other, with their outputs in order, and fails with the error of the first that fails, run where
those before it have led; there is no third case but that a parser does not come to a result where
those before it have led.  A sequence may be cut in two anywhere.  And what is delimited is the
middle one of a sequence of three, with a prefix only or a suffix only that one of a pair. -/
theorem sequencing_forms_agree (v : Verbosity) :
    (∀ (p : Parser α β) (ps : List (Parser α β)),
        (((Row.one p).leftward ps).parser.map ((Row.one p).leftward ps).outputs).run v =
            (sequence (p :: ps)).run v ∧
          ((Row.rightward p ps).parser.map (Row.rightward p ps).outputs).run v =
            (sequence (p :: ps)).run v) ∧
      (∀ (ps : List (Parser α β)) (c : Cursor α),
        (∀ xs next, ((sequence ps).run v).Accepts c xs next ↔ Threads v ps c xs next) ∧
          (∀ e, ((sequence ps).run v).Rejects c e ↔
            ∃ before p behind xs mid, ps = before ++ p :: behind ∧ Threads v before c xs mid ∧
              (p.run v).Rejects mid e) ∧
          (((sequence ps).run v).Returns c ∨
            ∃ before p behind xs mid, ps = before ++ p :: behind ∧ Threads v before c xs mid ∧
              ¬ (p.run v).Returns mid)) ∧
      (∀ ps qs : List (Parser α β), (sequence (ps ++ qs)).run v =
        ((pair (sequence ps) (sequence qs)).map fun z => z.1 ++ z.2).run v) ∧
      (∀ a p b : Parser α β,
        ((delimited a p b).map some).run v = ((sequence [a, p, b]).map fun xs => xs[1]?).run v) ∧
      ∀ (a : Parser α β) (p : Parser α γ) (b : Parser α δ),
        (delimited a p b).run v = ((pair a (pair p b)).map fun z => z.2.1).run v ∧
          (withPrefix a p).run v = ((pair a p).map Prod.snd).run v ∧
          (withSuffix p b).run v = ((pair p b).map Prod.fst).run v := by
  refine ⟨fun p ps => ⟨?_, ?_⟩, fun ps c => ⟨fun xs next => accepts_sequence_iff_threads,
    fun e => rejects_sequence_iff_threads, returns_sequence_or_threads ps c⟩,
    run_sequence_append, run_delimited_eq_sequence,
    fun a p b => ⟨run_delimited a p b, run_withPrefix a p, run_withSuffix p b⟩⟩
  · rw [Row.run_row, Row.members_leftward]
    rfl
  · rw [Row.run_row, Row.members_rightward]

end Descent.Parser
