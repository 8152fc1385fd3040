import Descent.Proofs.Onward

/-!
# Who is to blame

A verbose failure names a parser and a place.  Combinators hand the blame on in different ways: a
sequence passes on the error of the part that failed, a list that of the attempt which ended it,
or it blames itself, a choice always blames itself, a label moves the blame back to where it
stands, and a converter blames what it converts, at its start.  All of them agree on what blame
means.  Whoever is named is somewhere in the grammar and, run at the place of the error, fails with
that very error (`verbose_failure_is_reproduced`).

The induction carries `Blamed`, which speaks of cursors; positions come in at the end.
-/

namespace Descent

variable {α κ ρ : Type} [DecidableEq α]

/-- The error belongs to a parser inside the grammar which, started at a cursor further on, fails
with this error and makes it itself. -/
def Rules.Blamed (rules : Rules α κ ρ) (g : Grammar α κ ρ) (v : Verbosity) (start : Cursor α)
    (e : ParseError α) : Prop :=
  ∃ q levels c, rules.Contains g q ∧ Onward start c ∧
    e.IsOwn v (rules.parser levels q).name c ∧ ((rules.parser levels q).run v).Rejects c e

namespace Rules.Blamed

variable {rules : Rules α κ ρ} {g q : Grammar α κ ρ} {v : Verbosity} {start c : Cursor α}
  {e : ParseError α}

/-- Whom a part further on blames, the whole blames. -/
theorem part (hq : q ∈ g.parts) (hc : Onward start c) (h : rules.Blamed q v c e) :
    rules.Blamed g v start e := by
  obtain ⟨found, levels, c', hfound, hc', hown, hreject⟩ := h
  exact ⟨found, levels, c', Reaches.part hq hfound, isPassage_onward.trans hc hc', hown, hreject⟩

theorem rule {label : String} {rule : ρ} (h : rules.Blamed (rules rule) v start e) :
    rules.Blamed (.defer label rule) v start e := by
  obtain ⟨found, levels, c, hfound, hc, hown, hreject⟩ := h
  exact ⟨found, levels, c, Reaches.rule hfound, hc, hown, hreject⟩

end Rules.Blamed

/-- Every failure of a grammar without functions is blamed on a parser inside it. -/
theorem Rules.blamed_of_rejects (rules : Rules α κ ρ) {levels : Nat} {g : Grammar α κ ρ}
    (hg : rules.FuncFree g) {v : Verbosity} {start : Cursor α} {e : ParseError α}
    (he : ((rules.parser levels g).run v).Rejects start e) : rules.Blamed g v start e := by
  induction levels, g using Rules.induct_parts rules generalizing start e with
  | step levels g ihParts ihRule =>
    have hparts : ∀ q ∈ g.heard, ((rules.parser levels q).run v).Keeps Onward := by
      intro q hq
      exact (hg.part (Grammar.mem_parts_of_mem_heard hq)).keeps isPassage_onward v
    cases rules.origin isPassage_onward hparts he with
    | own hown => exact ⟨g, levels, start, Reaches.self g, isPassage_onward.refl start, hown, he⟩
    | @part q c hq hc hreject =>
      have hq' := Grammar.mem_parts_of_mem_heard hq
      exact Blamed.part hq' hc (ihParts q hq' (hg.part hq') hreject)
    | @rule label rule below hdefer hlevels hreject =>
      subst hdefer
      exact Blamed.rule (ihRule label rule below rfl hlevels hg.rule hreject)
    | func hfunc _ =>
      subst hfunc
      exact absurd hg (not_funcFree_func _)

/-- **A verbose failure is reproduced by whom it names, where it says.**  If a grammar without
functions fails verbosely, then the error is an expectation or a failed conversion; its place lies
in the input, no earlier than the start; and there is a parser in the grammar, at any depth and
through any references, which has the name that the error gives and which, run at that place,
fails with the same error. -/
theorem Rules.verbose_failure_is_reproduced (rules : Rules α κ ρ) (g : Grammar α κ ρ)
    (hg : rules.FuncFree g) (input : List α) (count : Nat) (e : ParseError α)
    (he : rules.Yields g .verbose ((Cursor.new input).advance count) (.error e)) :
    ∃ name loc, (e = .expected name loc ∨ ∃ fault, e = .conversion name loc fault) ∧
      loc.source = input ∧
      ((Cursor.new input).advance count).position ≤ loc.position ∧
      loc.position ≤ input.length ∧
      ∃ q, rules.Contains g q ∧ (∀ levels, (rules.parser levels q).name = name) ∧
        rules.Yields q .verbose ((Cursor.new input).advance loc.position) (.error e) := by
  obtain ⟨levels, he⟩ := he
  obtain ⟨q, n, c, hq, hc, hown, hreject⟩ := rules.blamed_of_rejects hg he
  have hsource : c.source = input := by
    rw [hc.source_eq, Cursor.source_advance, Cursor.source_new]
  have hplace : c = (Cursor.new input).advance c.position := by
    rw [← hsource]
    exact (hc.wellFormed (Cursor.wellFormed_advance_new input count)).eq_advance
  refine ⟨(rules.parser n q).name, c.loc, ?_, hsource, hc.position_le, ?_, q, hq, ?_, n, ?_⟩
  · cases hown with
    | mismatch => exact Or.inl rfl
    | relabelled => exact Or.inl rfl
    | unconverted fault => exact Or.inr ⟨fault, rfl⟩
  · rw [← hsource]
    exact c.position_le
  · exact fun levels => q.name_parser levels n (rules.run levels) (rules.run n)
  · show ((rules.parser n q).run .verbose ((Cursor.new input).advance c.position)).result? = _
    rw [← hplace]
    exact hreject

/-- Lists of at least two items; an item is a `b`, possibly with a list in parentheses behind it. -/
def Rules.nestedItems : Rules Char Unit Unit := fun _ =>
  .separated ⟨2, none⟩
    (.pair (.tag "B" ['b'])
      (.orDefault .absent
        (.delimited (.tag "OPEN" ['(']) (.defer "ITEMS" ()) (.tag "CLOSE" [')']))))
    (.tag "COMMA" [','])

/-- In `xb;`, read from the `b` on, the delimiter is to blame, at the semicolon. -/
theorem Rules.nestedItems_delimiter_is_reproduced :
    nestedItems.FuncFree (.defer "ITEMS" ()) ∧
      nestedItems.Yields (.defer "ITEMS" ()) .verbose ((Cursor.new ['x', 'b', ';']).advance 1)
        (.error (.expected "COMMA" ⟨['x', 'b', ';'], 2⟩)) ∧
      ∃ q, nestedItems.Contains (.defer "ITEMS" ()) q ∧
        (∀ levels, (nestedItems.parser levels q).name = "COMMA") ∧
        nestedItems.Yields q .verbose ((Cursor.new ['x', 'b', ';']).advance 2)
          (.error (.expected "COMMA" ⟨['x', 'b', ';'], 2⟩)) := by
  have hfree : nestedItems.FuncFree (.defer "ITEMS" ()) :=
    funcFree_of_hasFunc rfl fun _ => rfl
  have hfails : nestedItems.Yields (.defer "ITEMS" ()) .verbose
      ((Cursor.new ['x', 'b', ';']).advance 1)
      (.error (.expected "COMMA" ⟨['x', 'b', ';'], 2⟩)) := ⟨2, rfl⟩
  obtain ⟨name, loc, he, -, -, -, q, hq, hname, hreproduced⟩ :=
    nestedItems.verbose_failure_is_reproduced _ hfree _ _ _ hfails
  rcases he with he | ⟨fault, he⟩
  · obtain ⟨rfl, rfl⟩ := ParseError.expected.inj he
    exact ⟨hfree, hfails, q, hq, hname, hreproduced⟩
  · exact absurd he (by simp)

end Descent
