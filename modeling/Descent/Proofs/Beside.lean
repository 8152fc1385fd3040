import Descent.Proofs.Parts

/-!
# Two parses from one cursor

Two parses of the same input from the same cursor may differ in verbosity, and in the names that
their parsers have.  They can be compared in many ways: by results, by reports, by what every report
says.  For each of them it is enough to say how mismatches and failed conversions compare, what
labels do to errors, and what is allowed of reports (`Simulation.Beside`); then leaves compare, and
combinators compare as their parts do.

A grammar beside itself compares as its parts and its rule do (`Rules.steps_of_parts`).  The parts
of choices and optional parts are run tersely in both parses, so they need only compare with
themselves, and how their errors compare does not matter.
-/

namespace Descent

variable {α β γ κ ρ : Type}

/-- A comparison that fits two parses from one cursor, at the two verbosities, whose parsers have
names that are the same as far as the comparison goes. -/
structure Simulation.Beside (S : Simulation α α) (Re : ParseError α → ParseError α → Prop)
    (same : String → String → Prop) (v v' : Verbosity) : Prop where
  cursor : S.cursor = Eq
  mismatch : ∀ {name name'}, same name name' → ∀ c,
    Re (.mismatch v name c) (.mismatch v' name' c)
  conversion : ∀ {name name'}, same name name' → ∀ loc fault,
    Re (.conversion name loc fault) (.conversion name' loc fault)
  relabelled : ∀ {label label'}, same label label' → ∀ c {e e' : ParseError α}, Re e e' →
    Re (e.relabelled label c) (e'.relabelled label' c)
  tooFew : ∀ {name name'}, same name name' → ∀ found least position,
    S.events [.tooFew name found least position] [.tooFew name' found least position]
  unconverted : ∀ {name name'}, same name name' → ∀ reason,
    S.events [.unconverted name reason] [.unconverted name' reason]
  leftover : ∀ {name name'}, same name name' → ∀ position length,
    S.events [.leftover name position length] [.leftover name' position length]

namespace Simulation.Beside

variable {S : Simulation α α} {Re : ParseError α → ParseError α → Prop}
  {same : String → String → Prop} {v v' : Verbosity} {name name' : String} {c c' next : Cursor α}
  (h : S.Beside Re same v v')

include h

theorem eq_of_cursor (hc : S.cursor c c') : c = c' := by
  rw [h.cursor] at hc
  exact hc

theorem cursor_refl (c : Cursor α) : S.cursor c c := by
  rw [h.cursor]

/-! ## Leaves -/

theorem runs_mismatch (hname : same name name') :
    S.Runs Re (S.Output (Eq : β → β → Prop)) (.fail (.mismatch v name c))
      (.fail (.mismatch v' name' c)) :=
  Simulation.runs_fail (h.mismatch hname c)

theorem runs_success (x : β) :
    S.Runs Re (S.Output (Eq : β → β → Prop)) (pure (x, next)) (pure (x, next)) :=
  Simulation.runs_pure ⟨rfl, h.cursor_refl next⟩

theorem steps_tag [DecidableEq α] (hname : same name name') (literal : List α) :
    S.Steps Re Eq ((Parser.tag name literal).run v) ((Parser.tag name' literal).run v') := by
  intro c c' hc
  obtain rfl := h.eq_of_cursor hc
  unfold Parser.tag
  dsimp only
  split
  · exact h.runs_success _
  · exact h.runs_mismatch hname

theorem steps_takeSingle (hname : same name name') (test : α → Bool) :
    S.Steps Re Eq ((Parser.takeSingle name test).run v)
      ((Parser.takeSingle name' test).run v') := by
  intro c c' hc
  obtain rfl := h.eq_of_cursor hc
  unfold Parser.takeSingle
  dsimp only
  split
  · split
    · exact h.runs_success _
    · exact h.runs_mismatch hname
  · exact h.runs_mismatch hname

theorem steps_takeWhile (hname : same name name') (test : α → Bool) :
    S.Steps Re Eq ((Parser.takeWhile name test).run v)
      ((Parser.takeWhile name' test).run v') := by
  intro c c' hc
  obtain rfl := h.eq_of_cursor hc
  unfold Parser.takeWhile
  dsimp only
  split
  · exact h.runs_mismatch hname
  · exact h.runs_success _

theorem steps_nothing :
    S.Steps Re Eq ((Parser.nothing : Parser α Unit).run v)
      ((Parser.nothing : Parser α Unit).run v') := by
  intro c c' hc
  obtain rfl := h.eq_of_cursor hc
  exact h.runs_success ()

/-! ## Parsers of parsers -/

variable {p p' : Parser α β} {d d' : Parser α γ}

theorem steps_convert {δ : Type} (hname : same p.name p'.name) (f : β → Except Fault δ)
    (hp : S.Steps Re Eq (p.run v) (p'.run v')) :
    S.Steps Re Eq ((p.convert f).run v) ((p'.convert f).run v') := by
  refine Simulation.steps_convert hp ?_
  intro c c' next next' x x' hc hnext hx
  obtain rfl := h.eq_of_cursor hc
  obtain rfl := h.eq_of_cursor hnext
  rw [hx]
  rcases f x' with fault | y
  · rw [Parser.converted, Parser.converted, Run.emit_bind, Run.emit_bind]
    exact (Simulation.runs_fail (h.conversion hname c.loc fault)).after (h.unconverted hname _)
  · exact h.runs_success y

theorem steps_named {label label' : String} (hlabel : same label label')
    (hp : S.Steps Re Eq (p.run v) (p'.run v')) :
    S.Steps Re Eq ((p.named label).run v) ((p'.named label').run v') := by
  refine Simulation.steps_named hp ?_
  intro c c' e e' hc he
  obtain rfl := h.eq_of_cursor hc
  exact h.relabelled hlabel c he

theorem steps_matchOnly (hp : S.Steps Re Eq (p.run v) (p'.run v')) :
    S.Steps Re Eq (p.matchOnly.run v) (p'.matchOnly.run v') := by
  refine Simulation.steps_matchOnly hp ?_
  intro c c' next next' hc hnext
  rw [h.eq_of_cursor hc, h.eq_of_cursor hnext]

theorem steps_listOf (hname : same name name') (hp : S.Steps Re Eq (p.run v) (p'.run v'))
    (hd : S.Steps Re Eq (d.run v) (d'.run v')) {spare spare' : Nat}
    (hspare : S.lossy ∨ spare ≤ spare') (bounds : Bounds) :
    S.Steps Re (List.Forall₂ Eq) ((Parser.listOf name spare bounds p d).run v)
      ((Parser.listOf name' spare' bounds p' d').run v') := by
  refine Simulation.steps_listOf hp hd hspare ?_ ?_
  · intro c c' found hc
    obtain rfl := h.eq_of_cursor hc
    exact h.tooFew hname found bounds.least c.position
  · intro c c' hc
    obtain rfl := h.eq_of_cursor hc
    exact h.mismatch hname c

/-- Parsers that compare do so on whole inputs, as far as reports and outputs go. -/
theorem runs_parseComplete (hname : same p.name p'.name)
    (hp : S.Steps Re Eq (p.run v) (p'.run v')) (input : List α) :
    S.Runs (fun _ _ => True) Eq (p.parseComplete v input) (p'.parseComplete v' input) := by
  have hrun := hp _ _ (h.cursor_refl (Cursor.new input))
  refine Simulation.Runs.bind (hrun.imp fun _ _ _ => trivial) ?_
  rintro ⟨x, next⟩ ⟨x', next'⟩ ⟨hx, hnext⟩
  obtain rfl : x = x' := hx
  obtain rfl := h.eq_of_cursor hnext
  dsimp only
  by_cases hend : next.isEnd = true
  · rw [if_pos hend, if_pos hend]
    exact Simulation.runs_pure rfl
  · rw [if_neg hend, if_neg hend, Run.emit_bind, Run.emit_bind]
    exact (Simulation.runs_fail trivial).after (h.leftover hname _ _)

end Simulation.Beside

/-! ## A grammar beside itself -/

variable [DecidableEq α]

/-- **A grammar compares with itself as its parts do.**  Besides its parts, its rule if it is a
reference, and its function if it is one, only what a choice says when all alternatives have failed
is left to compare. -/
theorem Rules.steps_of_parts (rules : Rules α κ ρ) {S : Simulation α α}
    {Re Se : ParseError α → ParseError α → Prop} {v v' : Verbosity} (h : S.Beside Re Eq v v')
    {levels : Nat} {g : Grammar α κ ρ}
    (hheard : ∀ q ∈ g.heard,
      S.Steps Re Eq ((rules.parser levels q).run v) ((rules.parser levels q).run v'))
    (hhidden : ∀ q ∈ g.parts,
      S.Steps Se Eq ((rules.parser levels q).run .terse) ((rules.parser levels q).run .terse))
    (hexhausted : ∀ alternatives, g = .choice alternatives → ∀ c,
      S.Runs Re (S.Output Eq) (Parser.exhausted (alternatives.map (rules.parser levels)) v c)
        (Parser.exhausted (alternatives.map (rules.parser levels)) v' c))
    (hrule : ∀ label rule below, g = .defer label rule → levels = below + 1 →
      S.Steps Re Eq ((rules.parser below (rules rule)).run v)
        ((rules.parser below (rules rule)).run v'))
    (hfunc : ∀ run, g = .func run → S.Steps Re Eq (run v) (run v')) :
    S.Steps Re Eq ((rules.parser levels g).run v) ((rules.parser levels g).run v') := by
  have hspare : S.lossy ∨ levels ≤ levels := Or.inr (Nat.le_refl levels)
  cases g with
  | tag name literal =>
    rw [parser_tag]
    exact Simulation.steps_map (h.steps_tag rfl literal) fun _ _ => congrArg Tree.span
  | single name cls =>
    rw [parser_single]
    exact Simulation.steps_map (h.steps_takeSingle rfl cls.accepts) fun _ _ => congrArg Tree.elem
  | munch name cls =>
    rw [parser_munch]
    exact Simulation.steps_map (h.steps_takeWhile rfl cls.accepts) fun _ _ => congrArg Tree.span
  | nothing =>
    rw [parser_nothing]
    exact Simulation.steps_map h.steps_nothing fun _ _ _ => rfl
  | sequence parts =>
    rw [parser_sequence]
    have hparts := Simulation.steps_sequence (forall₂_map_of_forall_mem hheard)
    exact Simulation.steps_map hparts fun _ _ => Tree.list_congr
  | choice alternatives =>
    rw [parser_choice]
    refine Simulation.steps_choice (forall₂_map_of_forall_mem hhidden) ?_
    intro c c' hc
    obtain rfl := h.eq_of_cursor hc
    exact hexhausted alternatives rfl c
  | pair first second =>
    rw [parser_pair]
    have hfirst := hheard first (by simp)
    have hsecond := hheard second (by simp)
    exact Simulation.steps_map (Simulation.steps_pair hfirst hsecond)
      fun _ _ h => by rw [Prod.ext h.1 h.2]
  | delimited before body behind =>
    rw [parser_delimited]
    have hbefore := hheard before (by simp)
    have hbody := hheard body (by simp)
    have hbehind := hheard behind (by simp)
    exact Simulation.steps_delimited hbefore hbody hbehind
  | orDefault fallback body =>
    rw [parser_orDefault]
    exact Simulation.steps_orDefault (hhidden body (by simp)) rfl
  | repeated bounds body =>
    rw [parser_repeated]
    have hbody := hheard body (by simp)
    exact Simulation.steps_map (h.steps_listOf rfl hbody h.steps_nothing hspare bounds)
      fun _ _ => Tree.list_congr
  | separated bounds body delimiter =>
    rw [parser_separated]
    have hbody := hheard body (by simp)
    have hdelimiter := hheard delimiter (by simp)
    exact Simulation.steps_map (h.steps_listOf rfl hbody hdelimiter hspare bounds)
      fun _ _ => Tree.list_congr
  | named label body =>
    rw [parser_named]
    exact h.steps_named rfl (hheard body (by simp))
  | convert body f =>
    rw [parser_convert]
    exact h.steps_convert rfl f (hheard body (by simp))
  | mapEach body f =>
    rw [parser_mapEach]
    have hentries := Simulation.steps_map (hheard body (by simp)) fun _ _ => congrArg Tree.entries
    exact Simulation.steps_map (h.steps_convert rfl _ hentries) fun _ _ => congrArg Tree.list
  | replace value body =>
    rw [parser_replace]
    exact Simulation.steps_map (hheard body (by simp)) fun _ _ _ => rfl
  | matchOnly body =>
    rw [parser_matchOnly]
    exact Simulation.steps_map (h.steps_matchOnly (hheard body (by simp)))
      fun _ _ => congrArg Tree.span
  | defer label rule =>
    rcases levels with _ | below
    · exact fun c c' _ => trivial
    · rw [parser_defer_succ]
      exact hrule label rule below rfl rfl
  | func run =>
    rw [parser_func]
    exact hfunc run rfl

end Descent
