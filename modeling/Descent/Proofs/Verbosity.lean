import Descent.Proofs.Beside
import Descent.Proofs.Passage

/-!
# What verbosity changes

A terse and a verbose parse of one grammar from one cursor run side by side.  They differ in two
ways only: a verbose mismatch names what was expected where a terse one says nothing, and a choice
that failed reports so when it is verbose.  Nothing that decides how a parse goes on depends on
either, so both succeed alike or fail for the same reason (`verbosity_keeps_outcome`).

Choices and optional parts run their parts tersely in both parses.  The functions below them
therefore need no assumption; those which a caller can hear of must themselves keep their outcome
when the verbosity changes (`KeepsOutcome`).

How much the events may differ is a parameter (`EventTiers`), so that the same induction serves
outcomes, where it does not matter, and reports, where it does.
-/

namespace Descent

variable {α β κ ρ : Type}

/-- The same failure, told tersely and told verbosely. -/
inductive ParseError.SameFailure : ParseError α → ParseError α → Prop
  /-- A mismatch is named by the verbose parse only. -/
  | mismatch (name : String) (loc : Location α) : SameFailure .invalidInput (.expected name loc)
  /-- A failed conversion is told in full by both. -/
  | conversion (name : String) (loc : Location α) (fault : Fault) :
    SameFailure (.conversion name loc fault) (.conversion name loc fault)

open ParseError (SameFailure)

theorem ParseError.SameFailure.relabelled {e e' : ParseError α} (h : SameFailure e e')
    (label : String) (c : Cursor α) :
    SameFailure (e.relabelled label c) (e'.relabelled label c) := by
  cases h with
  | mismatch name loc => exact SameFailure.mismatch label c.loc
  | conversion name loc fault => exact SameFailure.conversion name loc fault

theorem ParseError.SameFailure.of_mismatch (name : String) (c : Cursor α) :
    SameFailure (.mismatch .terse name c) (.mismatch .verbose name c) :=
  SameFailure.mismatch name c.loc

/-- How what a terse parse reports may compare with what a verbose one reports.  The verbose one
has reports of failed choices besides. -/
structure EventTiers where
  related : List Event → List Event → Prop
  nil : related [] []
  append : ∀ {earlier earlier' later later' : List Event}, related earlier earlier' →
    related later later' → related (earlier ++ later) (earlier' ++ later')
  same : ∀ event, (∀ count position expected, event ≠ .exhausted count position expected) →
    related [event] [event]
  exhausted : ∀ count position expected, related [] [.exhausted count position expected]

/-- Reports that compare in any way. -/
def EventTiers.any : EventTiers where
  related _ _ := True
  nil := trivial
  append _ _ := trivial
  same _ _ := trivial
  exhausted _ _ _ := trivial

/-- The comparison of a terse with a verbose parse, as far as both come to an end. -/
def tiers (α : Type) (E : EventTiers) : Simulation α α where
  cursor := Eq
  events := E.related
  lossy := True
  events_nil := E.nil
  events_append := E.append
  still := Cursor.still_of_eq
  room := fun _ => Or.inl trivial

variable {E : EventTiers}

/-- With any reports allowed, every step compares with itself. -/
theorem tiers_refl (s : Step α β) : (tiers α .any).Steps Eq Eq s s := by
  rintro c _ rfl
  rcases s c with ⟨events, e | y⟩ | _
  · exact ⟨trivial, Agree.error rfl⟩
  · exact ⟨trivial, Agree.ok ⟨rfl, rfl⟩⟩
  · trivial

theorem beside_tiers : (tiers α E).Beside SameFailure Eq .terse .verbose where
  cursor := rfl
  mismatch := by
    rintro name _ rfl c
    exact SameFailure.of_mismatch name c
  conversion := by
    rintro name _ rfl loc fault
    exact SameFailure.conversion name loc fault
  relabelled := by
    rintro label _ rfl c e e' he
    exact he.relabelled label c
  tooFew := by
    rintro name _ rfl found least position
    exact E.same _ (by simp)
  unconverted := by
    rintro name _ rfl reason
    exact E.same _ (by simp)
  leftover := by
    rintro name _ rfl position length
    exact E.same _ (by simp)

theorem tiers_tag [DecidableEq α] {name : String} (literal : List α) :
    (tiers α E).Steps SameFailure Eq ((Parser.tag name literal).run .terse)
      ((Parser.tag name literal).run .verbose) :=
  beside_tiers.steps_tag rfl literal

theorem runs_exhausted {c : Cursor α} (ps : List (Parser α β)) :
    (tiers α E).Runs SameFailure ((tiers α E).Output (Eq : β → β → Prop))
      (Parser.exhausted ps .terse c) (Parser.exhausted ps .verbose c) :=
  ⟨E.exhausted _ _ _, Agree.error (SameFailure.mismatch _ _)⟩

/-! ## Functions -/

/-- Where the step returns at both verbosities, it succeeds alike or fails for the same reason. -/
def KeepsOutcome (run : Verbosity → Step α β) : Prop :=
  ∀ c r r', (run .terse c).result? = some r → (run .verbose c).result? = some r' →
    Agree SameFailure Eq r r'

theorem keepsOutcome_iff {run : Verbosity → Step α β} :
    KeepsOutcome run ↔ (tiers α .any).Steps SameFailure Eq (run .terse) (run .verbose) := by
  constructor
  · rintro h c _ rfl
    rcases hterse : run .terse c with ⟨events, r⟩ | _
    · rcases hverbose : run .verbose c with ⟨events', r'⟩ | _
      · have hagree : Agree SameFailure Eq r r' :=
          h c r r' (by rw [hterse, Run.result?_finished]) (by rw [hverbose, Run.result?_finished])
        refine ⟨trivial, hagree.imp (fun _ _ he => he) ?_⟩
        rintro y _ rfl
        exact ⟨rfl, rfl⟩
      · trivial
    · trivial
  · intro h c r r' hr hr'
    exact ((h c c rfl).agree hr hr').imp (fun _ _ he => he) fun _ _ hy => Prod.ext hy.1 hy.2

/-! ## Grammars -/

variable [DecidableEq α] {rules : Rules α κ ρ} {g q : Grammar α κ ρ}

/-- What has to be known of the parts of a grammar that are not compared by their structure. -/
structure Rules.Tiered (rules : Rules α κ ρ) (E : EventTiers) (g : Grammar α κ ρ) : Prop where
  /-- The functions that a caller can hear of stay together. -/
  func : ∀ run, rules.Exposes g (.func run) →
    (tiers α E).Steps SameFailure Eq (run .terse) (run .verbose)
  /-- A terse parse compares with itself; so run the parts of choices. -/
  terse : ∀ levels q, rules.Contains g q →
    (tiers α E).Steps Eq Eq ((rules.parser levels q).run .terse) ((rules.parser levels q).run .terse)

namespace Rules.Tiered

theorem part (h : rules.Tiered E g) (hq : q ∈ g.heard) : rules.Tiered E q where
  func run hrun := h.func run (Reaches.part hq hrun)
  terse levels q' hq' :=
    h.terse levels q' (Reaches.part (Grammar.mem_parts_of_mem_heard hq) hq')

theorem rule {label : String} {rule : ρ} (h : rules.Tiered E (.defer label rule)) :
    rules.Tiered E (rules rule) where
  func run hrun := h.func run (Reaches.rule hrun)
  terse levels q hq := h.terse levels q (Reaches.rule hq)

/-- A part that a caller cannot hear of runs tersely in both parses. -/
theorem hidden (h : rules.Tiered E g) (hq : q ∈ g.parts) (levels : Nat) :
    (tiers α E).Steps Eq Eq ((rules.parser levels q).run .terse)
      ((rules.parser levels q).run .terse) :=
  h.terse levels q (Reaches.part hq (Reaches.self q))

end Rules.Tiered

/-- **Side by side, the two parses stay together.** -/
theorem Rules.steps_tiers (rules : Rules α κ ρ) (levels : Nat) (g : Grammar α κ ρ)
    (hg : rules.Tiered E g) :
    (tiers α E).Steps SameFailure Eq ((rules.parser levels g).run .terse)
      ((rules.parser levels g).run .verbose) := by
  induction levels, g using Rules.induct_parts rules with
  | step levels g ihParts ihRule =>
    refine rules.steps_of_parts beside_tiers ?_ (fun q hq => hg.hidden hq levels) ?_ ?_ ?_
    · exact fun q hq => ihParts q (Grammar.mem_parts_of_mem_heard hq) (hg.part hq)
    · exact fun alternatives _ c => runs_exhausted _
    · rintro label rule below rfl rfl
      exact ihRule label rule below rfl rfl hg.rule
    · rintro run rfl
      exact hg.func run (Reaches.self _)

/-! ## Outcomes -/

/-- No parser finds that input is left over; that is for its caller to find. -/
theorem Rules.not_rejects_trailingInput (rules : Rules α κ ρ) (levels : Nat) (g : Grammar α κ ρ)
    {v : Verbosity} (hfunc : ∀ run, rules.Exposes g (.func run) →
      ∀ c loc, ¬ Step.Rejects (run v) c (.trailingInput loc)) (c : Cursor α) (loc : Location α) :
    ¬ ((rules.parser levels g).run v).Rejects c (.trailingInput loc) := by
  intro he
  induction levels, g using Rules.induct_parts rules generalizing c with
  | step levels g ihParts ihRule =>
    -- Where the parts lead does not matter here, so any passage will do.
    have hanywhere : IsPassage fun _ _ : Cursor α => True :=
      ⟨fun _ => trivial, fun _ _ => trivial, fun _ _ => trivial⟩
    cases rules.origin hanywhere (fun q _ c x next _ => trivial) he with
    | own hown => exact hown.ne_trailingInput loc rfl
    | @part q c' hq _ hreject =>
      exact ihParts q (Grammar.mem_parts_of_mem_heard hq)
        (fun run hrun => hfunc run (Reaches.part hq hrun)) c' hreject
    | @rule label rule below hdefer hlevels hreject =>
      subst hdefer
      exact ihRule label rule below rfl hlevels (fun run hrun => hfunc run (Reaches.rule hrun)) c
        hreject
    | @func run hg hreject =>
      subst hg
      exact hfunc run (Reaches.self _) c loc hreject

/-- **Verbosity never changes the outcome.**  If a grammar comes to a result both tersely and
verbosely, then both are the same success, or the terse one is a mismatch that the verbose one
names, or both are the same failed conversion.  Of the functions in the grammar only those outside
choices and optional parts have to keep their outcome.  And as long as they do not do so
themselves, no grammar complains of input that is left over. -/
theorem Rules.verbosity_keeps_outcome (rules : Rules α κ ρ) (g : Grammar α κ ρ) :
    ((∀ run, rules.Exposes g (.func run) → KeepsOutcome run) →
      ∀ c r r', rules.Yields g .terse c r → rules.Yields g .verbose c r' →
        Agree SameFailure Eq r r') ∧
    ∀ v, (∀ run, rules.Exposes g (.func run) →
        ∀ c loc, ¬ Step.Rejects (run v) c (.trailingInput loc)) →
      ∀ c loc, ¬ rules.Yields g v c (.error (.trailingInput loc)) := by
  constructor
  · intro hfunc c r r' hr hr'
    obtain ⟨levels, hr, hr'⟩ := hr.common hr'
    have htiered : rules.Tiered .any g :=
      ⟨fun run hrun => keepsOutcome_iff.mp (hfunc run hrun), fun _ _ _ => tiers_refl _⟩
    exact keepsOutcome_iff.mpr (rules.steps_tiers levels g htiered) c r r' hr hr'
  · rintro v hfunc c loc ⟨levels, he⟩
    exact rules.not_rejects_trailingInput levels g hfunc c loc he

/-- An optional part whose function succeeds only when it is asked to say nothing, and behind it an
`a`, read by a function that says what it expected. -/
def Rules.moody : Rules Char Unit Unit := fun _ =>
  .pair
    (.orDefault .absent (.func fun v c =>
      match v with
      | .terse => pure (.unit, c)
      | .verbose => .fail (.trailingInput c.loc)))
    (.func fun v => ((Parser.tag "A" ['a']).map .span).run v)

/-- The function of the optional part breaks both conditions, but nobody hears of it. -/
theorem Rules.moody_keeps_outcome :
    (∀ run, moody.Exposes (.defer "ENTRY" ()) (.func run) → KeepsOutcome run) ∧
      moody.Yields (.defer "ENTRY" ()) .terse (Cursor.new ['b']) (.error .invalidInput) ∧
      moody.Yields (.defer "ENTRY" ()) .verbose (Cursor.new ['b'])
        (.error (.expected "A" ⟨['b'], 0⟩)) ∧
      Agree SameFailure (Eq (α := Tree Char Unit × Cursor Char)) (.error .invalidInput)
        (.error (.expected "A" ⟨['b'], 0⟩)) ∧
      ∀ c loc, ¬ moody.Yields (.defer "ENTRY" ()) .verbose c (.error (.trailingInput loc)) := by
  have hexposed : ∀ run, moody.Exposes (.defer "ENTRY" ()) (.func run) →
      run = fun v => ((Parser.tag "A" ['a']).map .span).run v := by
    intro run h
    have hpair : moody.Reaches Grammar.heard (moody ()) (.func run) := by
      cases h with
      | part hq => exact absurd hq List.not_mem_nil
      | rule h => exact h
    unfold moody at hpair
    cases hpair with
    | part hq h =>
      rcases List.mem_pair.mp hq with rfl | rfl
      · cases h with
        | part hq => exact absurd hq List.not_mem_nil
      · cases h with
        | self => rfl
        | part hq => exact absurd hq List.not_mem_nil
  have hkeeps : ∀ run, moody.Exposes (.defer "ENTRY" ()) (.func run) → KeepsOutcome run := by
    intro run hrun
    rw [hexposed run hrun]
    exact keepsOutcome_iff.mpr
      (Simulation.steps_map (tiers_tag ['a']) fun _ _ => congrArg Tree.span)
  have htrailing : ∀ run, moody.Exposes (.defer "ENTRY" ()) (.func run) →
      ∀ c loc, ¬ Step.Rejects (run .verbose) c (.trailingInput loc) := by
    intro run hrun c loc he
    rw [hexposed run hrun] at he
    exact absurd (Parser.rejects_tag.mp (Parser.rejects_map.mp he)).2 (by simp)
  have hterse : moody.Yields (.defer "ENTRY" ()) .terse (Cursor.new ['b'])
      (.error .invalidInput) := ⟨1, rfl⟩
  have hverbose : moody.Yields (.defer "ENTRY" ()) .verbose (Cursor.new ['b'])
      (.error (.expected "A" ⟨['b'], 0⟩)) := ⟨1, rfl⟩
  have hall := moody.verbosity_keeps_outcome (.defer "ENTRY" ())
  exact ⟨hkeeps, hterse, hverbose, hall.1 hkeeps _ _ _ hterse hverbose, hall.2 .verbose htrailing⟩

end Descent
