import Descent.Proofs.Verbosity

/-!
# What a parse reports

The reports of a parse are a log of everything it visits, including attempts whose failures are
later dropped.  Only a choice looks at the verbosity before it reports: a verbose choice says when
all its alternatives have failed, a terse one does not.  Since choices and optional parts run their
parts tersely, no choice below them ever reports.

* `Rules.LogTiers` says how the log of a verbose parse differs from that of a terse one, whose
  choices are heard of, and which parts add nothing because they are never run.
* `Rules.FuncFree.logTiers`: all of it holds of grammars without functions.
-/

namespace Descent

variable {α β κ ρ : Type}

/-! ## Runs that come to an end -/

namespace Run

variable {ε ε' γ : Type} {events : List Event}

theorem after_eq_finished {earlier : List Event} {run : Run ε β} {r : Except ε β} :
    run.after earlier = .finished events r ↔
      ∃ later, run = .finished later r ∧ events = earlier ++ later := by
  rcases run with ⟨later, r'⟩ | _
  · rw [after_finished]
    constructor
    · rintro ⟨⟩
      exact ⟨later, rfl, rfl⟩
    · rintro ⟨_, ⟨⟩, rfl⟩
      rfl
  · rw [after_unfinished]
    simp

theorem bind_eq_finished {run : Run ε β} {f : β → Run ε γ} {r : Except ε γ} :
    run >>= f = .finished events r ↔
      (∃ e, run = .finished events (.error e) ∧ r = .error e) ∨
        ∃ earlier x later, run = .finished earlier (.ok x) ∧ f x = .finished later r ∧
          events = earlier ++ later := by
  rcases run with ⟨earlier, e | x⟩ | _
  · rw [finished_error_bind]
    constructor
    · rintro ⟨⟩
      exact Or.inl ⟨e, rfl, rfl⟩
    · rintro (⟨_, ⟨⟩, rfl⟩ | ⟨_, _, _, ⟨⟩, _⟩)
      rfl
  · rw [finished_ok_bind, after_eq_finished]
    constructor
    · rintro ⟨later, hf, hevents⟩
      exact Or.inr ⟨earlier, x, later, rfl, hf, hevents⟩
    · rintro (⟨_, ⟨⟩, _⟩ | ⟨_, _, later, ⟨⟩, hf, hevents⟩)
      exact ⟨later, hf, hevents⟩
  · rw [unfinished_bind]
    simp

theorem attempt_bind_eq_finished {run : Run ε β} {f : Except ε β → Run ε' γ} {r : Except ε' γ} :
    run.attempt >>= f = .finished events r ↔
      ∃ earlier x later, run = .finished earlier x ∧ f x = .finished later r ∧
        events = earlier ++ later := by
  rcases run with ⟨earlier, x⟩ | _
  · rw [attempt_finished, finished_ok_bind, after_eq_finished]
    constructor
    · rintro ⟨later, hf, hevents⟩
      exact ⟨earlier, x, later, rfl, hf, hevents⟩
    · rintro ⟨_, _, later, ⟨⟩, hf, hevents⟩
      exact ⟨later, hf, hevents⟩
  · rw [attempt_unfinished, unfinished_bind]
    simp

end Run

/-! ## Parts that are never run -/

namespace Parser

variable {v : Verbosity} {c : Cursor α} {events : List Event}

/-- A list that fails has run its parsers up to the one that failed. -/
theorem runAll_eq_error {ps : List (Parser α β)} {e : ParseError α}
    (h : runAll v ps c = .finished events (.error e)) :
    ∃ before q behind xs mid earlier later, ps = before ++ q :: behind ∧
      runAll v before c = .finished earlier (.ok (xs, mid)) ∧
      q.run v mid = .finished later (.error e) ∧ events = earlier ++ later := by
  induction ps generalizing c events with
  | nil =>
    rw [runAll_nil, Run.pure_eq] at h
    exact absurd h (by simp)
  | cons p ps ih =>
    rw [runAll_cons, Run.bind_eq_finished] at h
    rcases h with ⟨_, hp, ⟨⟩⟩ | ⟨first, ⟨x, next⟩, rest, hp, hrest, rfl⟩
    · exact ⟨[], p, ps, [], c, [], events, rfl, rfl, hp, rfl⟩
    · rw [Run.bind_eq_finished] at hrest
      rcases hrest with ⟨_, hps, ⟨⟩⟩ | ⟨_, ⟨_, _⟩, _, _, hpure, _⟩
      · obtain ⟨before, q, behind, xs, mid, earlier, later, rfl, hbefore, hq, rfl⟩ := ih hps
        refine ⟨p :: before, q, behind, x :: xs, mid, first ++ earlier, later, rfl, ?_, hq, ?_⟩
        · rw [runAll_cons, hp, Run.finished_ok_bind]
          dsimp only
          rw [hbefore, Run.finished_ok_bind, Run.pure_eq, Run.after_finished, Run.after_finished,
            List.append_nil]
        · rw [List.append_assoc]
      · dsimp only at hpure
        rw [Run.pure_eq] at hpure
        exact absurd hpure (by simp)

/-- Alternatives of which one succeeds have been tried up to that one. -/
theorem firstSuccess_eq_ok_some {ps : List (Parser α β)} {y : β × Cursor α}
    (h : firstSuccess ps c = .finished events (.ok (some y))) :
    ∃ before q behind earlier later, ps = before ++ q :: behind ∧
      firstSuccess before c = .finished earlier (.ok none) ∧
      q.run .terse c = .finished later (.ok y) ∧ events = earlier ++ later := by
  induction ps generalizing events with
  | nil =>
    rw [firstSuccess_nil, Run.pure_eq] at h
    exact absurd h (by simp)
  | cons p ps ih =>
    rw [firstSuccess_cons, Run.attempt_bind_eq_finished] at h
    obtain ⟨first, x, rest, hp, hrest, rfl⟩ := h
    cases x with
    | ok success =>
      obtain ⟨rfl, ⟨⟩⟩ := Run.finished.inj hrest
      exact ⟨[], p, ps, [], first, rfl, rfl, hp, (List.append_nil first)⟩
    | error e =>
      obtain ⟨before, q, behind, earlier, later, rfl, hbefore, hq, rfl⟩ := ih hrest
      refine ⟨p :: before, q, behind, first ++ earlier, later, rfl, ?_, hq, ?_⟩
      · rw [firstSuccess_cons, hp, Run.attempt_finished, Run.finished_ok_bind]
        dsimp only
        rw [hbefore, Run.after_finished]
      · rw [List.append_assoc]

/-- A choice has the log of its alternatives, and its own reports only if none succeeds. -/
theorem choice_eq_finished {ps : List (Parser α β)} {r : Except (ParseError α) (β × Cursor α)}
    (h : (choice ps).run v c = .finished events r) :
    (∃ y, firstSuccess ps c = .finished events (.ok (some y)) ∧ r = .ok y) ∨
      ∃ before later, firstSuccess ps c = .finished before (.ok none) ∧
        exhausted ps v c = .finished later r ∧ events = before ++ later := by
  rw [run_choice, Run.bind_eq_finished] at h
  rcases h with ⟨e, hfirst, -⟩ | ⟨before, found, later, hfirst, hfound, rfl⟩
  · exact absurd (congrArg Run.result? hfirst) firstSuccess_ne_error
  · cases found with
    | none => exact Or.inr ⟨before, later, hfirst, hfound, rfl⟩
    | some y =>
      obtain ⟨rfl, rfl⟩ := Run.finished.inj hfound
      rw [List.append_nil]
      exact Or.inl ⟨y, hfirst, rfl⟩

theorem not_exhausted_eq_ok {ps : List (Parser α β)} {y : β × Cursor α} :
    exhausted ps v c ≠ .finished events (.ok y) := by
  intro h
  have hresult := result?_exhausted ps v c
  rw [h] at hresult
  exact absurd hresult (by simp)

theorem choice_eq_ok {ps : List (Parser α β)} {y : β × Cursor α}
    (h : (choice ps).run v c = .finished events (.ok y)) :
    firstSuccess ps c = .finished events (.ok (some y)) := by
  rcases choice_eq_finished h with ⟨_, hfirst, ⟨⟩⟩ | ⟨_, _, _, hexhausted, _⟩
  · exact hfirst
  · exact absurd hexhausted not_exhausted_eq_ok

end Parser

/-! ## What a choice reports -/

/-- Whether the event is the report of a choice. -/
def Event.ofChoice : Event → Bool
  | .exhausted _ _ _ => true
  | _ => false

theorem Event.ofChoice_eq_false {event : Event}
    (h : ∀ count position expected, event ≠ .exhausted count position expected) :
    event.ofChoice = false := by
  cases event with
  | exhausted count position expected => exact absurd rfl (h count position expected)
  | _ => rfl

/-- A verbose parse reports what a terse one does, and what choices say besides. -/
def EventTiers.besidesChoices : EventTiers where
  related es es' := es'.filter (fun event => !event.ofChoice) = es
  nil := rfl
  append h h' := by rw [List.filter_append, h, h']
  same event h := by
    cases event with
    | exhausted count position expected => exact absurd rfl (h count position expected)
    | _ => rfl
  exhausted _ _ _ := rfl

/-- Every report has a property, as is known of all but those of choices. -/
def EventTiers.every (P : Event → Prop) (hP : ∀ event, event.ofChoice = false → P event) :
    EventTiers where
  related es _ := ∀ event ∈ es, P event
  nil := fun _ h => absurd h List.not_mem_nil
  append h h' := List.forall_mem_append.mpr ⟨h, h'⟩
  same event h := List.forall_mem_singleton.mpr (hP event (Event.ofChoice_eq_false h))
  exhausted _ _ _ := fun _ h => absurd h List.not_mem_nil

section Reporting

variable {P : Event → Prop} {hP : ∀ event, event.ofChoice = false → P event}

theorem beside_every (v : Verbosity) : (tiers α (.every P hP)).Beside Eq Eq v v where
  cursor := rfl
  mismatch hname c := by rw [hname]
  conversion hname loc fault := by rw [hname]
  relabelled hlabel c _ _ he := by rw [hlabel, he]
  tooFew _ _ _ _ := List.forall_mem_singleton.mpr (hP _ rfl)
  unconverted _ _ := List.forall_mem_singleton.mpr (hP _ rfl)
  leftover _ _ _ := List.forall_mem_singleton.mpr (hP _ rfl)

theorem reports_of_runs {Re : ParseError α → ParseError α → Prop} {Rx : β → β → Prop}
    {run : Run (ParseError α) β} {events : List Event} {r : Except (ParseError α) β}
    (h : (tiers α (.every P hP)).Runs Re Rx run run) (hrun : run = .finished events r) :
    ∀ event ∈ events, P event := by
  subst hrun
  exact h.1

end Reporting

namespace Rules

variable [DecidableEq α] {rules : Rules α κ ρ} {g q : Grammar α κ ρ}

/-- What a choice that has failed at a cursor reports if it is verbose. -/
def failureOf (rules : Rules α κ ρ) (alternatives : List (Grammar α κ ρ)) (c : Cursor α) : Event :=
  .exhausted alternatives.length c.position (rules.parser 0 (.choice alternatives)).name

theorem exhausted_verbose (rules : Rules α κ ρ) (alternatives : List (Grammar α κ ρ))
    (levels : Nat) (c : Cursor α) :
    ∃ e, Parser.exhausted (alternatives.map (rules.parser levels)) .verbose c =
      .finished [rules.failureOf alternatives c] (.error e) := by
  have hname : (rules.parser levels (.choice alternatives)).name =
      (rules.parser 0 (.choice alternatives)).name := Grammar.name_parser _ _ _ _ _
  rw [parser_choice] at hname
  refine ⟨.expected (Parser.choice (alternatives.map (rules.parser levels))).name c.loc, ?_⟩
  rw [failureOf, ← hname]
  show Run.finished [.exhausted (alternatives.map (rules.parser levels)).length _ _] _ = _
  rw [List.length_map]

section Reporting

variable {P : Event → Prop} (hP : ∀ event, event.ofChoice = false → P event)

/-- No choice reports in a terse parse. -/
theorem FuncFree.terse_reports (levels : Nat) (hg : rules.FuncFree g) :
    (tiers α (.every P hP)).Steps Eq Eq ((rules.parser levels g).run .terse)
      ((rules.parser levels g).run .terse) := by
  induction levels, g using Rules.induct_parts rules with
  | step levels g ihParts ihRule =>
    have hparts : ∀ q ∈ g.parts, (tiers α (.every P hP)).Steps Eq Eq
        ((rules.parser levels q).run .terse) ((rules.parser levels q).run .terse) :=
      fun q hq => ihParts q hq (hg.part hq)
    refine rules.steps_of_parts (beside_every .terse) ?_ hparts ?_ ?_ ?_
    · exact fun q hq => hparts q (Grammar.mem_parts_of_mem_heard hq)
    · exact fun alternatives _ c => Simulation.runs_fail rfl
    · rintro label rule below rfl rfl
      exact ihRule label rule below rfl rfl hg.rule
    · rintro run rfl
      exact absurd hg (not_funcFree_func run)

/-- Of the choices in a verbose parse only exposed ones report. -/
theorem FuncFree.verbose_reports (levels : Nat) (hg : rules.FuncFree g)
    (hexposed : ∀ alternatives c, rules.Exposes g (.choice alternatives) →
      P (rules.failureOf alternatives c)) :
    (tiers α (.every P hP)).Steps Eq Eq ((rules.parser levels g).run .verbose)
      ((rules.parser levels g).run .verbose) := by
  induction levels, g using Rules.induct_parts rules with
  | step levels g ihParts ihRule =>
    have hheard : ∀ q ∈ g.heard, rules.FuncFree q :=
      fun q hq => hg.part (Grammar.mem_parts_of_mem_heard hq)
    refine rules.steps_of_parts (beside_every .verbose) ?_
      (fun q hq => (hg.part hq).terse_reports hP levels) ?_ ?_ ?_
    · exact fun q hq => ihParts q (Grammar.mem_parts_of_mem_heard hq) (hheard q hq)
        fun alternatives c hchoice => hexposed alternatives c (Reaches.part hq hchoice)
    · rintro alternatives rfl c
      obtain ⟨e, he⟩ := rules.exhausted_verbose alternatives levels c
      rw [he]
      refine ⟨?_, Agree.error rfl⟩
      exact List.forall_mem_singleton.mpr (hexposed alternatives c (Reaches.self _))
    · rintro label rule below rfl rfl
      exact ihRule label rule below rfl rfl hg.rule
        fun alternatives c hchoice => hexposed alternatives c (Reaches.rule hchoice)
    · rintro run rfl
      exact absurd hg (not_funcFree_func run)

end Reporting

/-- Side by side, a verbose parse reports what the terse one does, and what choices say besides. -/
theorem FuncFree.tiered (hg : rules.FuncFree g) : rules.Tiered .besidesChoices g where
  func run hrun := absurd hrun.contains (hg run)
  terse levels q hq := by
    rintro c _ rfl
    have hreports := (hg.found hq).terse_reports (fun _ h => h) levels c c rfl
    rcases hrun : (rules.parser levels q).run .terse c with ⟨events, r⟩ | _
    · rw [hrun] at hreports
      obtain ⟨hsilent, hsame⟩ := hreports
      refine ⟨List.filter_eq_self.mpr fun event hevent => ?_, hsame⟩
      rw [hsilent event hevent]
      rfl
    · trivial

/-! ## Logs -/

/-- With references nesting deep enough, the grammar comes to this result at the cursor and reports
these events on the way. -/
def Logs (rules : Rules α κ ρ) (g : Grammar α κ ρ) (v : Verbosity) (c : Cursor α)
    (events : List Event) (r : Except (ParseError α) (Tree α κ × Cursor α)) : Prop :=
  ∃ levels, (rules.parser levels g).run v c = .finished events r

/-- The same of a parse of a whole input. -/
def LogsComplete (rules : Rules α κ ρ) (g : Grammar α κ ρ) (v : Verbosity) (input : List α)
    (events : List Event) (r : Except (ParseError α) (Tree α κ)) : Prop :=
  ∃ levels, (rules.parser levels g).parseComplete v input = .finished events r

theorem parseComplete_eq_of_le {m n : Nat} (hle : m ≤ n) {v : Verbosity} {input : List α}
    {events : List Event} {r : Except (ParseError α) (Tree α κ)}
    (hr : (rules.parser m g).parseComplete v input = .finished events r) :
    (rules.parser n g).parseComplete v input = .finished events r := by
  have hname : (rules.parser m g).name = (rules.parser n g).name := Grammar.name_parser _ _ _ _ _
  unfold Parser.parseComplete at hr ⊢
  rw [Run.bind_eq_finished] at hr ⊢
  rcases hr with ⟨e, hrun, rfl⟩ | ⟨earlier, y, later, hrun, hend, rfl⟩
  · exact Or.inl ⟨e, run_eq_of_le hle hrun, rfl⟩
  · rw [hname] at hend
    exact Or.inr ⟨earlier, y, later, run_eq_of_le hle hrun, hend, rfl⟩

variable {v v' : Verbosity} {c : Cursor α} {events events' : List Event}
  {r r' : Except (ParseError α) (Tree α κ × Cursor α)}

/-- Two logs are those of parses at a common number of levels. -/
theorem Logs.common {g' : Grammar α κ ρ} (h : rules.Logs g v c events r)
    {c' : Cursor α} (h' : rules.Logs g' v' c' events' r') :
    ∃ levels, (rules.parser levels g).run v c = .finished events r ∧
      (rules.parser levels g').run v' c' = .finished events' r' := by
  obtain ⟨m, hm⟩ := h
  obtain ⟨n, hn⟩ := h'
  exact ⟨max m n, run_eq_of_le (Nat.le_max_left m n) hm, run_eq_of_le (Nat.le_max_right m n) hn⟩

theorem LogsComplete.common {input : List α} {s s' : Except (ParseError α) (Tree α κ)}
    (h : rules.LogsComplete g v input events s) (h' : rules.LogsComplete g v' input events' s') :
    ∃ levels, (rules.parser levels g).parseComplete v input = .finished events s ∧
      (rules.parser levels g).parseComplete v' input = .finished events' s' := by
  obtain ⟨m, hm⟩ := h
  obtain ⟨n, hn⟩ := h'
  exact ⟨max m n, parseComplete_eq_of_le (Nat.le_max_left m n) hm,
    parseComplete_eq_of_le (Nat.le_max_right m n) hn⟩

/-- How the logs of a grammar, and of what is inside it, depend on the verbosity. -/
structure LogTiers (rules : Rules α κ ρ) (g : Grammar α κ ρ) : Prop where
  /-- Take from a verbose log the reports of choices, and the terse log is left. -/
  parse : ∀ c events events' r r', rules.Logs g .terse c events r →
    rules.Logs g .verbose c events' r' →
      events'.filter (fun event => !event.ofChoice) = events
  /-- So it is when the whole input has to be read. -/
  complete : ∀ input events events' r r', rules.LogsComplete g .terse input events r →
    rules.LogsComplete g .verbose input events' r' →
      events'.filter (fun event => !event.ofChoice) = events
  /-- No choice reports in a terse log. -/
  terse : ∀ c events r, rules.Logs g .terse c events r →
    ∀ event ∈ events, event.ofChoice = false
  terseComplete : ∀ input events r, rules.LogsComplete g .terse input events r →
    ∀ event ∈ events, event.ofChoice = false
  /-- A choice that reports in a verbose log is one that can be heard of. -/
  verbose : ∀ c events r, rules.Logs g .verbose c events r →
    ∀ event ∈ events, event.ofChoice = true → ∃ alternatives c',
      rules.Exposes g (.choice alternatives) ∧ event = rules.failureOf alternatives c'
  verboseComplete : ∀ input events r, rules.LogsComplete g .verbose input events r →
    ∀ event ∈ events, event.ofChoice = true → ∃ alternatives c',
      rules.Exposes g (.choice alternatives) ∧ event = rules.failureOf alternatives c'
  /-- A verbose choice that fails adds its own report, and no choice below it reports. -/
  failingChoice : ∀ alternatives, rules.Contains g (.choice alternatives) → ∀ c events e,
    rules.Logs (.choice alternatives) .verbose c events (.error e) →
      ∃ before, events = before ++ [rules.failureOf alternatives c] ∧
        ∀ event ∈ before, event.ofChoice = false
  /-- Of a verbose choice that succeeds, neither it nor a choice below it reports. -/
  succeedingChoice : ∀ alternatives, rules.Contains g (.choice alternatives) → ∀ c events y,
    rules.Logs (.choice alternatives) .verbose c events (.ok y) →
      ∀ event ∈ events, event.ofChoice = false
  /-- No choice below an optional part reports. -/
  optional : ∀ fallback body, rules.Contains g (.orDefault fallback body) → ∀ c events r,
    rules.Logs (.orDefault fallback body) .verbose c events r →
      ∀ event ∈ events, event.ofChoice = false
  /-- A sequence that fails has the log of the parts up to the one that failed. -/
  sequenceStops : ∀ parts, rules.Contains g (.sequence parts) → ∀ v c events e,
    rules.Logs (.sequence parts) v c events (.error e) →
      ∃ before q behind ts mid earlier later, parts = before ++ q :: behind ∧
        rules.Logs (.sequence before) v c earlier (.ok (.list ts, mid)) ∧
        rules.Logs q v mid later (.error e) ∧ events = earlier ++ later
  /-- A choice that succeeds has the log of the alternatives up to the one that succeeded. -/
  choiceStops : ∀ alternatives, rules.Contains g (.choice alternatives) → ∀ v c events y,
    rules.Logs (.choice alternatives) v c events (.ok y) →
      ∃ before q behind earlier later, alternatives = before ++ q :: behind ∧
        rules.Logs (.choice before) .terse c earlier (.error .invalidInput) ∧
        rules.Logs q .terse c later (.ok y) ∧ events = earlier ++ later

theorem logs_sequence_error {parts : List (Grammar α κ ρ)} {e : ParseError α}
    (h : rules.Logs (.sequence parts) v c events (.error e)) :
    ∃ before q behind ts mid earlier later, parts = before ++ q :: behind ∧
      rules.Logs (.sequence before) v c earlier (.ok (.list ts, mid)) ∧
      rules.Logs q v mid later (.error e) ∧ events = earlier ++ later := by
  obtain ⟨levels, h⟩ := h
  rw [parser_sequence, Parser.run_map, Run.bind_eq_finished] at h
  rcases h with ⟨_, hrun, ⟨⟩⟩ | ⟨_, ⟨_, _⟩, _, _, hpure, _⟩
  · obtain ⟨_, _, _, ts, mid, earlier, later, hparts, hbefore, hq, rfl⟩ :=
      Parser.runAll_eq_error hrun
    obtain ⟨before, rest, rfl, rfl, hrest⟩ := List.map_eq_append_iff.mp hparts
    obtain ⟨q, behind, rfl, rfl, rfl⟩ := List.map_eq_cons_iff.mp hrest
    refine ⟨before, q, behind, ts, mid, earlier, later, rfl, ⟨levels, ?_⟩, ⟨levels, hq⟩, rfl⟩
    rw [parser_sequence, Parser.run_map]
    show Parser.runAll v _ c >>= _ = _
    rw [hbefore, Run.finished_ok_bind]
    dsimp only
    rw [Run.pure_eq, Run.after_finished, List.append_nil]
  · dsimp only at hpure
    rw [Run.pure_eq] at hpure
    exact absurd hpure (by simp)

theorem logs_choice_ok {alternatives : List (Grammar α κ ρ)} {y : Tree α κ × Cursor α}
    (h : rules.Logs (.choice alternatives) v c events (.ok y)) :
    ∃ before q behind earlier later, alternatives = before ++ q :: behind ∧
      rules.Logs (.choice before) .terse c earlier (.error .invalidInput) ∧
      rules.Logs q .terse c later (.ok y) ∧ events = earlier ++ later := by
  obtain ⟨levels, h⟩ := h
  rw [parser_choice] at h
  obtain ⟨_, _, _, first, last, halternatives, hbefore, hq, rfl⟩ :=
    Parser.firstSuccess_eq_ok_some (Parser.choice_eq_ok h)
  obtain ⟨before, rest, rfl, rfl, hrest⟩ := List.map_eq_append_iff.mp halternatives
  obtain ⟨q, behind, rfl, rfl, rfl⟩ := List.map_eq_cons_iff.mp hrest
  refine ⟨before, q, behind, first, last, rfl, ⟨levels, ?_⟩, ⟨levels, hq⟩, rfl⟩
  rw [parser_choice, Parser.run_choice, hbefore, Run.finished_ok_bind]
  show Run.after first (Run.fail ParseError.invalidInput) = _
  rw [Run.fail, Run.after_finished, List.append_nil]

/-- The alternatives of a choice run tersely, so no choice in them reports. -/
theorem FuncFree.firstSuccess_reports {parts : List (Grammar α κ ρ)} {levels : Nat}
    (hg : rules.FuncFree (.choice parts))
    {found : Except (ParseError α) (Option (Tree α κ × Cursor α))}
    (h : Parser.firstSuccess (parts.map (rules.parser levels)) c = .finished events found) :
    ∀ event ∈ events, event.ofChoice = false := by
  have hparts : ∀ q ∈ parts, (tiers α (.every _ fun _ h => h)).Steps Eq Eq
      ((rules.parser levels q).run .terse) ((rules.parser levels q).run .terse) :=
    fun q hq => (hg.part hq).terse_reports (fun _ h => h) levels
  have hruns : (tiers α (.every _ fun _ h => h)).Runs Eq _ _ _ :=
    Simulation.runs_firstSuccess (forall₂_map_of_forall_mem hparts) (rfl : c = c)
  exact reports_of_runs hruns h

theorem FuncFree.failing_choice {alternatives : List (Grammar α κ ρ)}
    (hg : rules.FuncFree (.choice alternatives)) {e : ParseError α}
    (h : rules.Logs (.choice alternatives) .verbose c events (.error e)) :
    ∃ before, events = before ++ [rules.failureOf alternatives c] ∧
      ∀ event ∈ before, event.ofChoice = false := by
  obtain ⟨levels, h⟩ := h
  rw [parser_choice] at h
  rcases Parser.choice_eq_finished h with ⟨y, -, ⟨⟩⟩ | ⟨before, later, hfirst, hexhausted, rfl⟩
  obtain ⟨e', he'⟩ := rules.exhausted_verbose alternatives levels c
  obtain ⟨rfl, -⟩ := Run.finished.inj (he'.symm.trans hexhausted)
  exact ⟨before, rfl, hg.firstSuccess_reports hfirst⟩

theorem FuncFree.succeeding_choice {alternatives : List (Grammar α κ ρ)}
    (hg : rules.FuncFree (.choice alternatives)) {y : Tree α κ × Cursor α}
    (h : rules.Logs (.choice alternatives) v c events (.ok y)) :
    ∀ event ∈ events, event.ofChoice = false := by
  obtain ⟨levels, h⟩ := h
  rw [parser_choice] at h
  exact hg.firstSuccess_reports (Parser.choice_eq_ok h)

section Reporting

variable {P : Event → Prop} {hP : ∀ event, event.ofChoice = false → P event}

/-- What can be said of every report of one parse can be said of its log. -/
theorem Logs.forall_mem (h : rules.Logs g v c events r)
    (hsteps : ∀ levels, (tiers α (.every P hP)).Steps Eq Eq ((rules.parser levels g).run v)
      ((rules.parser levels g).run v)) : ∀ event ∈ events, P event := by
  obtain ⟨levels, h⟩ := h
  exact reports_of_runs (hsteps levels c c rfl) h

theorem LogsComplete.forall_mem {input : List α} {s : Except (ParseError α) (Tree α κ)}
    (h : rules.LogsComplete g v input events s)
    (hsteps : ∀ levels, (tiers α (.every P hP)).Steps Eq Eq ((rules.parser levels g).run v)
      ((rules.parser levels g).run v)) : ∀ event ∈ events, P event := by
  obtain ⟨levels, h⟩ := h
  exact reports_of_runs ((beside_every v).runs_parseComplete rfl (hsteps levels) input) h

end Reporting

/-- **Verbosity adds reports of choices and nothing else.**  Of a grammar without functions, the log
of a verbose parse is that of the terse parse with reports of failed choices put in, whether the
whole input has to be read or not.  In a terse log no choice reports, and in a verbose one none
below a choice or an optional part.  Behind the part that makes a sequence fail, and behind the
alternative that makes a choice succeed, nothing reports at all. -/
theorem FuncFree.logTiers (rules : Rules α κ ρ) (g : Grammar α κ ρ) (hg : rules.FuncFree g) :
    rules.LogTiers g := by
  have hterse := fun levels => hg.terse_reports (fun _ h => h) levels
  have hverbose := fun levels => hg.verbose_reports
    (P := fun event => event.ofChoice = true → ∃ alternatives c',
      rules.Exposes g (.choice alternatives) ∧ event = rules.failureOf alternatives c')
    (fun _ h h' => absurd (h.symm.trans h') (by simp)) levels
    fun alternatives c hchoice _ => ⟨alternatives, c, hchoice, rfl⟩
  constructor
  case parse =>
    intro c events events' r r' h h'
    obtain ⟨levels, h, h'⟩ := h.common h'
    have hruns := rules.steps_tiers levels g hg.tiered c c rfl
    rw [h, h'] at hruns
    exact hruns.1
  case complete =>
    intro input events events' r r' h h'
    obtain ⟨levels, h, h'⟩ := h.common h'
    have hruns := beside_tiers.runs_parseComplete rfl (rules.steps_tiers levels g hg.tiered) input
    rw [h, h'] at hruns
    exact hruns.1
  case terse => exact fun c events r h => h.forall_mem hterse
  case terseComplete => exact fun input events r h => h.forall_mem hterse
  case verbose => exact fun c events r h => h.forall_mem hverbose
  case verboseComplete => exact fun input events r h => h.forall_mem hverbose
  case failingChoice => exact fun _ hfound _ _ _ h => (hg.found hfound).failing_choice h
  case succeedingChoice => exact fun _ hfound _ _ _ h => (hg.found hfound).succeeding_choice h
  case optional =>
    intro fallback body hfound c events r h
    -- an optional part does not look at the verbosity
    have hrun : rules.Logs (.orDefault fallback body) .terse c events r := h
    exact hrun.forall_mem fun levels => (hg.found hfound).terse_reports (fun _ h => h) levels
  case sequenceStops => exact fun _ _ _ _ _ _ h => logs_sequence_error h
  case choiceStops => exact fun _ _ _ _ _ _ h => logs_choice_ok h

end Rules

/-! ## An example -/

/-- An `a` or a `b`. -/
def Rules.letters : Rules Char Unit Unit := fun _ =>
  .choice [.tag "A" ['a'], .tag "B" ['b']]

/-- A signed letter that may be missing, at least two letters, and one more. -/
def Grammar.spelled : Grammar Char Unit Unit :=
  .sequence [.orDefault .absent (.pair (.tag "SIGN" ['-']) (.defer "LETTER" ())),
    .repeated ⟨2, none⟩ (.defer "LETTER" ()), .defer "LETTER" ()]

/-- On `-c` the choice fails behind the sign, where nobody hears of it, and then in the list.  What
stands behind the list is never run. -/
theorem Rules.letters_logTiers :
    letters.FuncFree .spelled ∧
      letters.Logs .spelled .terse (Cursor.new ['-', 'c'])
        [.tooFew ("multiple [" ++ "LETTER" ++ "]") 0 2 0] (.error .invalidInput) ∧
      letters.Logs .spelled .verbose (Cursor.new ['-', 'c'])
        [.exhausted 2 0 (Parser.alternatives ["A", "B"]),
          .tooFew ("multiple [" ++ "LETTER" ++ "]") 0 2 0]
        (.error (.expected (Parser.alternatives ["A", "B"]) ⟨['-', 'c'], 0⟩)) ∧
      [Event.exhausted 2 0 (Parser.alternatives ["A", "B"]),
          .tooFew ("multiple [" ++ "LETTER" ++ "]") 0 2 0].filter (fun event => !event.ofChoice) =
        [.tooFew ("multiple [" ++ "LETTER" ++ "]") 0 2 0] := by
  have hfree : letters.FuncFree .spelled := funcFree_of_hasFunc rfl fun _ => rfl
  have hterse : letters.Logs .spelled .terse (Cursor.new ['-', 'c'])
      [.tooFew ("multiple [" ++ "LETTER" ++ "]") 0 2 0] (.error .invalidInput) := ⟨1, rfl⟩
  have hverbose : letters.Logs .spelled .verbose (Cursor.new ['-', 'c'])
      [.exhausted 2 0 (Parser.alternatives ["A", "B"]),
        .tooFew ("multiple [" ++ "LETTER" ++ "]") 0 2 0]
      (.error (.expected (Parser.alternatives ["A", "B"]) ⟨['-', 'c'], 0⟩)) := ⟨1, rfl⟩
  exact ⟨hfree, hterse, hverbose, (FuncFree.logTiers _ _ hfree).parse _ _ _ _ _ hterse hverbose⟩

end Descent
