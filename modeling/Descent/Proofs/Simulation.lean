import Descent.Proofs.Outcome
import Mathlib.Data.List.Forall2

/-!
# Two parses side by side

Many statements compare two parses: at two verbosities, with more or fewer levels, of two inputs,
of two grammars.  A `Simulation` says which cursors of the two correspond and how the events may
differ.  Two runs are then related (`Simulation.Runs`) if, as far as both come to an end, their
events are related and either both succeed or both fail, with related outputs or errors.  Which
errors and outputs are related is a parameter, because a combinator may change it: what is said
of the alternatives of a choice need not be said of the choice.

For every combinator there is one lemma: related parts make related wholes.  The lists ask for
two facts about corresponding cursors that only their loops depend on, that a step stays put in
one parse exactly when it does in the other, and that the second loop has room for all rounds of
the first; these belong to the simulation.
-/

namespace Descent

/-- Two results of the same kind, with related outputs or with related errors. -/
inductive Agree {ε ε' β β' : Type} (Re : ε → ε' → Prop) (Rx : β → β' → Prop) :
    Except ε β → Except ε' β' → Prop
  | ok {x : β} {x' : β'} : Rx x x' → Agree Re Rx (.ok x) (.ok x')
  | error {e : ε} {e' : ε'} : Re e e' → Agree Re Rx (.error e) (.error e')

theorem Agree.imp {ε ε' β β' : Type} {Re Se : ε → ε' → Prop} {Rx Sx : β → β' → Prop}
    {r : Except ε β} {r' : Except ε' β'} (h : Agree Re Rx r r')
    (herror : ∀ e e', Re e e' → Se e e') (hok : ∀ x x', Rx x x' → Sx x x') :
    Agree Se Sx r r' := by
  cases h with
  | ok hx => exact Agree.ok (hok _ _ hx)
  | error he => exact Agree.error (herror _ _ he)

theorem Agree.bind {ε ε' β β' γ γ' : Type} {Re : ε → ε' → Prop} {Rx : β → β' → Prop}
    {Ry : γ → γ' → Prop} {r : Except ε β} {r' : Except ε' β'} {f : β → Except ε γ}
    {f' : β' → Except ε' γ'} (h : Agree Re Rx r r')
    (hf : ∀ x x', Rx x x' → Agree Re Ry (f x) (f' x')) : Agree Re Ry (r >>= f) (r' >>= f') := by
  cases h with
  | ok hx => exact hf _ _ hx
  | error he => exact Agree.error he

theorem Agree.mapError {ε ε' δ δ' β β' : Type} {Re : ε → ε' → Prop} {Se : δ → δ' → Prop}
    {Rx : β → β' → Prop} {r : Except ε β} {r' : Except ε' β'} {f : ε → δ} {f' : ε' → δ'}
    (h : Agree Re Rx r r') (hf : ∀ e e', Re e e' → Se (f e) (f' e')) :
    Agree Se Rx (r.mapError f) (r'.mapError f') := by
  cases h with
  | ok hx => exact Agree.ok hx
  | error he => exact Agree.error (hf _ _ he)

/-- Converters that agree on members agree on lists. -/
theorem Agree.mapM {ε ε' β β' γ γ' : Type} {Re : ε → ε' → Prop} {Rx : β → β' → Prop}
    {Ry : γ → γ' → Prop} {f : β → Except ε γ} {f' : β' → Except ε' γ'}
    (hf : ∀ x x', Rx x x' → Agree Re Ry (f x) (f' x')) {xs : List β} {xs' : List β'}
    (h : List.Forall₂ Rx xs xs') : Agree Re (List.Forall₂ Ry) (xs.mapM f) (xs'.mapM f') := by
  induction h with
  | nil => exact Agree.ok List.Forall₂.nil
  | @cons x x' xs xs' hx _ ih =>
    rw [List.mapM_cons, List.mapM_cons]
    refine (hf x x' hx).bind fun y y' hy => ?_
    refine ih.bind fun ys ys' hys => ?_
    exact Agree.ok (List.Forall₂.cons hy hys)

/-- Two lists made from one compare member by member. -/
theorem forall₂_map_of_forall_mem {ι β β' : Type} {R : β → β' → Prop} {f : ι → β} {f' : ι → β'}
    {l : List ι} (h : ∀ i ∈ l, R (f i) (f' i)) : List.Forall₂ R (l.map f) (l.map f') := by
  rw [List.forall₂_map_left_iff, List.forall₂_map_right_iff, List.forall₂_same]
  exact h

/-- Two lists made from related ones compare member by member. -/
theorem forall₂_map_of_forall₂ {ι ι' β β' : Type} {R : β → β' → Prop} {Q : ι → ι' → Prop}
    {f : ι → β} {f' : ι' → β'} {l : List ι} {l' : List ι'} (h : List.Forall₂ Q l l')
    (hR : ∀ i ∈ l, ∀ i', Q i i' → R (f i) (f' i')) : List.Forall₂ R (l.map f) (l'.map f') := by
  rw [List.forall₂_map_left_iff, List.forall₂_map_right_iff]
  exact ((List.forall₂_and_left _ _).mpr ⟨hR, h⟩).imp fun i i' hi => hi.1 i' hi.2

/-- Equal cursors stay put together. -/
theorem Cursor.still_of_eq {α : Type} {c next c' next' : Cursor α} (h : c = c')
    (h' : next = next') : next.position = c.position ↔ next'.position = c'.position := by
  rw [h, h']

/-- How two parses, over elements `α` and `α'`, are compared. -/
structure Simulation (α α' : Type) where
  /-- Cursors that correspond. -/
  cursor : Cursor α → Cursor α' → Prop
  /-- Events that may be reported up to corresponding places. -/
  events : List Event → List Event → Prop
  /-- Whether the second parse may be cut off where the first is not. -/
  lossy : Prop
  /-- Both may report nothing. -/
  events_nil : events [] []
  /-- What is reported later does not change how earlier events compare. -/
  events_append : ∀ {earlier earlier' later later' : List Event}, events earlier earlier' →
    events later later' → events (earlier ++ later) (earlier' ++ later')
  /-- Corresponding steps stay put together. -/
  still : ∀ {c next : Cursor α} {c' next' : Cursor α'}, cursor c c' → cursor next next' →
    (next.position = c.position ↔ next'.position = c'.position)
  /-- The second parse has no fewer elements left than the first, unless it may be cut off. -/
  room : ∀ {c : Cursor α} {c' : Cursor α'}, cursor c c' → lossy ∨ c.left ≤ c'.left

namespace Simulation

variable {α α' β β' γ γ' δ δ' : Type} (S : Simulation α α')

/-- Runs that, as far as both come to an end, report related events and agree. -/
def Runs (Re : ParseError α → ParseError α' → Prop) (Rx : β → β' → Prop) :
    Run (ParseError α) β → Run (ParseError α') β' → Prop
  | .unfinished, _ => True
  | .finished _ _, .unfinished => S.lossy
  | .finished events r, .finished events' r' => S.events events events' ∧ Agree Re Rx r r'

/-- An output with the cursor behind it, and the same in the other parse. -/
def Output (Rx : β → β' → Prop) (y : β × Cursor α) (y' : β' × Cursor α') : Prop :=
  Rx y.1 y'.1 ∧ S.cursor y.2 y'.2

/-- Steps that have related runs from corresponding cursors. -/
def Steps (Re : ParseError α → ParseError α' → Prop) (Rx : β → β' → Prop) (s : Step α β)
    (s' : Step α' β') : Prop :=
  ∀ c c', S.cursor c c' → S.Runs Re (S.Output Rx) (s c) (s' c')

variable {S} {Re Se : ParseError α → ParseError α' → Prop} {Rx : β → β' → Prop}
  {Ry : γ → γ' → Prop} {Rz : δ → δ' → Prop}

/-! ## Runs -/

theorem runs_pure {x : β} {x' : β'} (h : Rx x x') :
    S.Runs Re Rx (pure x : Run (ParseError α) β) (pure x' : Run (ParseError α') β') :=
  ⟨S.events_nil, Agree.ok h⟩

theorem runs_fail {e : ParseError α} {e' : ParseError α'} (h : Re e e') :
    S.Runs Re Rx (.fail e) (.fail e') :=
  ⟨S.events_nil, Agree.error h⟩

/-- Less may be said of the errors. -/
theorem Runs.imp {r : Run (ParseError α) β} {r' : Run (ParseError α') β'} (h : S.Runs Se Rx r r')
    (herror : ∀ e e', Se e e' → Re e e') : S.Runs Re Rx r r' := by
  rcases r with ⟨events, x⟩ | _
  · rcases r' with ⟨events', x'⟩ | _
    · exact ⟨h.1, h.2.imp herror fun _ _ hx => hx⟩
    · exact h
  · trivial

theorem Runs.after {r : Run (ParseError α) β} {r' : Run (ParseError α') β'}
    {events events' : List Event} (h : S.Runs Re Rx r r') (hevents : S.events events events') :
    S.Runs Re Rx (r.after events) (r'.after events') := by
  rcases r with ⟨later, x⟩ | _
  · rcases r' with ⟨later', x'⟩ | _
    · rw [Run.after_finished, Run.after_finished]
      exact ⟨S.events_append hevents h.1, h.2⟩
    · rw [Run.after_finished, Run.after_unfinished]
      exact h
  · rw [Run.after_unfinished]
    trivial

theorem Runs.bind {r : Run (ParseError α) β} {r' : Run (ParseError α') β'}
    {f : β → Run (ParseError α) γ} {f' : β' → Run (ParseError α') γ'} (h : S.Runs Re Rx r r')
    (hf : ∀ x x', Rx x x' → S.Runs Re Ry (f x) (f' x')) :
    S.Runs Re Ry (r >>= f) (r' >>= f') := by
  rcases r with ⟨events, e | x⟩ | _
  · rcases r' with ⟨events', e' | x'⟩ | _
    · obtain ⟨hevents, ⟨⟩ | he⟩ := h
      exact ⟨hevents, Agree.error he⟩
    · obtain ⟨-, ⟨⟩⟩ := h
    · exact h
  · rcases r' with ⟨events', e' | x'⟩ | _
    · obtain ⟨-, ⟨⟩⟩ := h
    · obtain ⟨hevents, hx | ⟨⟩⟩ := h
      rw [Run.finished_ok_bind, Run.finished_ok_bind]
      exact (hf x x' hx).after hevents
    · have hlossy : S.lossy := h
      rw [Run.finished_ok_bind, Run.unfinished_bind]
      rcases f x with _ | _
      · rw [Run.after_finished]
        exact hlossy
      · trivial
  · trivial

/-- An attempt hands errors on as values, so the two parses go on from there whatever the relation
between errors was. -/
theorem Runs.attempt_bind {r : Run (ParseError α) β} {r' : Run (ParseError α') β'}
    {f : Except (ParseError α) β → Run (ParseError α) γ}
    {f' : Except (ParseError α') β' → Run (ParseError α') γ'} (h : S.Runs Se Rx r r')
    (hf : ∀ x x', Agree Se Rx x x' → S.Runs Re Ry (f x) (f' x')) :
    S.Runs Re Ry (r.attempt >>= f) (r'.attempt >>= f') := by
  have hattempt : S.Runs Re (Agree Se Rx) r.attempt r'.attempt := by
    rcases r with ⟨events, x⟩ | _
    · rcases r' with ⟨events', x'⟩ | _
      · exact ⟨h.1, Agree.ok h.2⟩
      · exact h
    · trivial
  exact hattempt.bind hf

theorem Runs.mapError {r : Run (ParseError α) β} {r' : Run (ParseError α') β'}
    {f : ParseError α → ParseError α} {f' : ParseError α' → ParseError α'}
    (h : S.Runs Se Rx r r') (hf : ∀ e e', Se e e' → Re (f e) (f' e')) :
    S.Runs Re Rx (r.mapError f) (r'.mapError f') := by
  rcases r with ⟨events, x⟩ | _
  · rcases r' with ⟨events', x'⟩ | _
    · obtain ⟨hevents, hx | he⟩ := h
      · exact ⟨hevents, Agree.ok hx⟩
      · exact ⟨hevents, Agree.error (hf _ _ he)⟩
    · exact h
  · trivial

/-- What the relation says of the results of two runs that both come to an end. -/
theorem Runs.agree {r : Run (ParseError α) β} {r' : Run (ParseError α') β'}
    (h : S.Runs Re Rx r r') {x : Except (ParseError α) β} {x' : Except (ParseError α') β'}
    (hr : r.result? = some x) (hr' : r'.result? = some x') : Agree Re Rx x x' := by
  rcases r with ⟨events, y⟩ | _
  · rcases r' with ⟨events', y'⟩ | _
    · obtain rfl := Option.some.inj hr
      obtain rfl := Option.some.inj hr'
      exact h.2
    · exact absurd hr' (by simp)
  · exact absurd hr (by simp)

/-- Where no parse is cut off, the second comes to an end if the first does. -/
theorem Runs.returns {r : Run (ParseError α) β} {r' : Run (ParseError α') β'}
    (h : S.Runs Re Rx r r') (hlossy : ¬ S.lossy) {x : Except (ParseError α) β}
    (hr : r.result? = some x) : ∃ x', r'.result? = some x' := by
  rcases r with ⟨events, y⟩ | _
  · rcases r' with ⟨events', y'⟩ | _
    · exact ⟨y', rfl⟩
    · exact absurd h hlossy
  · exact absurd hr (by simp)

/-! ## Steps -/

/-- Where events do not matter, steps are related if their outcomes are. -/
theorem steps_of_outcomes (hevents : ∀ events events', S.events events events')
    {s : Step α β} {s' : Step α' β'}
    (haccepts : ∀ c c' x next, S.cursor c c' → s.Accepts c x next →
      ∃ x' next', s'.Accepts c' x' next' ∧ Rx x x' ∧ S.cursor next next')
    (hrejects : ∀ c c' e, S.cursor c c' → s.Rejects c e → ∃ e', s'.Rejects c' e' ∧ Re e e') :
    S.Steps Re Rx s s' := by
  intro c c' hc
  rcases hs : s c with ⟨events, e | ⟨x, next⟩⟩ | _
  · have hreject : s.Rejects c e := by rw [Step.Rejects, hs, Run.result?_finished]
    obtain ⟨e', hreject', he⟩ := hrejects c c' e hc hreject
    rcases hs' : s' c' with ⟨events', r'⟩ | _
    · rw [Step.Rejects, hs', Run.result?_finished] at hreject'
      obtain rfl := Option.some.inj hreject'
      exact ⟨hevents _ _, Agree.error he⟩
    · rw [Step.Rejects, hs'] at hreject'
      exact absurd hreject' (by simp)
  · have haccept : s.Accepts c x next := by rw [Step.Accepts, hs, Run.result?_finished]
    obtain ⟨x', next', haccept', hx⟩ := haccepts c c' x next hc haccept
    rcases hs' : s' c' with ⟨events', r'⟩ | _
    · rw [Step.Accepts, hs', Run.result?_finished] at haccept'
      obtain rfl := Option.some.inj haccept'
      exact ⟨hevents _ _, Agree.ok hx⟩
    · rw [Step.Accepts, hs'] at haccept'
      exact absurd haccept' (by simp)
  · trivial

/-! ## Parsers of parsers -/

section Combinators

variable {p : Parser α β} {p' : Parser α' β'} {q : Parser α γ} {q' : Parser α' γ'}
  {v v' : Verbosity}

theorem steps_map {f : β → γ} {f' : β' → γ'} (h : S.Steps Re Rx (p.run v) (p'.run v'))
    (hf : ∀ x x', Rx x x' → Ry (f x) (f' x')) :
    S.Steps Re Ry ((p.map f).run v) ((p'.map f').run v') := by
  intro c c' hc
  refine (h c c' hc).bind fun y y' hy => ?_
  exact runs_pure ⟨hf _ _ hy.1, hy.2⟩

theorem steps_pair (hp : S.Steps Re Rx (p.run v) (p'.run v'))
    (hq : S.Steps Re Ry (q.run v) (q'.run v')) :
    S.Steps Re (fun z z' => Rx z.1 z'.1 ∧ Ry z.2 z'.2) ((Parser.pair p q).run v)
      ((Parser.pair p' q').run v') := by
  intro c c' hc
  refine (hp c c' hc).bind fun y y' hy => ?_
  refine (hq _ _ hy.2).bind fun z z' hz => ?_
  exact runs_pure ⟨⟨hy.1, hz.1⟩, hz.2⟩

theorem steps_delimited {d : Parser α δ} {d' : Parser α' δ'}
    (hp : S.Steps Re Rx (p.run v) (p'.run v')) (hq : S.Steps Re Ry (q.run v) (q'.run v'))
    (hd : S.Steps Re Rz (d.run v) (d'.run v')) :
    S.Steps Re Ry ((Parser.delimited p q d).run v) ((Parser.delimited p' q' d').run v') := by
  rw [Parser.run_delimited, Parser.run_delimited]
  exact steps_map (steps_pair hp (steps_pair hq hd)) fun _ _ h => h.2.1

theorem steps_sequence {ps : List (Parser α β)} {ps' : List (Parser α' β')}
    (h : List.Forall₂ (fun p p' => S.Steps Re Rx (p.run v) (p'.run v')) ps ps') :
    S.Steps Re (List.Forall₂ Rx) ((Parser.sequence ps).run v) ((Parser.sequence ps').run v') := by
  induction h with
  | nil => exact fun c c' hc => runs_pure ⟨List.Forall₂.nil, hc⟩
  | cons hp _ ih =>
    rw [Parser.run_sequence_cons, Parser.run_sequence_cons]
    exact steps_map (steps_pair hp ih) fun _ _ h => List.Forall₂.cons h.1 h.2

theorem steps_convert {f : β → Except Fault γ} {f' : β' → Except Fault γ'}
    (h : S.Steps Re Rx (p.run v) (p'.run v'))
    (hf : ∀ c c' next next' x x', S.cursor c c' → S.cursor next next' → Rx x x' →
      S.Runs Re (S.Output Ry) (Parser.converted p.name c next (f x))
        (Parser.converted p'.name c' next' (f' x'))) :
    S.Steps Re Ry ((p.convert f).run v) ((p'.convert f').run v') := by
  intro c c' hc
  exact (h c c' hc).bind fun y y' hy => hf _ _ _ _ _ _ hc hy.2 hy.1

theorem steps_matchOnly {Rspan : List α → List α' → Prop}
    (h : S.Steps Re Rx (p.run v) (p'.run v'))
    (hspan : ∀ c c' next next', S.cursor c c' → S.cursor next next' →
      Rspan (next.consumedSince c) (next'.consumedSince c')) :
    S.Steps Re Rspan (p.matchOnly.run v) (p'.matchOnly.run v') := by
  intro c c' hc
  refine (h c c' hc).bind fun y y' hy => ?_
  exact runs_pure ⟨hspan _ _ _ _ hc hy.2, hy.2⟩

theorem steps_named {label label' : String} (h : S.Steps Se Rx (p.run v) (p'.run v'))
    (hlabel : ∀ c c' e e', S.cursor c c' → Se e e' →
      Re (e.relabelled label c) (e'.relabelled label' c')) :
    S.Steps Re Rx ((p.named label).run v) ((p'.named label').run v') := by
  intro c c' hc
  exact (h c c' hc).mapError fun e e' he => hlabel _ _ _ _ hc he

/-- An optional part is always run tersely, and no error of it is ever seen. -/
theorem steps_orDefault {fallback : β} {fallback' : β'}
    (h : S.Steps Se Rx (p.run .terse) (p'.run .terse)) (hfallback : Rx fallback fallback') :
    S.Steps Re Rx ((p.orDefault fallback).run v) ((p'.orDefault fallback').run v') := by
  intro c c' hc
  rw [Parser.run_orDefault, Parser.run_orDefault]
  refine (h c c' hc).attempt_bind fun r r' hr => ?_
  cases hr with
  | ok hy => exact runs_pure hy
  | error _ => exact runs_pure ⟨hfallback, hc⟩

theorem runs_firstSuccess {ps : List (Parser α β)} {ps' : List (Parser α' β')}
    (h : List.Forall₂ (fun p p' => S.Steps Se Rx (p.run .terse) (p'.run .terse)) ps ps')
    {c : Cursor α} {c' : Cursor α'} (hc : S.cursor c c') :
    S.Runs Re (Option.Rel (S.Output Rx)) (Parser.firstSuccess ps c)
      (Parser.firstSuccess ps' c') := by
  induction h with
  | nil => exact runs_pure Option.Rel.none
  | cons hp _ ih =>
    rw [Parser.firstSuccess_cons, Parser.firstSuccess_cons]
    refine (hp c c' hc).attempt_bind fun r r' hr => ?_
    cases hr with
    | ok hy => exact runs_pure (Option.Rel.some hy)
    | error _ => exact ih

/-- The alternatives of a choice are always run tersely, and no error of theirs is ever seen; so
only what the choice itself says when all have failed has to be compared. -/
theorem steps_choice {ps : List (Parser α β)} {ps' : List (Parser α' β')}
    (h : List.Forall₂ (fun p p' => S.Steps Se Rx (p.run .terse) (p'.run .terse)) ps ps')
    (hfail : ∀ c c', S.cursor c c' →
      S.Runs Re (S.Output Rx) (Parser.exhausted ps v c) (Parser.exhausted ps' v' c')) :
    S.Steps Re Rx ((Parser.choice ps).run v) ((Parser.choice ps').run v') := by
  intro c c' hc
  rw [Parser.run_choice, Parser.run_choice]
  refine (runs_firstSuccess h hc).bind fun y y' hy => ?_
  cases hy with
  | some hy => exact runs_pure hy
  | none => exact hfail c c' hc

end Combinators

/-! ## Lists -/

section Lists

variable (S) in
/-- What two loops have collected: related outputs, corresponding ends, and either no error that
ended them or related ones. -/
def Found (Re : ParseError α → ParseError α' → Prop) (Rx : β → β' → Prop) (found : Collected α β)
    (found' : Collected α' β') : Prop :=
  List.Forall₂ Rx found.items found'.items ∧ S.cursor found.next found'.next ∧
    Option.Rel Re found.stop found'.stop

theorem found_none {c : Cursor α} {c' : Cursor α'} (hc : S.cursor c c')
    {stop : Option (ParseError α)} {stop' : Option (ParseError α')}
    (hstop : Option.Rel Re stop stop') :
    S.Found Re Rx (.none c stop) (.none c' stop') :=
  ⟨List.Forall₂.nil, hc, hstop⟩

theorem Found.cons {found : Collected α β} {found' : Collected α' β'} {x : β} {x' : β'}
    (h : S.Found Re Rx found found') (hx : Rx x x') :
    S.Found Re Rx (found.cons x) (found'.cons x') :=
  ⟨List.Forall₂.cons hx h.1, h.2⟩

variable {step : Step α β} {step' : Step α' β'} {c : Cursor α} {c' : Cursor α'}

theorem runs_collectUpTo (h : S.Steps Re Rx step step') (rounds : Nat) (hc : S.cursor c c') :
    S.Runs Se (S.Found Re Rx) (Parser.collectUpTo step rounds c)
      (Parser.collectUpTo step' rounds c') := by
  induction rounds generalizing c c' with
  | zero => exact runs_pure (found_none hc Option.Rel.none)
  | succ rounds ih =>
    rw [Parser.collectUpTo, Parser.collectUpTo]
    refine (h c c' hc).attempt_bind fun r r' hr => ?_
    cases hr with
    | error he => exact runs_pure (found_none hc (Option.Rel.some he))
    | ok hy =>
      refine (ih hy.2).bind fun found found' hfound => ?_
      exact runs_pure (hfound.cons hy.1)

theorem runs_collectAll (h : S.Steps Re Rx step step') {rounds rounds' : Nat}
    (hrounds : S.lossy ∨ rounds ≤ rounds') (hc : S.cursor c c') :
    S.Runs Se (S.Found Re Rx) (Parser.collectAll step rounds c)
      (Parser.collectAll step' rounds' c') := by
  induction rounds generalizing c c' rounds' with
  | zero => trivial
  | succ rounds ih =>
    rcases rounds' with _ | rounds'
    · -- The second loop has no round left, which only a lossy simulation allows.
      have hlossy : S.lossy := hrounds.resolve_right (Nat.not_succ_le_zero rounds)
      rcases hrun : Parser.collectAll step (rounds + 1) c with _ | _
      · exact hlossy
      · trivial
    · rw [Parser.collectAll, Parser.collectAll]
      refine (h c c' hc).attempt_bind fun r r' hr => ?_
      cases hr with
      | error he => exact runs_pure (found_none hc (Option.Rel.some he))
      | @ok y y' hy =>
        dsimp only
        by_cases hstill : y.2.position = c.position
        · rw [if_pos hstill, if_pos ((S.still hc hy.2).mp hstill)]
          exact runs_pure (found_none hc Option.Rel.none)
        · rw [if_neg hstill, if_neg fun h' => hstill ((S.still hc hy.2).mpr h')]
          refine (ih (hrounds.imp_right Nat.le_of_succ_le_succ) hy.2).bind
            fun found found' hfound => ?_
          exact runs_pure (hfound.cons hy.1)

variable {p : Parser α β} {p' : Parser α' β'} {d : Parser α γ} {d' : Parser α' γ'}
  {v v' : Verbosity}

theorem steps_delimitedStep (hp : S.Steps Re Rx (p.run v) (p'.run v'))
    (hd : S.Steps Re Ry (d.run v) (d'.run v')) :
    S.Steps Re Rx (Parser.delimitedStep p d v) (Parser.delimitedStep p' d' v') := by
  intro c c' hc
  exact (hd c c' hc).bind fun y y' hy => hp _ _ hy.2

theorem runs_collect (hp : S.Steps Re Rx (p.run v) (p'.run v'))
    (hd : S.Steps Re Ry (d.run v) (d'.run v')) {spare spare' : Nat}
    (hspare : S.lossy ∨ spare ≤ spare') (greatest : Option Nat) (hc : S.cursor c c') :
    S.Runs Se (S.Found Re Rx) (Parser.collect spare greatest p d v c)
      (Parser.collect spare' greatest p' d' v' c') := by
  unfold Parser.collect
  split
  · exact runs_pure (found_none hc Option.Rel.none)
  · refine (hp c c' hc).attempt_bind fun r r' hr => ?_
    cases hr with
    | error he => exact runs_pure (found_none hc (Option.Rel.some he))
    | @ok y y' hy =>
      have hrest : S.Runs Se (S.Found Re Rx)
          (Parser.collectRest spare greatest (Parser.delimitedStep p d v) y.2)
          (Parser.collectRest spare' greatest (Parser.delimitedStep p' d' v') y'.2) := by
        have hstep := steps_delimitedStep hp hd
        rcases greatest with _ | most
        · refine runs_collectAll hstep ?_ hy.2
          rcases hspare with hlossy | hspare
          · exact Or.inl hlossy
          · exact (S.room hy.2).imp_right fun hroom => by omega
        · exact runs_collectUpTo hstep (most - 1) hy.2
      exact hrest.bind fun found found' hfound => runs_pure (hfound.cons hy.1)

/-- Lists compare as their elements and delimiters do.  What is left to say is how the events and
the mismatches of the two lists compare when there are too few elements. -/
theorem steps_listOf {name name' : String} (hp : S.Steps Re Rx (p.run v) (p'.run v'))
    (hd : S.Steps Re Ry (d.run v) (d'.run v')) {spare spare' : Nat}
    (hspare : S.lossy ∨ spare ≤ spare') {bounds : Bounds}
    (hevent : ∀ c c' found, S.cursor c c' →
      S.events [.tooFew name found bounds.least c.position]
        [.tooFew name' found bounds.least c'.position])
    (hmismatch : ∀ c c', S.cursor c c' → Re (.mismatch v name c) (.mismatch v' name' c')) :
    S.Steps Re (List.Forall₂ Rx) ((Parser.listOf name spare bounds p d).run v)
      ((Parser.listOf name' spare' bounds p' d').run v') := by
  intro c c' hc
  refine (runs_collect hp hd hspare bounds.greatest hc).bind fun found found' hfound => ?_
  obtain ⟨items, next, stop⟩ := found
  obtain ⟨items', next', stop'⟩ := found'
  obtain ⟨hitems, hnext, hstop⟩ := hfound
  dsimp only at hitems hnext hstop ⊢
  rw [← hitems.length_eq]
  split
  · rw [Run.emit_bind, Run.emit_bind]
    refine Runs.after (runs_fail ?_) (hevent c c' _ hc)
    cases hstop with
    | some he => exact he
    | none => exact hmismatch c c' hc
  · exact runs_pure ⟨hitems, hnext⟩

end Lists

end Simulation

end Descent
