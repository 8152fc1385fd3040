import Descent.Grammar.Basic

/-!
# What a parser comes to

With the events on the way set aside, a step at a cursor does one of three things: it accepts, with
an output and the cursor behind it (`Step.Accepts`), it rejects, with an error (`Step.Rejects`), or
it is cut off.  A step that is not cut off returns (`Step.Returns`).

For every parser there is one equivalence for acceptance and one for rejection, in terms of what
the parsers inside it do, and one sufficient condition for returning.  Later arguments about whole
grammars use these and never open the parsers themselves.  Lists are treated apart.
-/

namespace Descent

/-! ## Runs in sequence -/

namespace Run

variable {ε ε' β γ : Type}

theorem mapError_ok (f : ε → ε') (x : β) : (Except.ok x).mapError f = .ok x := rfl

theorem mapError_error (f : ε → ε') (e : ε) :
    (Except.error e : Except ε β).mapError f = .error (f e) := rfl

@[simp] theorem result?_pure_eq_ok {x y : β} :
    (pure x : Run ε β).result? = some (.ok y) ↔ y = x := by
  rw [pure_eq, result?_finished, Option.some.injEq, Except.ok.injEq, eq_comm]

@[simp] theorem result?_pure_ne_error {x : β} {e : ε} :
    (pure x : Run ε β).result? ≠ some (.error e) := by
  rw [pure_eq, result?_finished]
  simp

@[simp] theorem result?_fail_eq_error {e e' : ε} :
    (fail e : Run ε β).result? = some (.error e') ↔ e' = e := by
  rw [fail, result?_finished, Option.some.injEq, Except.error.injEq, eq_comm]

@[simp] theorem result?_fail_ne_ok {e : ε} {x : β} :
    (fail e : Run ε β).result? ≠ some (.ok x) := by
  rw [fail, result?_finished]
  simp

theorem result?_bind_eq_ok {run : Run ε β} {f : β → Run ε γ} {y : γ} :
    (run >>= f).result? = some (.ok y) ↔
      ∃ x, run.result? = some (.ok x) ∧ (f x).result? = some (.ok y) := by
  rw [result?_bind]
  rcases run.result? with _ | e | x <;> simp

theorem result?_bind_eq_error {run : Run ε β} {f : β → Run ε γ} {e : ε} :
    (run >>= f).result? = some (.error e) ↔
      run.result? = some (.error e) ∨
        ∃ x, run.result? = some (.ok x) ∧ (f x).result? = some (.error e) := by
  rw [result?_bind]
  rcases run.result? with _ | e' | x <;> simp

/-- After an attempt the run goes on whatever the attempted part came to. -/
theorem result?_attempt_bind {run : Run ε β} {f : Except ε β → Run ε' γ} {r : Except ε' γ} :
    (run.attempt >>= f).result? = some r ↔
      ∃ r', run.result? = some r' ∧ (f r').result? = some r := by
  rw [result?_bind, result?_attempt]
  rcases run.result? with _ | r' <;> simp

end Run

/-! ## Steps -/

namespace Step

variable {α β : Type}

/-- At the cursor the step succeeds with this output and with this cursor behind it. -/
def Accepts (s : Step α β) (c : Cursor α) (x : β) (next : Cursor α) : Prop :=
  (s c).result? = some (.ok (x, next))

/-- At the cursor the step fails with this error. -/
def Rejects (s : Step α β) (c : Cursor α) (e : ParseError α) : Prop :=
  (s c).result? = some (.error e)

/-- At the cursor the step is not cut off. -/
def Returns (s : Step α β) (c : Cursor α) : Prop :=
  ∃ r, (s c).result? = some r

theorem Accepts.returns {s : Step α β} {c next : Cursor α} {x : β} (h : s.Accepts c x next) :
    s.Returns c :=
  ⟨_, h⟩

theorem Rejects.returns {s : Step α β} {c : Cursor α} {e : ParseError α} (h : s.Rejects c e) :
    s.Returns c :=
  ⟨_, h⟩

theorem returns_iff {s : Step α β} {c : Cursor α} :
    s.Returns c ↔ (∃ x next, s.Accepts c x next) ∨ ∃ e, s.Rejects c e := by
  constructor
  · intro h
    rcases h with ⟨e | ⟨x, next⟩, h⟩
    · exact Or.inr ⟨e, h⟩
    · exact Or.inl ⟨x, next, h⟩
  · intro h
    rcases h with ⟨x, next, h⟩ | ⟨e, h⟩
    · exact h.returns
    · exact h.returns

/-- A step that is not cut off does the same as one that accepts and rejects whatever it does. -/
theorem Returns.result?_eq {s t : Step α β} {c : Cursor α} (h : s.Returns c)
    (haccepts : ∀ x next, s.Accepts c x next → t.Accepts c x next)
    (hrejects : ∀ e, s.Rejects c e → t.Rejects c e) : (s c).result? = (t c).result? := by
  rcases returns_iff.mp h with ⟨x, next, hx⟩ | ⟨e, he⟩
  · exact Eq.trans hx (haccepts x next hx).symm
  · exact Eq.trans he (hrejects e he).symm

/-- Steps that succeed alike and fail alike at a cursor come to the same there. -/
theorem result?_congr {s t : Step α β} {c : Cursor α}
    (haccepts : ∀ x next, s.Accepts c x next ↔ t.Accepts c x next)
    (hrejects : ∀ e, s.Rejects c e ↔ t.Rejects c e) : (s c).result? = (t c).result? := by
  refine Option.ext fun r => ?_
  rcases r with e | ⟨x, next⟩
  · exact hrejects e
  · exact haccepts x next

/-- A step has one outcome. -/
theorem Accepts.unique {s : Step α β} {c next next' : Cursor α} {x x' : β}
    (h : s.Accepts c x next) (h' : s.Accepts c x' next') : x = x' ∧ next = next' := by
  have hpair : (x, next) = (x', next') := Except.ok.inj (Option.some.inj (h.symm.trans h'))
  exact Prod.mk.inj hpair

theorem Accepts.not_rejects {s : Step α β} {c next : Cursor α} {x : β} {e : ParseError α}
    (h : s.Accepts c x next) (h' : s.Rejects c e) : False := by
  have hresult := Option.some.inj (h.symm.trans h')
  exact Except.noConfusion rfl rfl (heq_of_eq hresult)

end Step

namespace Parser

variable {α β γ δ : Type} {v : Verbosity} {c next : Cursor α} {e : ParseError α}

/-! ## Elements -/

section Elements

variable {name : String}

theorem accepts_tag [DecidableEq α] {literal xs : List α} :
    ((tag name literal).run v).Accepts c xs next ↔
      literal <+: c.remaining ∧ xs = literal ∧ next = c.advance literal.length := by
  have hstarts := @List.isPrefixOf_iff_prefix α _ _ literal c.remaining
  unfold Step.Accepts tag
  dsimp only
  split
  next h =>
    have hliteral := hstarts.mp h
    rw [Run.result?_pure_eq_ok, ← List.prefix_iff_eq_take.mp hliteral, Prod.mk.injEq]
    exact (and_iff_right hliteral).symm
  next h =>
    refine ⟨fun h' => absurd h' Run.result?_fail_ne_ok, fun h' => ?_⟩
    exact absurd (hstarts.mpr h'.1) h

theorem rejects_tag [DecidableEq α] {literal : List α} :
    ((tag name literal).run v).Rejects c e ↔
      ¬ literal <+: c.remaining ∧ e = .mismatch v name c := by
  have hstarts := @List.isPrefixOf_iff_prefix α _ _ literal c.remaining
  unfold Step.Rejects tag
  dsimp only
  split
  next h =>
    refine ⟨fun h' => absurd h' Run.result?_pure_ne_error, fun h' => ?_⟩
    exact absurd (hstarts.mp h) h'.1
  next h =>
    rw [Run.result?_fail_eq_error]
    exact (and_iff_right fun h' => h (hstarts.mpr h')).symm

theorem returns_tag [DecidableEq α] (literal : List α) :
    ((tag name literal).run v).Returns c := by
  unfold Step.Returns tag
  dsimp only
  split
  · exact ⟨_, rfl⟩
  · exact ⟨_, rfl⟩

theorem accepts_takeSingle {test : α → Bool} {x : α} :
    ((takeSingle name test).run v).Accepts c x next ↔
      c.value = some x ∧ test x = true ∧ next = c.next := by
  unfold Step.Accepts takeSingle
  dsimp only
  rcases c.value with _ | a
  · simp
  · by_cases h : test a
    · simp only [h, if_true, Run.result?_pure_eq_ok, Option.some.injEq, Prod.mk.injEq]
      constructor
      · intro h
        obtain ⟨rfl, rfl⟩ := h
        exact ⟨rfl, h, rfl⟩
      · intro h
        obtain ⟨rfl, -, rfl⟩ := h
        exact ⟨rfl, rfl⟩
    · simp only [h, Bool.false_eq_true, if_false, Run.result?_fail_ne_ok, false_iff,
        Option.some.injEq]
      intro h
      obtain ⟨rfl, h', -⟩ := h
      exact h h'

theorem rejects_takeSingle {test : α → Bool} :
    ((takeSingle name test).run v).Rejects c e ↔
      (∀ x, c.value = some x → test x = false) ∧ e = .mismatch v name c := by
  unfold Step.Rejects takeSingle
  dsimp only
  rcases c.value with _ | a
  · simp
  · by_cases h : test a
    · simp [h]
    · simp [h]

theorem returns_takeSingle (test : α → Bool) : ((takeSingle name test).run v).Returns c := by
  unfold Step.Returns takeSingle
  dsimp only
  split
  · split
    · exact ⟨_, rfl⟩
    · exact ⟨_, rfl⟩
  · exact ⟨_, rfl⟩

theorem accepts_takeWhile {test : α → Bool} {xs : List α} :
    ((takeWhile name test).run v).Accepts c xs next ↔
      xs = c.remaining.takeWhile test ∧ xs ≠ [] ∧ next = c.advance xs.length := by
  unfold Step.Accepts takeWhile
  dsimp only
  rcases c.remaining.takeWhile test with _ | ⟨a, as⟩
  · simp only [Run.result?_fail_ne_ok, false_iff]
    intro h
    obtain ⟨rfl, h, -⟩ := h
    exact h rfl
  · simp only [Run.result?_pure_eq_ok, Prod.mk.injEq]
    constructor
    · intro h
      obtain ⟨rfl, rfl⟩ := h
      exact ⟨rfl, List.cons_ne_nil _ _, rfl⟩
    · intro h
      obtain ⟨rfl, -, rfl⟩ := h
      exact ⟨rfl, rfl⟩

theorem rejects_takeWhile {test : α → Bool} :
    ((takeWhile name test).run v).Rejects c e ↔
      c.remaining.takeWhile test = [] ∧ e = .mismatch v name c := by
  unfold Step.Rejects takeWhile
  dsimp only
  rcases c.remaining.takeWhile test with _ | ⟨a, as⟩
  · simp
  · simp

theorem returns_takeWhile (test : α → Bool) : ((takeWhile name test).run v).Returns c := by
  unfold Step.Returns takeWhile
  dsimp only
  split
  · exact ⟨_, rfl⟩
  · exact ⟨_, rfl⟩

theorem accepts_nothing {x : Unit} :
    ((nothing : Parser α Unit).run v).Accepts c x next ↔ next = c := by
  unfold Step.Accepts
  rw [run_nothing, Run.result?_pure_eq_ok, Prod.mk.injEq]
  exact and_iff_right rfl

theorem returns_nothing : ((nothing : Parser α Unit).run v).Returns c :=
  ⟨_, rfl⟩

theorem not_rejects_nothing : ¬ ((nothing : Parser α Unit).run v).Rejects c e := by
  unfold Step.Rejects
  rw [run_nothing]
  exact Run.result?_pure_ne_error

end Elements

/-! ## Other outputs, other names -/

section Outputs

variable {p : Parser α β}

theorem accepts_map {f : β → γ} {y : γ} :
    ((p.map f).run v).Accepts c y next ↔ ∃ x, (p.run v).Accepts c x next ∧ y = f x := by
  unfold Step.Accepts
  rw [run_map, Run.result?_bind_eq_ok]
  constructor
  · intro h
    obtain ⟨⟨x, mid⟩, hx, hy⟩ := h
    obtain ⟨rfl, rfl⟩ := Prod.mk.inj (Run.result?_pure_eq_ok.mp hy)
    exact ⟨x, hx, rfl⟩
  · intro h
    obtain ⟨x, hx, rfl⟩ := h
    exact ⟨(x, next), hx, Run.result?_pure_eq_ok.mpr rfl⟩

theorem rejects_map {f : β → γ} :
    ((p.map f).run v).Rejects c e ↔ (p.run v).Rejects c e := by
  unfold Step.Rejects
  rw [run_map, Run.result?_bind_eq_error]
  refine or_iff_left ?_
  intro h
  obtain ⟨⟨x, mid⟩, -, h⟩ := h
  exact Run.result?_pure_ne_error h

theorem returns_map {f : β → γ} (h : (p.run v).Returns c) : ((p.map f).run v).Returns c := by
  rcases Step.returns_iff.mp h with ⟨x, next, hx⟩ | ⟨e, he⟩
  · exact (accepts_map.mpr ⟨x, hx, rfl⟩).returns
  · exact (rejects_map.mpr he).returns

theorem accepts_convert {f : β → Except Fault γ} {y : γ} :
    ((p.convert f).run v).Accepts c y next ↔
      ∃ x, (p.run v).Accepts c x next ∧ f x = .ok y := by
  unfold Step.Accepts convert
  dsimp only
  rw [Run.result?_bind_eq_ok]
  constructor
  · intro h
    obtain ⟨⟨x, mid⟩, hx, hy⟩ := h
    cases hf : f x with
    | ok z =>
      rw [hf, converted, Run.result?_pure_eq_ok] at hy
      obtain ⟨rfl, rfl⟩ := Prod.mk.inj hy
      exact ⟨x, hx, hf⟩
    | error fault =>
      rw [hf, converted, Run.emit_bind, Run.result?_after] at hy
      exact absurd hy Run.result?_fail_ne_ok
  · intro h
    obtain ⟨x, hx, hf⟩ := h
    refine ⟨(x, next), hx, ?_⟩
    rw [hf, converted, Run.result?_pure_eq_ok]

theorem rejects_convert {f : β → Except Fault γ} :
    ((p.convert f).run v).Rejects c e ↔
      (p.run v).Rejects c e ∨
        ∃ x next fault, (p.run v).Accepts c x next ∧ f x = .error fault ∧
          e = .conversion p.name c.loc fault := by
  unfold Step.Rejects convert
  dsimp only
  rw [Run.result?_bind_eq_error]
  refine or_congr Iff.rfl ?_
  constructor
  · intro h
    obtain ⟨⟨x, mid⟩, hx, he⟩ := h
    cases hf : f x with
    | ok z =>
      rw [hf, converted] at he
      exact absurd he Run.result?_pure_ne_error
    | error fault =>
      rw [hf, converted, Run.emit_bind, Run.result?_after, Run.result?_fail_eq_error] at he
      exact ⟨x, mid, fault, hx, hf, he⟩
  · intro h
    obtain ⟨x, mid, fault, hx, hf, he⟩ := h
    refine ⟨(x, mid), hx, ?_⟩
    rw [hf, converted, Run.emit_bind, Run.result?_after, Run.result?_fail_eq_error]
    exact he

theorem returns_convert {f : β → Except Fault γ} (h : (p.run v).Returns c) :
    ((p.convert f).run v).Returns c := by
  rcases Step.returns_iff.mp h with ⟨x, next, hx⟩ | ⟨e, he⟩
  · cases hf : f x with
    | ok y => exact (accepts_convert.mpr ⟨x, hx, hf⟩).returns
    | error fault => exact (rejects_convert.mpr (Or.inr ⟨x, next, fault, hx, hf, rfl⟩)).returns
  · exact (rejects_convert.mpr (Or.inl he)).returns

theorem accepts_matchOnly {xs : List α} :
    (p.matchOnly.run v).Accepts c xs next ↔
      ∃ x, (p.run v).Accepts c x next ∧ xs = next.consumedSince c := by
  unfold Step.Accepts matchOnly
  dsimp only
  rw [Run.result?_bind_eq_ok]
  constructor
  · intro h
    obtain ⟨⟨x, mid⟩, hx, hy⟩ := h
    obtain ⟨rfl, rfl⟩ := Prod.mk.inj (Run.result?_pure_eq_ok.mp hy)
    exact ⟨x, hx, rfl⟩
  · intro h
    obtain ⟨x, hx, rfl⟩ := h
    exact ⟨(x, next), hx, Run.result?_pure_eq_ok.mpr rfl⟩

theorem rejects_matchOnly : (p.matchOnly.run v).Rejects c e ↔ (p.run v).Rejects c e := by
  unfold Step.Rejects matchOnly
  dsimp only
  rw [Run.result?_bind_eq_error]
  refine or_iff_left ?_
  intro h
  obtain ⟨⟨x, mid⟩, -, h⟩ := h
  exact Run.result?_pure_ne_error h

theorem returns_matchOnly (h : (p.run v).Returns c) : (p.matchOnly.run v).Returns c := by
  rcases Step.returns_iff.mp h with ⟨x, next, hx⟩ | ⟨e, he⟩
  · exact (accepts_matchOnly.mpr ⟨x, hx, rfl⟩).returns
  · exact (rejects_matchOnly.mpr he).returns

theorem accepts_named {label : String} {x : β} :
    ((p.named label).run v).Accepts c x next ↔ (p.run v).Accepts c x next := by
  unfold Step.Accepts named
  dsimp only
  rw [Run.result?_mapError]
  rcases ((p.run v) c).result? with _ | e | y <;> simp [Run.mapError_ok, Run.mapError_error]

theorem rejects_named {label : String} :
    ((p.named label).run v).Rejects c e ↔
      ∃ e', (p.run v).Rejects c e' ∧ e = e'.relabelled label c := by
  unfold Step.Rejects named
  dsimp only
  rw [Run.result?_mapError]
  rcases ((p.run v) c).result? with _ | e' | y <;>
    simp [Run.mapError_ok, Run.mapError_error, eq_comm]

theorem returns_named {label : String} (h : (p.run v).Returns c) :
    ((p.named label).run v).Returns c := by
  rcases Step.returns_iff.mp h with ⟨x, next, hx⟩ | ⟨e, he⟩
  · exact (accepts_named.mpr hx).returns
  · exact (rejects_named.mpr ⟨e, he, rfl⟩).returns

end Outputs

/-! ## One after another -/

section Sequences

variable {p : Parser α β} {q : Parser α γ}

theorem accepts_pair {z : β × γ} :
    ((pair p q).run v).Accepts c z next ↔
      ∃ x mid y, (p.run v).Accepts c x mid ∧ (q.run v).Accepts mid y next ∧ z = (x, y) := by
  unfold Step.Accepts pair
  dsimp only
  rw [Run.result?_bind_eq_ok]
  constructor
  · intro h
    obtain ⟨⟨x, mid⟩, hx, h⟩ := h
    obtain ⟨⟨y, last⟩, hy, hpure⟩ := Run.result?_bind_eq_ok.mp h
    obtain ⟨rfl, rfl⟩ := Prod.mk.inj (Run.result?_pure_eq_ok.mp hpure)
    exact ⟨x, mid, y, hx, hy, rfl⟩
  · intro h
    obtain ⟨x, mid, y, hx, hy, rfl⟩ := h
    refine ⟨(x, mid), hx, Run.result?_bind_eq_ok.mpr ⟨(y, next), hy, ?_⟩⟩
    exact Run.result?_pure_eq_ok.mpr rfl

theorem rejects_pair :
    ((pair p q).run v).Rejects c e ↔
      (p.run v).Rejects c e ∨ ∃ x mid, (p.run v).Accepts c x mid ∧ (q.run v).Rejects mid e := by
  unfold Step.Rejects Step.Accepts pair
  dsimp only
  rw [Run.result?_bind_eq_error]
  refine or_congr Iff.rfl ?_
  constructor
  · intro h
    obtain ⟨⟨x, mid⟩, hx, h⟩ := h
    rcases Run.result?_bind_eq_error.mp h with h | ⟨⟨y, last⟩, -, h⟩
    · exact ⟨x, mid, hx, h⟩
    · exact absurd h Run.result?_pure_ne_error
  · intro h
    obtain ⟨x, mid, hx, h⟩ := h
    exact ⟨(x, mid), hx, Run.result?_bind_eq_error.mpr (Or.inl h)⟩

theorem returns_pair (hp : (p.run v).Returns c)
    (hq : ∀ x mid, (p.run v).Accepts c x mid → (q.run v).Returns mid) :
    ((pair p q).run v).Returns c := by
  rcases Step.returns_iff.mp hp with ⟨x, mid, hx⟩ | ⟨e, he⟩
  · rcases Step.returns_iff.mp (hq x mid hx) with ⟨y, next, hy⟩ | ⟨e, he⟩
    · exact (accepts_pair.mpr ⟨x, mid, y, hx, hy, rfl⟩).returns
    · exact (rejects_pair.mpr (Or.inr ⟨x, mid, hx, he⟩)).returns
  · exact (rejects_pair.mpr (Or.inl he)).returns

/-- Three parsers of which the middle one counts are two pairs with the rest forgotten. -/
theorem run_delimited (before : Parser α β) (body : Parser α γ) (behind : Parser α δ) :
    (delimited before body behind).run v =
      ((pair before (pair body behind)).map fun z => z.2.1).run v := by
  funext c
  simp only [delimited, map, pair, Run.bind_assoc, Run.pure_bind]

theorem accepts_delimited {before : Parser α β} {body : Parser α γ} {behind : Parser α δ} {y : γ} :
    ((delimited before body behind).run v).Accepts c y next ↔
      ∃ x first second z, (before.run v).Accepts c x first ∧ (body.run v).Accepts first y second ∧
        (behind.run v).Accepts second z next := by
  rw [run_delimited, accepts_map]
  constructor
  · rintro ⟨_, hall, rfl⟩
    obtain ⟨x, first, _, hx, hrest, rfl⟩ := accepts_pair.mp hall
    obtain ⟨y, second, z, hy, hz, rfl⟩ := accepts_pair.mp hrest
    exact ⟨x, first, second, z, hx, hy, hz⟩
  · rintro ⟨x, first, second, z, hx, hy, hz⟩
    have hrest : ((pair body behind).run v).Accepts first (y, z) next :=
      accepts_pair.mpr ⟨y, second, z, hy, hz, rfl⟩
    exact ⟨(x, y, z), accepts_pair.mpr ⟨x, first, (y, z), hx, hrest, rfl⟩, rfl⟩

theorem rejects_delimited {before : Parser α β} {body : Parser α γ} {behind : Parser α δ} :
    ((delimited before body behind).run v).Rejects c e ↔
      (before.run v).Rejects c e ∨ ∃ x first, (before.run v).Accepts c x first ∧
        ((body.run v).Rejects first e ∨
          ∃ y second, (body.run v).Accepts first y second ∧ (behind.run v).Rejects second e) := by
  simp only [run_delimited, rejects_map, rejects_pair]

/-- A sequence is its first parser and then the others. -/
theorem run_sequence_cons (p : Parser α β) (ps : List (Parser α β)) :
    (sequence (p :: ps)).run v =
      ((pair p (sequence ps)).map fun z => z.1 :: z.2).run v := by
  funext c
  simp only [sequence, runAll, map, pair, Run.bind_assoc, Run.pure_bind]

theorem accepts_sequence_nil {xs : List β} :
    ((sequence ([] : List (Parser α β))).run v).Accepts c xs next ↔ xs = [] ∧ next = c := by
  unfold Step.Accepts sequence
  dsimp only
  rw [runAll_nil, Run.result?_pure_eq_ok, Prod.mk.injEq]

theorem not_rejects_sequence_nil :
    ¬ ((sequence ([] : List (Parser α β))).run v).Rejects c e := by
  unfold Step.Rejects sequence
  dsimp only
  rw [runAll_nil]
  exact Run.result?_pure_ne_error

theorem accepts_sequence_cons {ps : List (Parser α β)} {xs : List β} :
    ((sequence (p :: ps)).run v).Accepts c xs next ↔
      ∃ x mid ys, (p.run v).Accepts c x mid ∧ ((sequence ps).run v).Accepts mid ys next ∧
        xs = x :: ys := by
  rw [run_sequence_cons, accepts_map]
  constructor
  · intro h
    obtain ⟨z, hz, rfl⟩ := h
    obtain ⟨x, mid, ys, hx, hys, rfl⟩ := accepts_pair.mp hz
    exact ⟨x, mid, ys, hx, hys, rfl⟩
  · intro h
    obtain ⟨x, mid, ys, hx, hys, rfl⟩ := h
    exact ⟨(x, ys), accepts_pair.mpr ⟨x, mid, ys, hx, hys, rfl⟩, rfl⟩

theorem rejects_sequence_cons {ps : List (Parser α β)} :
    ((sequence (p :: ps)).run v).Rejects c e ↔
      (p.run v).Rejects c e ∨
        ∃ x mid, (p.run v).Accepts c x mid ∧ ((sequence ps).run v).Rejects mid e := by
  rw [run_sequence_cons, rejects_map, rejects_pair]

end Sequences

/-! ## One or another -/

section Choices

variable {β : Type} {p : Parser α β} {x : β}

/-- The first success comes from a parser before which all have failed. -/
theorem firstSuccess_eq_some {ps : List (Parser α β)} :
    (firstSuccess ps c).result? = some (.ok (some (x, next))) ↔
      ∃ before p behind, ps = before ++ p :: behind ∧
        (∀ q ∈ before, ∃ e, (q.run .terse).Rejects c e) ∧ (p.run .terse).Accepts c x next := by
  induction ps with
  | nil =>
    rw [firstSuccess_nil, Run.result?_pure_eq_ok]
    simp
  | cons p ps ih =>
    rw [firstSuccess_cons, Run.result?_attempt_bind]
    constructor
    · intro h
      rcases h with ⟨e | success, hp, h⟩
      · obtain ⟨before, q, behind, rfl, hbefore, hq⟩ := ih.mp h
        refine ⟨p :: before, q, behind, rfl, ?_, hq⟩
        intro q' hq'
        rcases List.mem_cons.mp hq' with rfl | hq'
        · exact ⟨e, hp⟩
        · exact hbefore q' hq'
      · rw [Run.result?_pure_eq_ok, Option.some.injEq] at h
        subst h
        exact ⟨[], p, ps, rfl, fun q hq => absurd hq List.not_mem_nil, hp⟩
    · intro h
      obtain ⟨before, q, behind, heq, hbefore, hq⟩ := h
      rcases before with _ | ⟨p', before⟩
      · obtain ⟨rfl, rfl⟩ := List.cons.inj heq
        exact ⟨_, hq, Run.result?_pure_eq_ok.mpr rfl⟩
      · obtain ⟨rfl, rfl⟩ := List.cons.inj heq
        obtain ⟨e, he⟩ := hbefore p List.mem_cons_self
        refine ⟨_, he, ih.mpr ⟨before, q, behind, rfl, ?_, hq⟩⟩
        exact fun q' hq' => hbefore q' (List.mem_cons_of_mem _ hq')

theorem firstSuccess_eq_none {ps : List (Parser α β)} :
    (firstSuccess ps c).result? = some (.ok none) ↔
      ∀ p ∈ ps, ∃ e, (p.run .terse).Rejects c e := by
  induction ps with
  | nil =>
    rw [firstSuccess_nil, Run.result?_pure_eq_ok]
    simp
  | cons p ps ih =>
    rw [firstSuccess_cons, Run.result?_attempt_bind, List.forall_mem_cons]
    constructor
    · intro h
      rcases h with ⟨e | success, hp, h⟩
      · exact ⟨⟨e, hp⟩, ih.mp h⟩
      · rw [Run.result?_pure_eq_ok] at h
        exact absurd h (by simp)
    · intro h
      obtain ⟨⟨e, hp⟩, h⟩ := h
      exact ⟨_, hp, ih.mpr h⟩

theorem firstSuccess_ne_error {ps : List (Parser α β)} :
    (firstSuccess ps c).result? ≠ some (.error e) := by
  induction ps with
  | nil =>
    rw [firstSuccess_nil]
    exact Run.result?_pure_ne_error
  | cons p ps ih =>
    rw [firstSuccess_cons, ne_eq, Run.result?_attempt_bind]
    intro h
    rcases h with ⟨e' | success, hp, h⟩
    · exact ih h
    · exact absurd h Run.result?_pure_ne_error

/-- What a choice does when all its parsers have failed. -/
def exhausted (ps : List (Parser α β)) (v : Verbosity) (c : Cursor α) :
    Run (ParseError α) (β × Cursor α) :=
  match v with
  | .terse => .fail .invalidInput
  | .verbose => do
    .emit (.exhausted ps.length c.position (choice ps).name)
    .fail (.expected (choice ps).name c.loc)

theorem run_choice (ps : List (Parser α β)) (c : Cursor α) :
    (choice ps).run v c = firstSuccess ps c >>= fun
      | some success => pure success
      | none => exhausted ps v c := rfl

theorem result?_exhausted (ps : List (Parser α β)) (v : Verbosity) (c : Cursor α) :
    (exhausted ps v c).result? = some (.error (.mismatch v (choice ps).name c)) := by
  cases v with
  | terse => rfl
  | verbose => rfl

/-- Of its parsers a choice that failed knows only the names. -/
theorem exhausted_congr {ps ps' : List (Parser α β)} (h : ps.map name = ps'.map name) :
    exhausted ps v = exhausted ps' v := by
  funext c
  have hlength : ps.length = ps'.length := by
    rw [← List.length_map (f := name), h, List.length_map]
  unfold exhausted
  rw [name_choice, name_choice, h, hlength]

theorem accepts_choice {ps : List (Parser α β)} :
    ((choice ps).run v).Accepts c x next ↔
      ∃ before p behind, ps = before ++ p :: behind ∧
        (∀ q ∈ before, ∃ e, (q.run .terse).Rejects c e) ∧ (p.run .terse).Accepts c x next := by
  rw [← firstSuccess_eq_some]
  unfold Step.Accepts
  rw [run_choice, Run.result?_bind_eq_ok]
  constructor
  · intro h
    rcases h with ⟨_ | success, hfirst, h⟩
    · rw [result?_exhausted] at h
      exact absurd h (by simp)
    · rw [Run.result?_pure_eq_ok] at h
      rw [h]
      exact hfirst
  · intro h
    exact ⟨_, h, Run.result?_pure_eq_ok.mpr rfl⟩

theorem rejects_choice {ps : List (Parser α β)} :
    ((choice ps).run v).Rejects c e ↔
      (∀ p ∈ ps, ∃ e, (p.run .terse).Rejects c e) ∧
        e = .mismatch v (choice ps).name c := by
  rw [← firstSuccess_eq_none]
  unfold Step.Rejects
  rw [run_choice, Run.result?_bind_eq_error]
  constructor
  · intro h
    rcases h with h | ⟨_ | success, hfirst, h⟩
    · exact absurd h firstSuccess_ne_error
    · rw [result?_exhausted] at h
      exact ⟨hfirst, (Except.error.inj (Option.some.inj h)).symm⟩
    · exact absurd h Run.result?_pure_ne_error
  · intro h
    obtain ⟨hfirst, rfl⟩ := h
    exact Or.inr ⟨none, hfirst, result?_exhausted ps v c⟩

theorem not_accepts_choice_nil :
    ¬ ((choice ([] : List (Parser α β))).run v).Accepts c x next := by
  rw [accepts_choice]
  rintro ⟨before, p, behind, hps, -, -⟩
  exact absurd hps (by simp)

/-- A choice is its first parser, or where this fails the choice among the others. -/
theorem accepts_choice_cons {ps : List (Parser α β)} :
    ((choice (p :: ps)).run v).Accepts c x next ↔
      (p.run .terse).Accepts c x next ∨
        (∃ e, (p.run .terse).Rejects c e) ∧ ((choice ps).run v).Accepts c x next := by
  rw [accepts_choice, accepts_choice]
  constructor
  · rintro ⟨before, q, behind, hps, hbefore, hq⟩
    rcases before with _ | ⟨_, before⟩
    · obtain ⟨rfl, rfl⟩ := List.cons.inj hps
      exact Or.inl hq
    · obtain ⟨rfl, rfl⟩ := List.cons.inj hps
      obtain ⟨hp, hbefore⟩ := List.forall_mem_cons.mp hbefore
      exact Or.inr ⟨hp, before, q, behind, rfl, hbefore, hq⟩
  · rintro (hp | ⟨hp, before, q, behind, rfl, hbefore, hq⟩)
    · exact ⟨[], p, ps, rfl, fun q hq => absurd hq List.not_mem_nil, hp⟩
    · exact ⟨p :: before, q, behind, rfl, List.forall_mem_cons.mpr ⟨hp, hbefore⟩, hq⟩

theorem accepts_choice_singleton :
    ((choice [p]).run v).Accepts c x next ↔ (p.run .terse).Accepts c x next := by
  rw [accepts_choice_cons]
  exact or_iff_left fun h => not_accepts_choice_nil h.2

theorem returns_choice {ps : List (Parser α β)} (h : ∀ p ∈ ps, (p.run .terse).Returns c) :
    ((choice ps).run v).Returns c := by
  by_cases hall : ∀ p ∈ ps, ∃ e, (p.run .terse).Rejects c e
  · exact (rejects_choice.mpr ⟨hall, rfl⟩).returns
  · -- Some alternative accepts; the first one that does is the outcome.
    have hfirst : ∃ before p behind, ps = before ++ p :: behind ∧
        (∀ q ∈ before, ∃ e, (q.run .terse).Rejects c e) ∧
          ∃ x next, (p.run .terse).Accepts c x next := by
      induction ps with
      | nil => exact absurd (fun p hp => absurd hp List.not_mem_nil) hall
      | cons p ps ih =>
        rcases Step.returns_iff.mp (h p List.mem_cons_self) with hp | hp
        · exact ⟨[], p, ps, rfl, fun q hq => absurd hq List.not_mem_nil, hp⟩
        · obtain ⟨before, q, behind, rfl, hbefore, hq⟩ :=
            ih (fun q hq => h q (List.mem_cons_of_mem _ hq))
              fun hps => hall (List.forall_mem_cons.mpr ⟨hp, hps⟩)
          exact ⟨p :: before, q, behind, rfl, List.forall_mem_cons.mpr ⟨hp, hbefore⟩, hq⟩
    obtain ⟨before, p, behind, heq, hbefore, x, next, hp⟩ := hfirst
    exact (accepts_choice.mpr ⟨before, p, behind, heq, hbefore, hp⟩).returns

theorem accepts_orDefault {fallback : β} :
    ((orDefault fallback p).run v).Accepts c x next ↔
      (p.run .terse).Accepts c x next ∨
        (∃ e, (p.run .terse).Rejects c e) ∧ x = fallback ∧ next = c := by
  unfold Step.Accepts Step.Rejects
  rw [run_orDefault, Run.result?_attempt_bind]
  constructor
  · intro h
    rcases h with ⟨e | success, hp, h⟩
    · exact Or.inr ⟨⟨e, hp⟩, Prod.mk.inj (Run.result?_pure_eq_ok.mp h)⟩
    · rw [Run.result?_pure_eq_ok.mp h]
      exact Or.inl hp
  · intro h
    rcases h with hp | ⟨⟨e, hp⟩, rfl, rfl⟩
    · exact ⟨_, hp, Run.result?_pure_eq_ok.mpr rfl⟩
    · exact ⟨_, hp, Run.result?_pure_eq_ok.mpr rfl⟩

theorem not_rejects_orDefault {fallback : β} :
    ¬ ((orDefault fallback p).run v).Rejects c e := by
  unfold Step.Rejects
  rw [run_orDefault, Run.result?_attempt_bind]
  intro h
  rcases h with ⟨e' | success, -, h⟩
  · exact absurd h Run.result?_pure_ne_error
  · exact absurd h Run.result?_pure_ne_error

theorem returns_orDefault {fallback : β} (h : (p.run .terse).Returns c) :
    ((orDefault fallback p).run v).Returns c := by
  rcases Step.returns_iff.mp h with ⟨x, next, hx⟩ | he
  · exact (accepts_orDefault.mpr (Or.inl hx)).returns
  · exact (accepts_orDefault.mpr (Or.inr ⟨he, rfl, rfl⟩)).returns

end Choices

end Parser

end Descent
