import Descent.ParseError

/-!
# Runs

What a parser does on an input is recorded in full: the diagnostic events on the way, in order, and
the result.  A third outcome, `unfinished`, is that of a recursion that was cut off; it says
nothing about the input, and nothing that follows it happens.  So a statement about runs that
finish needs no mention of how deep they were allowed to go.

Runs are a monad: events accumulate, a failure ends the run, and `attempt` hands a failure back as
a value, which is how an alternative is given up without losing what it reported.
-/

namespace Descent

/-- Something worth telling whoever watches a parse. -/
inductive Event where
  /-- A verbose choice between so many alternatives found none that matches at a position. -/
  | exhausted (count position : Nat) (expected : String)
  /-- A repetition found fewer elements than it needs. -/
  | tooFew (name : String) (found least position : Nat)
  /-- What was read under a name could not be converted. -/
  | unconverted (name : String) (reason : String)
  /-- A parser of the whole input ended before the input did. -/
  | leftover (name : String) (position length : Nat)
  deriving DecidableEq, Repr

/-- The event as one line. -/
def Event.message : Event → String
  | exhausted count position expected =>
    "all " ++ toString count ++ " alternatives failed at " ++ toString position ++ ": " ++ expected
  | tooFew name found least position =>
    name ++ " matched " ++ toString found ++ " of at least " ++ toString least ++ " at " ++
      toString position
  | unconverted name reason => "failed to convert " ++ name ++ ": " ++ reason
  | leftover name position length =>
    name ++ " stopped at " ++ toString position ++ " of " ++ toString length ++ " elements"

/-- What happened when a parser was run. -/
inductive Run (ε β : Type) where
  /-- It came to a result, reporting these events on the way. -/
  | finished (events : List Event) (result : Except ε β)
  /-- It was cut off. -/
  | unfinished

namespace Run

variable {ε ε' β γ : Type}

/-- A run that reports these events before all others. -/
def after (earlier : List Event) : Run ε β → Run ε β
  | finished [] result => finished earlier result
  | finished events result => finished (earlier ++ events) result
  | unfinished => unfinished

/-- Goes on with the value of a run; a failure is final. -/
def bind : Run ε β → (β → Run ε γ) → Run ε γ
  | finished events (.ok x), f => (f x).after events
  | finished events (.error e), _ => finished events (.error e)
  | unfinished, _ => unfinished

instance : Monad (Run ε) where
  pure x := finished [] (.ok x)
  bind := bind

/-- Ends the run with a failure. -/
def fail (e : ε) : Run ε β := finished [] (.error e)

/-- Reports an event. -/
def emit (event : Event) : Run ε Unit := finished [event] (.ok ())

/-- Turns a failure into a value, so that the run can go on. -/
def attempt : Run ε β → Run ε' (Except ε β)
  | finished events result => finished events (.ok result)
  | unfinished => unfinished

/-- Rewords a failure. -/
def mapError (f : ε → ε') : Run ε β → Run ε' β
  | finished events result => finished events (result.mapError f)
  | unfinished => unfinished

/-- What the run came to, if it finished. -/
def result? : Run ε β → Option (Except ε β)
  | finished _ result => some result
  | unfinished => none

/-- The events of the run; none if it was cut off. -/
def events : Run ε β → List Event
  | finished events _ => events
  | unfinished => []

/-! ## Equations -/

@[simp] theorem after_finished (earlier events : List Event) (result : Except ε β) :
    (finished events result).after earlier = finished (earlier ++ events) result := by
  cases events with
  | nil => rw [after, List.append_nil]
  | cons => rfl

@[simp] theorem after_unfinished (earlier : List Event) :
    (unfinished : Run ε β).after earlier = unfinished := rfl

@[simp] theorem after_nil (run : Run ε β) : run.after [] = run := by
  cases run <;> simp

theorem after_after (first second : List Event) (run : Run ε β) :
    (run.after second).after first = run.after (first ++ second) := by
  cases run <;> simp

theorem pure_eq (x : β) : (pure x : Run ε β) = finished [] (.ok x) := rfl

theorem bind_eq (run : Run ε β) (f : β → Run ε γ) : run >>= f = run.bind f := rfl

@[simp] theorem pure_bind (x : β) (f : β → Run ε γ) : (pure x : Run ε β) >>= f = f x :=
  after_nil (f x)

@[simp] theorem finished_ok_bind (events : List Event) (x : β) (f : β → Run ε γ) :
    (finished events (.ok x) : Run ε β) >>= f = (f x).after events := rfl

@[simp] theorem finished_error_bind (events : List Event) (e : ε) (f : β → Run ε γ) :
    (finished events (.error e) : Run ε β) >>= f = finished events (.error e) := rfl

@[simp] theorem unfinished_bind (f : β → Run ε γ) :
    (unfinished : Run ε β) >>= f = unfinished := rfl

@[simp] theorem fail_bind (e : ε) (f : β → Run ε γ) :
    (fail e : Run ε β) >>= f = fail e := rfl

@[simp] theorem emit_bind (event : Event) (f : Unit → Run ε γ) :
    emit event >>= f = (f ()).after [event] := rfl

theorem after_bind (earlier : List Event) (run : Run ε β) (f : β → Run ε γ) :
    run.after earlier >>= f = (run >>= f).after earlier := by
  rcases run with ⟨events, e | x⟩ | _
  · simp
  · simp [after_after]
  · rfl

theorem id_map (run : Run ε β) : id <$> run = run := by
  rcases run with ⟨events, _ | _⟩ | _
  · rfl
  · rfl
  · rfl

theorem bind_assoc {δ : Type} (run : Run ε β) (f : β → Run ε γ) (g : γ → Run ε δ) :
    run >>= f >>= g = run >>= fun x => f x >>= g := by
  rcases run with ⟨events, _ | x⟩ | _
  · rfl
  · exact after_bind events (f x) g
  · rfl

instance : LawfulMonad (Run ε) :=
  LawfulMonad.mk' _ id_map pure_bind bind_assoc

@[simp] theorem attempt_finished (events : List Event) (result : Except ε β) :
    (finished events result).attempt = (finished events (.ok result) : Run ε' _) := rfl

@[simp] theorem attempt_unfinished :
    (unfinished : Run ε β).attempt = (unfinished : Run ε' _) := rfl

@[simp] theorem result?_finished (events : List Event) (result : Except ε β) :
    (finished events result).result? = some result := rfl

@[simp] theorem result?_unfinished : (unfinished : Run ε β).result? = none := rfl

@[simp] theorem result?_after (earlier : List Event) (run : Run ε β) :
    (run.after earlier).result? = run.result? := by
  cases run <;> simp

/-- What a continued run comes to depends on the first part only through what that comes to. -/
theorem result?_bind (run : Run ε β) (f : β → Run ε γ) :
    (run >>= f).result? =
      match run.result? with
      | some (.ok x) => (f x).result?
      | some (.error e) => some (.error e)
      | none => none := by
  rcases run with ⟨events, e | x⟩ | _
  · rfl
  · exact result?_after events (f x)
  · rfl

@[simp] theorem result?_attempt (run : Run ε β) :
    (run.attempt : Run ε' _).result? = run.result?.map .ok := by
  cases run <;> rfl

@[simp] theorem result?_mapError (f : ε → ε') (run : Run ε β) :
    (run.mapError f).result? = run.result?.map (Except.mapError f) := by
  cases run <;> rfl

end Run

end Descent
