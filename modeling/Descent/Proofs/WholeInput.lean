import Descent.Proofs.Consumption
import Descent.Proofs.Verbosity

/-!
# Two ways to read an input

An input can be read from its start as far as the grammar goes, which leaves the rest to the caller,
or it has to be read to its end.  The first asks the last cursor what remains, the second asks it
whether it is of the form that marks the end of input.  For well-formed cursors these are the same
question, and a success from the start of an input ends on a well-formed cursor of that input if the
functions in the grammar see to it (`StaysWellFormed`).

So the two ways agree (`Rules.entry_points_agree`): reading to the end succeeds where reading as far
as possible leaves nothing, it complains of the rest where that leaves one, and else both fail with
the same error.  That complaint is an error like others, though, and a function may make it itself;
then both ways fail with it.
-/

namespace Descent

variable {α β κ ρ : Type}

/-- From a well-formed cursor it is a well-formed one of the same input. -/
def StaysWellFormed (c next : Cursor α) : Prop :=
  c.WellFormed → next.WellFormed ∧ next.source = c.source

theorem isPassage_staysWellFormed : IsPassage (α := α) StaysWellFormed where
  refl _ hc := ⟨hc, rfl⟩
  trans h h' hc := by
    obtain ⟨hmid, hsource⟩ := h hc
    obtain ⟨hnext, hsource'⟩ := h' hmid
    exact ⟨hnext, hsource'.trans hsource⟩
  advance c count hc :=
    ⟨(isPassage_onward.advance c count).wellFormed hc, Cursor.source_advance c count⟩

/-- The position of a cursor can be told from what remains. -/
theorem Cursor.position_eq_sub (c : Cursor α) :
    c.position = c.source.length - c.remaining.length := by
  rw [← c.position_add_length_remaining, Nat.add_sub_cancel_right]

/-! ## Parsers -/

namespace Parser

variable {p : Parser α β} {v : Verbosity} {input rest : List α} {x : β} {e : ParseError α}

theorem parseSlice_eq_ok :
    (p.parseSlice v input).result? = some (.ok (x, rest)) ↔
      ∃ next, (p.run v).Accepts (Cursor.new input) x next ∧ next.remaining = rest := by
  unfold parseSlice
  rw [Run.result?_bind_eq_ok]
  constructor
  · rintro ⟨⟨y, next⟩, hy, hpure⟩
    obtain ⟨rfl, rfl⟩ := Prod.mk.inj (Run.result?_pure_eq_ok.mp hpure)
    exact ⟨next, hy, rfl⟩
  · rintro ⟨next, hx, rfl⟩
    exact ⟨(x, next), hx, Run.result?_pure_eq_ok.mpr rfl⟩

theorem parseSlice_eq_error :
    (p.parseSlice v input).result? = some (.error e) ↔
      (p.run v).Rejects (Cursor.new input) e := by
  unfold parseSlice
  rw [Run.result?_bind_eq_error]
  constructor
  · rintro (he | ⟨y, -, hpure⟩)
    · exact he
    · exact absurd hpure Run.result?_pure_ne_error
  · exact Or.inl

theorem parseComplete_eq_ok :
    (p.parseComplete v input).result? = some (.ok x) ↔
      ∃ next, (p.run v).Accepts (Cursor.new input) x next ∧ next.isEnd = true := by
  unfold parseComplete
  rw [Run.result?_bind_eq_ok]
  constructor
  · rintro ⟨⟨y, next⟩, hy, hend⟩
    dsimp only at hend
    split at hend
    · obtain rfl := Run.result?_pure_eq_ok.mp hend
      exact ⟨next, hy, ‹_›⟩
    · rw [Run.emit_bind, Run.result?_after] at hend
      exact absurd hend Run.result?_fail_ne_ok
  · rintro ⟨next, hx, hend⟩
    refine ⟨(x, next), hx, ?_⟩
    dsimp only
    rw [if_pos hend, Run.result?_pure_eq_ok]

theorem parseComplete_eq_error :
    (p.parseComplete v input).result? = some (.error e) ↔
      (p.run v).Rejects (Cursor.new input) e ∨
        ∃ x next, (p.run v).Accepts (Cursor.new input) x next ∧ next.isEnd = false ∧
          e = .trailingInput next.loc := by
  unfold parseComplete
  rw [Run.result?_bind_eq_error]
  refine or_congr Iff.rfl ?_
  constructor
  · rintro ⟨⟨y, next⟩, hy, hend⟩
    dsimp only at hend
    split at hend
    · exact absurd hend Run.result?_pure_ne_error
    · rw [Run.emit_bind, Run.result?_after, Run.result?_fail_eq_error] at hend
      exact ⟨y, next, hy, Bool.eq_false_iff.mpr ‹_›, hend⟩
  · rintro ⟨x, next, hx, hend, rfl⟩
    refine ⟨(x, next), hx, ?_⟩
    dsimp only
    rw [hend, if_neg (by simp), Run.emit_bind, Run.result?_after, Run.result?_fail_eq_error]

end Parser

/-! ## Grammars -/

variable [DecidableEq α]

namespace Rules

/-- With references nesting deep enough, reading the input as far as the grammar goes comes to this
output and this rest, or to this error. -/
def Slices (rules : Rules α κ ρ) (g : Grammar α κ ρ) (v : Verbosity) (input : List α)
    (r : Except (ParseError α) (Tree α κ × List α)) : Prop :=
  ∃ levels, ((rules.parser levels g).parseSlice v input).result? = some r

/-- With references nesting deep enough, reading the input to its end comes to this result. -/
def Completes (rules : Rules α κ ρ) (g : Grammar α κ ρ) (v : Verbosity) (input : List α)
    (r : Except (ParseError α) (Tree α κ)) : Prop :=
  ∃ levels, ((rules.parser levels g).parseComplete v input).result? = some r

/-- Reading the input as far as the grammar goes succeeds and leaves a rest, which starts here. -/
def LeavesRest (rules : Rules α κ ρ) (g : Grammar α κ ρ) (v : Verbosity) (input : List α)
    (loc : Location α) : Prop :=
  ∃ x rest, rules.Slices g v input (.ok (x, rest)) ∧ rest ≠ [] ∧
    loc.source = input ∧ loc.position = input.length - rest.length ∧ loc.rest = rest

variable {rules : Rules α κ ρ} {g : Grammar α κ ρ} {v : Verbosity} {input rest : List α}
  {x : Tree α κ} {e : ParseError α}

theorem slices_ok : rules.Slices g v input (.ok (x, rest)) ↔
    ∃ next, rules.Yields g v (Cursor.new input) (.ok (x, next)) ∧ next.remaining = rest := by
  constructor
  · rintro ⟨levels, h⟩
    obtain ⟨next, hx, hrest⟩ := Parser.parseSlice_eq_ok.mp h
    exact ⟨next, ⟨levels, hx⟩, hrest⟩
  · rintro ⟨next, ⟨levels, hx⟩, hrest⟩
    exact ⟨levels, Parser.parseSlice_eq_ok.mpr ⟨next, hx, hrest⟩⟩

theorem slices_error : rules.Slices g v input (.error e) ↔
    rules.Yields g v (Cursor.new input) (.error e) :=
  exists_congr fun _ => Parser.parseSlice_eq_error

theorem completes_ok : rules.Completes g v input (.ok x) ↔
    ∃ next, rules.Yields g v (Cursor.new input) (.ok (x, next)) ∧ next.isEnd = true := by
  constructor
  · rintro ⟨levels, h⟩
    obtain ⟨next, hx, hend⟩ := Parser.parseComplete_eq_ok.mp h
    exact ⟨next, ⟨levels, hx⟩, hend⟩
  · rintro ⟨next, ⟨levels, hx⟩, hend⟩
    exact ⟨levels, Parser.parseComplete_eq_ok.mpr ⟨next, hx, hend⟩⟩

theorem completes_error : rules.Completes g v input (.error e) ↔
    rules.Yields g v (Cursor.new input) (.error e) ∨
      ∃ x next, rules.Yields g v (Cursor.new input) (.ok (x, next)) ∧ next.isEnd = false ∧
        e = .trailingInput next.loc := by
  constructor
  · rintro ⟨levels, h⟩
    rcases Parser.parseComplete_eq_error.mp h with he | ⟨x, next, hx, hend⟩
    · exact Or.inl ⟨levels, he⟩
    · exact Or.inr ⟨x, next, ⟨levels, hx⟩, hend⟩
  · rintro (⟨levels, he⟩ | ⟨x, next, ⟨levels, hx⟩, hend⟩)
    · exact ⟨levels, Parser.parseComplete_eq_error.mpr (Or.inl he)⟩
    · exact ⟨levels, Parser.parseComplete_eq_error.mpr (Or.inr ⟨x, next, hx, hend⟩)⟩

/-- A success from the start of an input ends on a well-formed cursor of that input. -/
theorem wellFormed_of_yields {next : Cursor α}
    (hfunc : ∀ run, rules.Contains g (.func run) → ∀ v, Step.Keeps StaysWellFormed (run v))
    (h : rules.Yields g v (Cursor.new input) (.ok (x, next))) :
    next.WellFormed ∧ next.source = input := by
  obtain ⟨levels, hx⟩ := h
  have hstays := rules.keeps isPassage_staysWellFormed levels g hfunc v _ x next hx
  obtain ⟨hnext, hsource⟩ := hstays (Cursor.wellFormed_place input 0)
  exact ⟨hnext, hsource.trans (Cursor.source_new input)⟩

/-- Where a success leaves something unread, it leaves a rest there, and nowhere else. -/
theorem leavesRest_iff {loc : Location α}
    (hfunc : ∀ run, rules.Contains g (.func run) → ∀ v, Step.Keeps StaysWellFormed (run v)) :
    rules.LeavesRest g v input loc ↔
      ∃ x next, rules.Yields g v (Cursor.new input) (.ok (x, next)) ∧ next.isEnd = false ∧
        loc = next.loc := by
  constructor
  · rintro ⟨x, rest, hslice, hrest, hsource, hposition, -⟩
    obtain ⟨next, hx, rfl⟩ := slices_ok.mp hslice
    obtain ⟨hnext, hsource'⟩ := wellFormed_of_yields hfunc hx
    refine ⟨x, next, hx, ?_, ?_⟩
    · exact Bool.eq_false_iff.mpr fun hend => hrest (hnext.isEnd_iff_remaining.mp hend)
    · rw [← hsource', ← next.position_eq_sub] at hposition
      rw [Cursor.loc, hsource', ← hsource, ← hposition]
  · rintro ⟨x, next, hx, hend, rfl⟩
    obtain ⟨hnext, hsource⟩ := wellFormed_of_yields hfunc hx
    refine ⟨x, next.remaining, slices_ok.mpr ⟨next, hx, rfl⟩, ?_, hsource, ?_, ?_⟩
    · intro hnil
      rw [hnext.isEnd_iff_remaining.mpr hnil] at hend
      exact absurd hend (by simp)
    · rw [← hsource]
      exact next.position_eq_sub
    · exact next.remaining_eq_drop.symm

/-- **The entry points agree.**  Let the functions in a grammar lead from well-formed cursors to
well-formed cursors of the same input.  Then reading an input to its end succeeds exactly if reading
it as far as the grammar goes succeeds with nothing left.  It fails with an error other than the
complaint of left input exactly if that does, with the same error; and it complains exactly if that
leaves a rest, of the place where the rest starts, or if that makes the same complaint.  The latter
happens only if a function makes it that a caller can hear of. -/
theorem entry_points_agree (rules : Rules α κ ρ) (g : Grammar α κ ρ)
    (hfunc : ∀ run, rules.Contains g (.func run) → ∀ v, Step.Keeps StaysWellFormed (run v))
    (v : Verbosity) (input : List α) :
    (∀ x, rules.Completes g v input (.ok x) ↔ rules.Slices g v input (.ok (x, []))) ∧
      (∀ e, (∀ loc, e ≠ .trailingInput loc) →
        (rules.Completes g v input (.error e) ↔ rules.Slices g v input (.error e))) ∧
      (∀ loc, rules.Completes g v input (.error (.trailingInput loc)) ↔
        rules.LeavesRest g v input loc ∨ rules.Slices g v input (.error (.trailingInput loc))) ∧
      ((∀ run, rules.Exposes g (.func run) →
          ∀ c loc, ¬ Step.Rejects (run v) c (.trailingInput loc)) →
        ∀ loc, rules.Completes g v input (.error (.trailingInput loc)) ↔
          rules.LeavesRest g v input loc) := by
  have htrailing : ∀ loc, rules.Completes g v input (.error (.trailingInput loc)) ↔
      rules.LeavesRest g v input loc ∨ rules.Slices g v input (.error (.trailingInput loc)) := by
    intro loc
    rw [completes_error, slices_error, leavesRest_iff hfunc, or_comm]
    simp only [ParseError.trailingInput.injEq]
  refine ⟨?_, ?_, htrailing, ?_⟩
  · intro x
    -- the one asks for the form of the last cursor, the other for what remains behind it
    rw [completes_ok, slices_ok]
    refine exists_congr fun next => and_congr_right fun hx => ?_
    exact (wellFormed_of_yields hfunc hx).1.isEnd_iff_remaining
  · intro e he
    rw [completes_error, slices_error]
    refine or_iff_left ?_
    rintro ⟨x, next, -, -, rfl⟩
    exact he next.loc rfl
  · intro hquiet loc
    rw [htrailing, slices_error]
    refine or_iff_left ?_
    rintro ⟨levels, he⟩
    exact rules.not_rejects_trailingInput levels g hquiet _ loc he

/-- A word, read and then returned to from its second letter on. -/
def rereading : Rules Char Unit Unit := fun _ =>
  .sequence [.tag "WORD" ['a', 'b'],
    .func fun _ c => pure (.unit, (Cursor.new c.source).advance 1)]

/-- The function leads backwards, but to a well-formed cursor, and it leaves the second letter. -/
theorem rereading_leaves_rest :
    (∀ run, rereading.Contains (.defer "WORD" ()) (.func run) →
        ∀ v, Step.Keeps StaysWellFormed (run v)) ∧
      (∀ run, rereading.Exposes (.defer "WORD" ()) (.func run) →
        ∀ c loc, ¬ Step.Rejects (run .verbose) c (.trailingInput loc)) ∧
      rereading.Slices (.defer "WORD" ()) .verbose ['a', 'b']
        (.ok (.list [.span ['a', 'b'], .unit], ['b'])) ∧
      rereading.Completes (.defer "WORD" ()) .verbose ['a', 'b']
        (.error (.trailingInput ⟨['a', 'b'], 1⟩)) := by
  have hrun : ∀ run, rereading.Contains (.defer "WORD" ()) (.func run) →
      run = fun _ c => pure (.unit, (Cursor.new c.source).advance 1) := by
    intro run h
    cases h with
    | part hq => exact absurd hq List.not_mem_nil
    | rule h =>
      unfold rereading at h
      cases h with
      | part hq h =>
        rcases List.mem_pair.mp hq with rfl | rfl
        · cases h with
          | part hq => exact absurd hq List.not_mem_nil
        · cases h with
          | self => rfl
          | part hq => exact absurd hq List.not_mem_nil
  have hfunc : ∀ run, rereading.Contains (.defer "WORD" ()) (.func run) →
      ∀ v, Step.Keeps StaysWellFormed (run v) := by
    intro run h v c x next hx _
    rw [hrun run h] at hx
    obtain ⟨-, rfl⟩ := Prod.mk.inj (Run.result?_pure_eq_ok.mp hx)
    exact ⟨Cursor.wellFormed_advance_new c.source 1, by simp⟩
  have hquiet : ∀ run, rereading.Exposes (.defer "WORD" ()) (.func run) →
      ∀ c loc, ¬ Step.Rejects (run .verbose) c (.trailingInput loc) := by
    intro run h c loc he
    rw [hrun run h.contains] at he
    exact absurd he Run.result?_pure_ne_error
  have hslice : rereading.Slices (.defer "WORD" ()) .verbose ['a', 'b']
      (.ok (.list [.span ['a', 'b'], .unit], ['b'])) := ⟨1, rfl⟩
  obtain ⟨-, -, -, hcomplains⟩ := entry_points_agree _ _ hfunc .verbose ['a', 'b']
  have hrest : rereading.LeavesRest (.defer "WORD" ()) .verbose ['a', 'b'] ⟨['a', 'b'], 1⟩ :=
    ⟨_, _, hslice, by simp, rfl, rfl, rfl⟩
  exact ⟨hfunc, hquiet, hslice, (hcomplains hquiet _).mpr hrest⟩

/-- A function that complains of the input it is given, without reading any. -/
def complaining : Rules Char Unit Unit := fun _ =>
  .func fun _ c => .fail (.trailingInput c.loc)

/-- The function never yields a cursor, so it leads nowhere from well-formed ones.  On `ab` reading
to the end fails with its complaint, but reading as far as possible leaves no rest: it fails too. -/
theorem complaining_without_rest :
    (∀ run, complaining.Contains (complaining ()) (.func run) →
        ∀ v, Step.Keeps StaysWellFormed (run v)) ∧
      ¬ ((∃ loc, complaining.Completes (complaining ()) .terse ['a', 'b']
          (.error (.trailingInput loc))) ↔
        ∃ x rest, complaining.Slices (complaining ()) .terse ['a', 'b'] (.ok (x, rest)) ∧
          rest ≠ []) := by
  constructor
  · intro run h v c x next hx
    have hrun : run = fun _ c => .fail (.trailingInput c.loc) := by
      cases h with
      | self => rfl
      | part hq => exact absurd hq List.not_mem_nil
    rw [hrun] at hx
    exact absurd hx Run.result?_fail_ne_ok
  · intro h
    have hcomplains : complaining.Completes (complaining ()) .terse ['a', 'b']
        (.error (.trailingInput ⟨['a', 'b'], 0⟩)) := ⟨0, rfl⟩
    obtain ⟨x, rest, hslice, -⟩ := h.mp ⟨_, hcomplains⟩
    obtain ⟨next, ⟨levels, hx⟩, -⟩ := slices_ok.mp hslice
    exact absurd hx Run.result?_fail_ne_ok

end Rules

end Descent
