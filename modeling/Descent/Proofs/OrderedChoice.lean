import Descent.Proofs.Labels

/-!
# The algebra of choices

A choice is a search for the first success, among alternatives that are run tersely and in order.
All laws follow from two facts about that search.  It may be cut in two anywhere
(`firstSuccess_append`), so that an alternative which was tried before, and has failed, fails again
where it stands behind the cut.  And a choice among the alternatives may be replaced by its own,
because what a terse choice says when it fails is not used (`firstSuccess_choice_cons`); this may be
done at any depth (`Flattened`).

Choices that search alike still differ in what they say when everything has failed, since they say
it in the names of their alternatives.  So the laws hold up to texts (`Step.Rewords`).

That alternatives run tersely does not show if they do the same verbosely, errors apart (`Steady`).
Left factoring depends on it: what is in front of a choice hears the verbosity of the caller, and
what is in front of every alternative does not.

* `ordered_choice_algebra`: the first success wins, and the laws.
-/

namespace Descent

open ParseError (SameKind)

variable {α β γ : Type} {v : Verbosity} {c next : Cursor α} {x : β}

/-- Steps that come to the same success, or to failures of one kind at one place: at most the texts
of failures differ. -/
def Step.Rewords (s s' : Step α β) : Prop :=
  ∀ c, Option.Rel (Agree (SameKind Eq) Eq) (s c).result? (s' c).result?

namespace Step.Rewords

variable {s s' : Step α β}

theorem accepts_iff (h : s.Rewords s') : s.Accepts c x next ↔ s'.Accepts c x next := by
  have hresult := h c
  unfold Step.Accepts
  generalize (s c).result? = r, (s' c).result? = r' at hresult ⊢
  cases hresult with
  | none => exact Iff.rfl
  | some hagree =>
    cases hagree with
    | ok hy => rw [hy]
    | error => simp

theorem fails_iff (h : s.Rewords s') : (∃ e, s.Rejects c e) ↔ ∃ e, s'.Rejects c e := by
  have hresult := h c
  unfold Step.Rejects
  generalize (s c).result? = r, (s' c).result? = r' at hresult ⊢
  cases hresult with
  | none => exact Iff.rfl
  | some hagree =>
    cases hagree with
    | ok hy => rw [hy]
    | error => exact ⟨fun _ => ⟨_, rfl⟩, fun _ => ⟨_, rfl⟩⟩

end Step.Rewords

namespace Parser

/-! ## Parsers that do not care for verbosity -/

/-- From the cursor the parser succeeds at both verbosities or at neither, with the same output and
end, and so it fails, with whatever errors. -/
structure Steady (p : Parser α β) (c : Cursor α) : Prop where
  accepts : ∀ x next, (p.run .terse).Accepts c x next ↔ (p.run .verbose).Accepts c x next
  rejects : (∃ e, (p.run .terse).Rejects c e) ↔ ∃ e, (p.run .verbose).Rejects c e

namespace Steady

variable {p : Parser α β}

theorem accepts_iff (h : Steady p c) (v : Verbosity) :
    (p.run .terse).Accepts c x next ↔ (p.run v).Accepts c x next := by
  cases v with
  | terse => exact Iff.rfl
  | verbose => exact h.accepts x next

theorem rejects_iff (h : Steady p c) (v : Verbosity) :
    (∃ e, (p.run .terse).Rejects c e) ↔ ∃ e, (p.run v).Rejects c e := by
  cases v with
  | terse => exact Iff.rfl
  | verbose => exact h.rejects

theorem returns_iff (h : Steady p c) (v : Verbosity) :
    (p.run .terse).Returns c ↔ (p.run v).Returns c := by
  rw [Step.returns_iff, Step.returns_iff, h.rejects_iff v]
  exact or_congr (exists_congr fun x => exists_congr fun next => h.accepts_iff v) Iff.rfl

/-- A parser that keeps its outcome is steady where it comes to one. -/
theorem of_keepsOutcome (h : KeepsOutcome p.run) (hterse : (p.run .terse).Returns c)
    (hverbose : (p.run .verbose).Returns c) : Steady p c := by
  obtain ⟨r, hr⟩ := hterse
  obtain ⟨r', hr'⟩ := hverbose
  cases h c r r' hr hr' with
  | @ok y y' hy =>
    subst hy
    constructor
    · intro x next
      unfold Step.Accepts
      rw [hr, hr']
    · unfold Step.Rejects
      rw [hr, hr']
  | @error e e' =>
    constructor
    · intro x next
      unfold Step.Accepts
      simp [hr, hr']
    · exact ⟨fun _ => ⟨e', hr'⟩, fun _ => ⟨e, hr⟩⟩

end Steady

/-! ## The search for the first success -/

theorem firstSuccess_append (ps qs : List (Parser α β)) (c : Cursor α) :
    firstSuccess (ps ++ qs) c = firstSuccess ps c >>= fun
      | some success => pure (some success)
      | none => firstSuccess qs c := by
  induction ps with
  | nil => rw [List.nil_append, firstSuccess_nil, Run.pure_bind]
  | cons p ps ih =>
    rw [List.cons_append, firstSuccess_cons, firstSuccess_cons, Run.bind_assoc]
    congr 1
    funext r
    cases r with
    | error e => exact ih
    | ok success => rw [Run.pure_bind]

/-- **Among alternatives a choice stands for its own.** -/
theorem firstSuccess_choice_cons (inner behind : List (Parser α β)) (c : Cursor α) :
    firstSuccess (choice inner :: behind) c = firstSuccess (inner ++ behind) c := by
  rw [firstSuccess_append, firstSuccess_cons, run_choice]
  rcases hinner : firstSuccess inner c with ⟨events, e | _ | success⟩ | _
  · exact absurd (congrArg Run.result? hinner) firstSuccess_ne_error
  · simp [exhausted, Run.fail]
  · simp [Run.pure_eq]
  · rfl

/-- An alternative that has failed fails again. -/
theorem result?_firstSuccess_again {before behind : List (Parser α β)} {p : Parser α β}
    (hp : p ∈ before) : (firstSuccess (before ++ p :: behind) c).result? =
      (firstSuccess (before ++ behind) c).result? := by
  rw [firstSuccess_append, firstSuccess_append, Run.result?_bind, Run.result?_bind]
  rcases hbefore : (firstSuccess before c).result? with _ | e | _ | success
  · rfl
  · rfl
  · obtain ⟨e, he⟩ := firstSuccess_eq_none.mp hbefore p hp
    have hresult : (p.run .terse c).result? = some (.error e) := he
    dsimp only
    rw [firstSuccess_cons, Run.result?_bind, Run.result?_attempt, hresult]
    rfl
  · rfl

/-! ## Choices that search alike -/

theorem rewords_choice {ps qs : List (Parser α β)}
    (h : ∀ c, (firstSuccess ps c).result? = (firstSuccess qs c).result?) (v : Verbosity) :
    ((choice ps).run v).Rewords ((choice qs).run v) := by
  intro c
  rw [run_choice, run_choice, Run.result?_bind, Run.result?_bind, h c]
  rcases hfirst : (firstSuccess qs c).result? with _ | e | _ | success
  · exact Option.Rel.none
  · exact absurd hfirst firstSuccess_ne_error
  · dsimp only
    rw [result?_exhausted, result?_exhausted]
    exact Option.Rel.some (Agree.error (SameKind.mismatch v _ _ rfl))
  · exact Option.Rel.some (Agree.ok rfl)

/-- The second list has the alternatives of some of the choices in the first in place of these, at
any depth. -/
inductive Flattened : List (Parser α β) → List (Parser α β) → Prop
  | nil : Flattened [] []
  | keep (p : Parser α β) {ps qs : List (Parser α β)} : Flattened ps qs →
    Flattened (p :: ps) (p :: qs)
  | spread {inner outer ps qs : List (Parser α β)} : Flattened inner outer → Flattened ps qs →
    Flattened (choice inner :: ps) (outer ++ qs)

theorem Flattened.firstSuccess_eq {ps qs : List (Parser α β)} (h : Flattened ps qs)
    (c : Cursor α) : firstSuccess ps c = firstSuccess qs c := by
  induction h with
  | nil => rfl
  | keep p _ ih => rw [firstSuccess_cons, firstSuccess_cons, ih]
  | spread _ _ ihInner ih =>
    rw [firstSuccess_choice_cons, firstSuccess_append, firstSuccess_append, ihInner, ih]

theorem Flattened.rewords {ps qs : List (Parser α β)} (h : Flattened ps qs) (v : Verbosity) :
    ((choice ps).run v).Rewords ((choice qs).run v) :=
  rewords_choice (fun c => by rw [h.firstSuccess_eq]) v

/-- Three alternatives, bracketed to either side. -/
example (p q r : Parser α β) : Flattened [choice [p, q], r] [p, q, r] ∧
    Flattened [p, choice [q, r]] [p, q, r] :=
  ⟨.spread (.keep p (.keep q .nil)) (.keep r .nil), .keep p (.spread (.keep q (.keep r .nil)) .nil)⟩

/-! ## What a choice of steady alternatives does -/

section Steady

variable {ps : List (Parser α β)} {e : ParseError α} (hps : ∀ p ∈ ps, Steady p c) (v : Verbosity)

include hps

theorem accepts_choice_iff :
    ((choice ps).run v).Accepts c x next ↔
      ∃ before p behind, ps = before ++ p :: behind ∧
        (∀ q ∈ before, ∃ e, (q.run v).Rejects c e) ∧ (p.run v).Accepts c x next := by
  rw [accepts_choice]
  refine exists_congr fun before => exists_congr fun p => exists_congr fun behind =>
    and_congr_right fun heq => ?_
  have hbefore : ∀ q ∈ before, Steady q c := fun q hq =>
    hps q (heq ▸ List.mem_append_left _ hq)
  have hp : Steady p c := hps p (heq ▸ List.mem_append_right _ List.mem_cons_self)
  exact and_congr (forall₂_congr fun q hq => (hbefore q hq).rejects_iff v) (hp.accepts_iff v)

theorem rejects_choice_iff :
    ((choice ps).run v).Rejects c e ↔
      (∀ p ∈ ps, ∃ e, (p.run v).Rejects c e) ∧ e = .mismatch v (choice ps).name c := by
  rw [rejects_choice]
  exact and_congr_left fun _ => forall₂_congr fun p hp => (hps p hp).rejects_iff v

end Steady

/-- An alternative without others does what it does by itself, errors apart. -/
theorem choice_alone {p : Parser α β} (hp : Steady p c) (v : Verbosity) :
    (∀ x next, ((choice [p]).run v).Accepts c x next ↔ (p.run v).Accepts c x next) ∧
      ((∃ e, ((choice [p]).run v).Rejects c e) ↔ ∃ e, (p.run v).Rejects c e) := by
  constructor
  · intro x next
    rw [accepts_choice_singleton]
    exact hp.accepts_iff v
  · simp only [rejects_choice, List.forall_mem_singleton, exists_and_left, exists_eq, and_true]
    exact hp.rejects_iff v

/-- **A choice that comes down to one alternative does what that does,** errors apart. -/
theorem Flattened.alone {p : Parser α β} {ps : List (Parser α β)} (h : Flattened ps [p])
    (hp : Steady p c) (v : Verbosity) :
    (∀ x next, ((choice ps).run v).Accepts c x next ↔ (p.run v).Accepts c x next) ∧
      ((∃ e, ((choice ps).run v).Rejects c e) ↔ ∃ e, (p.run v).Rejects c e) := by
  obtain ⟨haccepts, hfails⟩ := choice_alone hp v
  exact ⟨fun x next => (h.rewords v).accepts_iff.trans (haccepts x next),
    (h.rewords v).fails_iff.trans hfails⟩

/-! ## Left factoring -/

/-- **What all alternatives begin with may be read in front of the choice.**  It is read once
instead of once for each alternative, and at the verbosity of the caller instead of tersely. -/
theorem accepts_pair_choice {a : Parser α γ} {bs : List (Parser α β)} {z : γ × β}
    (ha : Steady a c) : ((pair a (choice bs)).run v).Accepts c z next ↔
      ((choice (bs.map (pair a))).run v).Accepts c z next := by
  rw [accepts_pair, accepts_choice]
  constructor
  · rintro ⟨x, mid, y, hx, hy, rfl⟩
    have hterse := (ha.accepts_iff v).mpr hx
    obtain ⟨before, b, behind, rfl, hbefore, hb⟩ := accepts_choice.mp hy
    refine ⟨before.map (pair a), pair a b, behind.map (pair a), by simp, ?_, ?_⟩
    · intro q hq
      obtain ⟨b', hb', rfl⟩ := List.mem_map.mp hq
      obtain ⟨e, he⟩ := hbefore b' hb'
      exact ⟨e, rejects_pair.mpr (Or.inr ⟨x, mid, hterse, he⟩)⟩
    · exact accepts_pair.mpr ⟨x, mid, y, hterse, hb, rfl⟩
  · rintro ⟨before, p, behind, heq, hbefore, hp⟩
    obtain ⟨front, back, rfl, rfl, hback⟩ := List.map_eq_append_iff.mp heq
    obtain ⟨b, rest, rfl, rfl, rfl⟩ := List.map_eq_cons_iff.mp hback
    obtain ⟨x, mid, y, hx, hy, rfl⟩ := accepts_pair.mp hp
    refine ⟨x, mid, y, (ha.accepts_iff v).mp hx,
      accepts_choice.mpr ⟨front, b, rest, rfl, ?_, hy⟩, rfl⟩
    intro q hq
    obtain ⟨e, he⟩ := hbefore (pair a q) (List.mem_map_of_mem hq)
    rcases rejects_pair.mp he with ha' | ⟨x', mid', hx', hq'⟩
    · exact (hx.not_rejects ha').elim
    · obtain ⟨rfl, rfl⟩ := hx.unique hx'
      exact ⟨e, hq'⟩

/-! ## The laws -/

/-- **The algebra of choices.**  Let alternatives be steady at a cursor.  Then their choice, at
either verbosity, succeeds with what the first alternative to succeed there makes of it, and fails
if and only if all of them do, with a mismatch of its own at that cursor; and it comes to a result
if they all do.  Up to the texts of mismatches, choices may be nested at any depth; an alternative
that is listed before may be left out; and so may a choice of nothing.  A choice that comes down to
one alternative, as it does beside choices of nothing, succeeds and fails as that does.  And a
steady parser in front of all alternatives may be read in front of the choice. -/
theorem ordered_choice_algebra (v : Verbosity) :
    (∀ (ps : List (Parser α β)) (c : Cursor α), (∀ p ∈ ps, Steady p c) →
        (∀ x next, ((choice ps).run v).Accepts c x next ↔
          ∃ before p behind, ps = before ++ p :: behind ∧
            (∀ q ∈ before, ∃ e, (q.run v).Rejects c e) ∧ (p.run v).Accepts c x next) ∧
          (∀ e, ((choice ps).run v).Rejects c e ↔
            (∀ p ∈ ps, ∃ e, (p.run v).Rejects c e) ∧ e = .mismatch v (choice ps).name c) ∧
          ((∀ p ∈ ps, (p.run v).Returns c) → ((choice ps).run v).Returns c)) ∧
      (∀ ps qs : List (Parser α β), Flattened ps qs →
        ((choice ps).run v).Rewords ((choice qs).run v)) ∧
      (∀ (before behind : List (Parser α β)) (p : Parser α β), p ∈ before →
        ((choice (before ++ p :: behind)).run v).Rewords ((choice (before ++ behind)).run v)) ∧
      (∀ before behind : List (Parser α β),
        ((choice (before ++ choice [] :: behind)).run v).Rewords
          ((choice (before ++ behind)).run v)) ∧
      (∀ (p : Parser α β) (ps : List (Parser α β)) (c : Cursor α), Flattened ps [p] → Steady p c →
        (∀ x next, ((choice ps).run v).Accepts c x next ↔ (p.run v).Accepts c x next) ∧
          ((∃ e, ((choice ps).run v).Rejects c e) ↔ ∃ e, (p.run v).Rejects c e)) ∧
      ∀ (a : Parser α γ) (bs : List (Parser α β)) (c : Cursor α), Steady a c → ∀ z next,
        ((pair a (choice bs)).run v).Accepts c z next ↔
          ((choice (bs.map (pair a))).run v).Accepts c z next := by
  refine ⟨fun ps c hps => ⟨fun x next => accepts_choice_iff hps v,
    fun e => rejects_choice_iff hps v, fun h => returns_choice fun p hp => ?_⟩,
    fun ps qs h => h.rewords v, fun before behind p hp => ?_, fun before behind => ?_,
    fun p ps c h hp => h.alone hp v, fun a bs c ha z next => accepts_pair_choice ha⟩
  · exact ((hps p hp).returns_iff v).mpr (h p hp)
  · exact rewords_choice (fun c => result?_firstSuccess_again hp) v
  · refine rewords_choice (fun c => ?_) v
    rw [firstSuccess_append, firstSuccess_append, firstSuccess_choice_cons, List.nil_append]

/-- A digit whose meaning is not zero. -/
def nonzero : Parser Char Char :=
  (takeSingle "DIGIT" Char.isDigit).convert fun x =>
    if x = '0' then .error (.plain "zero") else .ok x

/-- A zero. -/
def zero : Parser Char Char := takeSingle "ZERO" fun x => x == '0'

theorem steady_nonzero (c : Cursor Char) : Steady nonzero c :=
  Steady.of_keepsOutcome
    (keepsOutcome_iff.mpr (beside_tiers.steps_convert rfl _
      (beside_tiers.steps_takeSingle rfl Char.isDigit)))
    (returns_convert (returns_takeSingle _)) (returns_convert (returns_takeSingle _))

theorem steady_zero (c : Cursor Char) : Steady zero c :=
  Steady.of_keepsOutcome (keepsOutcome_iff.mpr (beside_tiers.steps_takeSingle rfl _))
    (returns_takeSingle _) (returns_takeSingle _)

/-- The first alternative reads the zero and then refuses it, and the second starts where the first
did. -/
theorem nonzero_or_zero :
    ((∀ c, ∀ p ∈ [nonzero, zero], Steady p c) ∧ nonzero ∈ [nonzero, zero] ∧
        Flattened [nonzero, choice [zero]] [nonzero, zero]) ∧
      ((choice [nonzero, zero]).run .verbose).Accepts (Cursor.new ['0', ';']) '0'
        (.valid ['0', ';'] 1) ∧
      ((choice [nonzero, zero]).run .verbose).Rejects (Cursor.new [';'])
        (.expected "one of [DIGIT] [ZERO]" ⟨[';'], 0⟩) ∧
      ((choice [nonzero, choice [zero]]).run .verbose).Rewords
        ((choice [nonzero, zero]).run .verbose) ∧
      ((choice [nonzero, zero, nonzero]).run .verbose).Rewords
        ((choice [nonzero, zero]).run .verbose) ∧
      ((choice [pair zero nonzero, pair zero zero]).run .verbose).Accepts
        (Cursor.new ['0', '0', ';']) ('0', '0') (.valid ['0', '0', ';'] 2) := by
  have hsteady : ∀ c, ∀ p ∈ [nonzero, zero], Steady p c := by
    intro c p hp
    rcases List.mem_pair.mp hp with rfl | rfl
    · exact steady_nonzero c
    · exact steady_zero c
  have hflat : Flattened [nonzero, choice [zero]] [nonzero, zero] :=
    Flattened.keep _ (Flattened.spread (Flattened.keep _ Flattened.nil) Flattened.nil)
  obtain ⟨hfirst, hnested, hagain, -, -, hfactor⟩ :=
    ordered_choice_algebra (α := Char) (β := Char) (γ := Char) .verbose
  refine ⟨⟨hsteady, by simp, hflat⟩, ?_, ?_, hnested _ _ hflat, ?_, ?_⟩
  · refine ((hfirst _ _ (hsteady _)).1 _ _).mpr ⟨[nonzero], zero, [], rfl, ?_, rfl⟩
    exact List.forall_mem_singleton.mpr ⟨_, rfl⟩
  · refine ((hfirst _ _ (hsteady _)).2.1 _).mpr ⟨?_, rfl⟩
    exact List.forall_mem_cons.mpr ⟨⟨_, rfl⟩, List.forall_mem_singleton.mpr ⟨_, rfl⟩⟩
  · exact hagain [nonzero, zero] [] nonzero (by simp)
  · refine (hfactor zero [nonzero, zero] _ (steady_zero _) _ _).mp ?_
    exact rfl

end Parser

end Descent
