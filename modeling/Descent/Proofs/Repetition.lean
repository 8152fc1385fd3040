import Descent.Proofs.Outcome

/-!
# The loops of a list

The loop that reads a list is a bounded or an unbounded one, with a first element that is read
apart.  Round by round it collects links, each an output with the cursor behind it: the first is
what the element parser yields at the start, and each later one what it yields behind a delimiter
at the cursor of the link before.

`Collects` and `Rest` follow the loops round by round, so what is proved of lists by induction is
proved along them.

* `collects_of_listOf`: whatever a list comes to is the verdict on what it collects, and
  `listOf_of_collects`: with enough rounds it comes to that verdict.
* `accepts_listOf` and `rejects_listOf` say the same of the two outcomes apart.
-/

namespace Descent.Repetition

open Descent.Parser

variable {α β γ : Type}

/-! ## Links -/

section Links

variable (p : Parser α β) (d : Parser α γ) (v : Verbosity)

/-- One more iteration succeeds: a delimiter at the cursor, and an element behind it. -/
def Iterates (c : Cursor α) (x : β) (next : Cursor α) : Prop :=
  ∃ y mid, (d.run v).Accepts c y mid ∧ (p.run v).Accepts mid x next

/-- One more iteration fails, at the delimiter or at the element behind it. -/
def Breaks (c : Cursor α) (e : ParseError α) : Prop :=
  (d.run v).Rejects c e ∨ ∃ y mid, (d.run v).Accepts c y mid ∧ (p.run v).Rejects mid e

/-- The cursor behind the last link, or the start if there is no link. -/
def endOf (start : Cursor α) : List (β × Cursor α) → Cursor α
  | [] => start
  | (_, next) :: links => endOf next links

@[simp] theorem endOf_nil (start : Cursor α) : endOf start ([] : List (β × Cursor α)) = start := rfl

@[simp] theorem endOf_cons (start next : Cursor α) (x : β) (links : List (β × Cursor α)) :
    endOf start ((x, next) :: links) = endOf next links := rfl

end Links

variable {p : Parser α β} {d : Parser α γ} {v : Verbosity} {c next start : Cursor α} {x : β}
  {e : ParseError α} {links other : List (β × Cursor α)} {greatest : Option Nat}
  {stop : Option (ParseError α)}

/-! ## The loops -/

section Loops

variable (p : Parser α β) (d : Parser α γ) (v : Verbosity)

/-- What is collected after the first element: with room for so many iterations, or for any number
of them, from a cursor on. -/
inductive Rest : Option Nat → Cursor α → List (β × Cursor α) → Option (ParseError α) → Prop
  | full (c : Cursor α) : Rest (some 0) c [] none
  | broken {room : Option Nat} {c : Cursor α} {e : ParseError α} :
    room ≠ some 0 → Breaks p d v c e → Rest room c [] (some e)
  | idle {c next : Cursor α} {x : β} :
    Iterates p d v c x next → next.position = c.position → Rest none c [] none
  | counted {room : Nat} {c next : Cursor α} {x : β} {links : List (β × Cursor α)}
    {stop : Option (ParseError α)} :
    Iterates p d v c x next → Rest (some room) next links stop →
      Rest (some (room + 1)) c ((x, next) :: links) stop
  | moved {c next : Cursor α} {x : β} {links : List (β × Cursor α)}
    {stop : Option (ParseError α)} :
    Iterates p d v c x next → next.position ≠ c.position → Rest none next links stop →
      Rest none c ((x, next) :: links) stop

/-- What is collected from the start, the first element included. -/
inductive Collects (greatest : Option Nat) (start : Cursor α) :
    List (β × Cursor α) → Option (ParseError α) → Prop
  | none : greatest = some 0 → Collects greatest start [] none
  | broken {e : ParseError α} :
    greatest ≠ some 0 → (p.run v).Rejects start e → Collects greatest start [] (some e)
  | more {next : Cursor α} {x : β} {links : List (β × Cursor α)} {stop : Option (ParseError α)} :
    greatest ≠ some 0 → (p.run v).Accepts start x next →
      Rest p d v (greatest.map (· - 1)) next links stop →
      Collects greatest start ((x, next) :: links) stop

/-- What a loop hands over when it has collected these links. -/
def collected (start : Cursor α) (links : List (β × Cursor α)) (stop : Option (ParseError α)) :
    Collected α β :=
  ⟨links.map Prod.fst, endOf start links, stop⟩

theorem accepts_delimitedStep :
    Step.Accepts (delimitedStep p d v) c x next ↔ Iterates p d v c x next := by
  unfold Step.Accepts delimitedStep
  rw [Run.result?_bind_eq_ok]
  constructor
  · intro h
    obtain ⟨⟨y, mid⟩, hd, hp⟩ := h
    exact ⟨y, mid, hd, hp⟩
  · intro h
    obtain ⟨y, mid, hd, hp⟩ := h
    exact ⟨(y, mid), hd, hp⟩

theorem rejects_delimitedStep :
    Step.Rejects (delimitedStep p d v) c e ↔ Breaks p d v c e := by
  unfold Step.Rejects delimitedStep
  rw [Run.result?_bind_eq_error]
  refine or_congr Iff.rfl ?_
  constructor
  · intro h
    obtain ⟨⟨y, mid⟩, hd, hp⟩ := h
    exact ⟨y, mid, hd, hp⟩
  · intro h
    obtain ⟨y, mid, hd, hp⟩ := h
    exact ⟨(y, mid), hd, hp⟩

/-- The bounded loop collects what there is room for. -/
theorem collectUpTo_iff {rounds : Nat} {r : Except (ParseError α) (Collected α β)} :
    (collectUpTo (delimitedStep p d v) rounds c).result? = some r ↔
      ∃ links stop, Rest p d v (some rounds) c links stop ∧ r = .ok (collected c links stop) := by
  induction rounds generalizing c r with
  | zero =>
    constructor
    · intro h
      exact ⟨[], none, Rest.full c, (Option.some.inj h).symm⟩
    · intro h
      obtain ⟨links, stop, hrest, rfl⟩ := h
      cases hrest with
      | full => rfl
      | broken hroom _ => exact absurd rfl hroom
  | succ rounds ih =>
    rw [collectUpTo, Run.result?_attempt_bind]
    constructor
    · intro h
      rcases h with ⟨e | ⟨x, next⟩, hstep, h⟩
      · have hbreaks := (rejects_delimitedStep p d v).mp hstep
        refine ⟨[], some e, Rest.broken (by simp) hbreaks, ?_⟩
        exact (Option.some.inj h).symm
      · have hiter := (accepts_delimitedStep p d v).mp hstep
        rcases r with e | found
        · rcases Run.result?_bind_eq_error.mp h with h | ⟨more, -, h⟩
          · obtain ⟨links, stop, -, hr⟩ := ih.mp h
            exact absurd hr (by simp)
          · exact absurd h Run.result?_pure_ne_error
        · obtain ⟨more, hmore, h⟩ := Run.result?_bind_eq_ok.mp h
          obtain ⟨links, stop, hrest, hr⟩ := ih.mp hmore
          obtain rfl := Except.ok.inj hr
          refine ⟨(x, next) :: links, stop, Rest.counted hiter hrest, ?_⟩
          rw [Run.result?_pure_eq_ok.mp h]
          rfl
    · intro h
      obtain ⟨links, stop, hrest, rfl⟩ := h
      cases hrest with
      | broken _ hbreaks => exact ⟨_, (rejects_delimitedStep p d v).mpr hbreaks, rfl⟩
      | counted hiter hrest =>
        refine ⟨_, (accepts_delimitedStep p d v).mpr hiter, ?_⟩
        exact Run.result?_bind_eq_ok.mpr ⟨_, ih.mpr ⟨_, _, hrest, rfl⟩, rfl⟩

/-- Whatever the unbounded loop comes to in some number of rounds is what there is to collect. -/
theorem rest_of_collectAll {rounds : Nat} {r : Except (ParseError α) (Collected α β)}
    (h : (collectAll (delimitedStep p d v) rounds c).result? = some r) :
    ∃ links stop, Rest p d v none c links stop ∧ r = .ok (collected c links stop) := by
  induction rounds generalizing c r with
  | zero => exact absurd h (by simp [collectAll])
  | succ rounds ih =>
    rw [collectAll, Run.result?_attempt_bind] at h
    obtain ⟨e | ⟨x, next⟩, hstep, h⟩ := h
    · have hbreaks := (rejects_delimitedStep p d v).mp hstep
      refine ⟨[], some e, Rest.broken (by simp) hbreaks, ?_⟩
      exact (Option.some.inj h).symm
    · have hiter := (accepts_delimitedStep p d v).mp hstep
      dsimp only at h
      split at h
      next hposition =>
        exact ⟨[], none, Rest.idle hiter hposition, (Option.some.inj h).symm⟩
      next hposition =>
        rcases r with e | found
        · rcases Run.result?_bind_eq_error.mp h with h | ⟨more, -, h⟩
          · obtain ⟨links, stop, -, hr⟩ := ih h
            exact absurd hr (by simp)
          · exact absurd h Run.result?_pure_ne_error
        · obtain ⟨more, hmore, h⟩ := Run.result?_bind_eq_ok.mp h
          obtain ⟨links, stop, hrest, hr⟩ := ih hmore
          obtain rfl := Except.ok.inj hr
          refine ⟨(x, next) :: links, stop, Rest.moved hiter hposition hrest, ?_⟩
          rw [Run.result?_pure_eq_ok.mp h]
          rfl

/-- With more rounds than there are links, the unbounded loop comes to its end. -/
theorem collectAll_of_rest {rounds : Nat} (h : Rest p d v none c links stop)
    (hrounds : links.length < rounds) :
    (collectAll (delimitedStep p d v) rounds c).result? = some (.ok (collected c links stop)) := by
  induction links generalizing c rounds with
  | nil =>
    obtain ⟨rounds, rfl⟩ := Nat.exists_eq_succ_of_ne_zero (Nat.ne_of_gt hrounds)
    rw [collectAll, Run.result?_attempt_bind]
    cases h with
    | broken _ hbreaks => exact ⟨_, (rejects_delimitedStep p d v).mpr hbreaks, rfl⟩
    | idle hiter hposition =>
      refine ⟨_, (accepts_delimitedStep p d v).mpr hiter, ?_⟩
      dsimp only
      rw [if_pos hposition]
      rfl
  | cons link links ih =>
    obtain ⟨rounds, rfl⟩ := Nat.exists_eq_succ_of_ne_zero (Nat.ne_of_gt (Nat.zero_lt_of_lt hrounds))
    rw [collectAll, Run.result?_attempt_bind]
    cases h with
    | moved hiter hposition hrest =>
      refine ⟨_, (accepts_delimitedStep p d v).mpr hiter, ?_⟩
      dsimp only
      rw [if_neg hposition]
      have hmore := ih hrest (Nat.lt_of_succ_lt_succ hrounds)
      exact Run.result?_bind_eq_ok.mpr ⟨_, hmore, rfl⟩

theorem rest_of_collectRest {spare : Nat} {r : Except (ParseError α) (Collected α β)}
    (h : (collectRest spare greatest (delimitedStep p d v) c).result? = some r) :
    ∃ links stop, Rest p d v (greatest.map (· - 1)) c links stop ∧
      r = .ok (collected c links stop) := by
  rcases greatest with _ | most
  · exact rest_of_collectAll p d v h
  · exact (collectUpTo_iff p d v).mp h

theorem collectRest_of_rest {spare : Nat}
    (h : Rest p d v (greatest.map (· - 1)) c links stop) (hspare : links.length ≤ spare) :
    (collectRest spare greatest (delimitedStep p d v) c).result? =
      some (.ok (collected c links stop)) := by
  rcases greatest with _ | most
  · exact collectAll_of_rest p d v h (by omega)
  · exact (collectUpTo_iff p d v).mpr ⟨links, stop, h, rfl⟩

theorem collects_of_collect {spare : Nat} {r : Except (ParseError α) (Collected α β)}
    (h : (collect spare greatest p d v start).result? = some r) :
    ∃ links stop, Collects p d v greatest start links stop ∧
      r = .ok (collected start links stop) := by
  unfold collect at h
  split at h
  next hnone => exact ⟨[], none, Collects.none hnone, (Option.some.inj h).symm⟩
  next hsome =>
    obtain ⟨e | ⟨x, next⟩, hp, h⟩ := Run.result?_attempt_bind.mp h
    · exact ⟨[], some e, Collects.broken hsome hp, (Option.some.inj h).symm⟩
    · rcases r with e | found
      · rcases Run.result?_bind_eq_error.mp h with h | ⟨more, -, h⟩
        · obtain ⟨links, stop, -, hr⟩ := rest_of_collectRest p d v h
          exact absurd hr (by simp)
        · exact absurd h Run.result?_pure_ne_error
      · obtain ⟨more, hmore, h⟩ := Run.result?_bind_eq_ok.mp h
        obtain ⟨links, stop, hrest, hr⟩ := rest_of_collectRest p d v hmore
        obtain rfl := Except.ok.inj hr
        refine ⟨(x, next) :: links, stop, Collects.more hsome hp hrest, ?_⟩
        rw [Run.result?_pure_eq_ok.mp h]
        rfl

theorem collect_of_collects {spare : Nat} (h : Collects p d v greatest start links stop)
    (hspare : links.length ≤ spare) :
    (collect spare greatest p d v start).result? = some (.ok (collected start links stop)) := by
  unfold collect
  cases h with
  | none hnone =>
    rw [if_pos hnone]
    rfl
  | broken hsome hp =>
    rw [if_neg hsome]
    exact Run.result?_attempt_bind.mpr ⟨_, hp, rfl⟩
  | more hsome hp hrest =>
    rw [if_neg hsome]
    refine Run.result?_attempt_bind.mpr ⟨_, hp, ?_⟩
    have hmore := collectRest_of_rest p d v hrest (Nat.le_of_succ_le hspare)
    exact Run.result?_bind_eq_ok.mpr ⟨_, hmore, rfl⟩

/-- What a list makes of its links: the outputs and the cursor behind the last one if they are
enough, and otherwise the error that ended them, or a mismatch of the whole list. -/
def verdict (name : String) (bounds : Bounds) (start : Cursor α) (links : List (β × Cursor α))
    (stop : Option (ParseError α)) : Except (ParseError α) (List β × Cursor α) :=
  if links.length < bounds.least then .error (stop.getD (.mismatch v name start))
  else .ok (links.map Prod.fst, endOf start links)

/-- **Whatever a list comes to is the verdict on what it collects.** -/
theorem collects_of_listOf {name : String} {spare : Nat} {bounds : Bounds}
    {r : Except (ParseError α) (List β × Cursor α)}
    (h : ((listOf name spare bounds p d).run v start).result? = some r) :
    ∃ links stop, Collects p d v bounds.greatest start links stop ∧
      r = verdict v name bounds start links stop := by
  unfold listOf at h
  dsimp only at h
  rw [Run.result?_bind] at h
  split at h
  next found hfound =>
    obtain ⟨links, stop, hcollects, hr⟩ := collects_of_collect p d v hfound
    obtain rfl := Except.ok.inj hr
    refine ⟨links, stop, hcollects, ?_⟩
    simp only [collected, List.length_map] at h
    unfold verdict
    split at h
    next hfew =>
      rw [Run.emit_bind, Run.result?_after] at h
      rw [if_pos hfew]
      exact (Option.some.inj h).symm
    next henough =>
      rw [if_neg henough]
      exact (Option.some.inj h).symm
  next e he =>
    obtain ⟨links, stop, -, hr⟩ := collects_of_collect p d v he
    exact absurd hr (by simp)
  next => exact absurd h (by simp)

theorem listOf_of_collects {name : String} {spare : Nat} {bounds : Bounds}
    (h : Collects p d v bounds.greatest start links stop) (hspare : links.length ≤ spare) :
    ((listOf name spare bounds p d).run v start).result? =
      some (verdict v name bounds start links stop) := by
  have hcollect := collect_of_collects p d v h hspare
  unfold listOf verdict
  dsimp only
  rw [Run.result?_bind, hcollect]
  simp only [collected, List.length_map]
  split
  · rw [Run.emit_bind, Run.result?_after]
    rfl
  · rfl

variable {p d v} in
/-- A list succeeds with the outputs of enough links, at the cursor behind the last one. -/
theorem accepts_listOf {name : String} {spare : Nat} {bounds : Bounds} {xs : List β}
    (h : ((listOf name spare bounds p d).run v).Accepts start xs next) :
    ∃ links stop, Collects p d v bounds.greatest start links stop ∧
      bounds.least ≤ links.length ∧ xs = links.map Prod.fst ∧ next = endOf start links := by
  obtain ⟨links, stop, hcollects, hr⟩ := collects_of_listOf p d v h
  refine ⟨links, stop, hcollects, ?_⟩
  unfold verdict at hr
  split at hr
  next => exact absurd hr (by simp)
  next henough => exact ⟨Nat.le_of_not_lt henough, Prod.mk.inj (Except.ok.inj hr)⟩

variable {p d v} in
/-- A list with too few links fails with the error that ended them or with its own. -/
theorem rejects_listOf {name : String} {spare : Nat} {bounds : Bounds}
    (h : ((listOf name spare bounds p d).run v).Rejects start e) :
    ∃ links stop, Collects p d v bounds.greatest start links stop ∧
      e = stop.getD (.mismatch v name start) := by
  obtain ⟨links, stop, hcollects, hr⟩ := collects_of_listOf p d v h
  refine ⟨links, stop, hcollects, ?_⟩
  unfold verdict at hr
  split at hr
  next => exact Except.error.inj hr
  next => exact absurd hr (by simp)

end Loops

end Descent.Repetition
