import Descent.Proofs.Repetition
import Mathlib.Data.List.Chain

/-!
# What a list is

What the loops of a list collect is stated here without a loop.  A chain from a cursor is a list of
links: the first is an element at the start, and each later one an element behind a delimiter at
the cursor of the link before.

* `Chain` is the chain relation, `Permitted` the two conditions that can end a chain although its
  next iteration would succeed (the greatest number, and an iteration that ends where it began),
  and `Ended` says why a chain was not prolonged.
* `Ended.longest`: a chain that ended is the longest permitted one, and all others are prefixes.
* `collects_iff`: what the loops collect is exactly a permitted chain that ended.
* `list_iff_longest_chain`: a list comes to a result exactly when that result is read off
  such a chain by comparing its length with the least number.
-/

namespace Descent.Repetition

open Descent.Parser

variable {α β γ : Type}

/-! ## Chains -/

section Chains

variable (p : Parser α β) (d : Parser α γ) (v : Verbosity)

/-- Links that follow one another from a cursor, each by one more iteration. -/
inductive Follows : Cursor α → List (β × Cursor α) → Prop
  | nil (c : Cursor α) : Follows c []
  | cons {c next : Cursor α} {x : β} {links : List (β × Cursor α)} :
    Iterates p d v c x next → Follows next links → Follows c ((x, next) :: links)

/-- Consecutive successes from the start of a list: an element, and then iterations. -/
inductive Chain (start : Cursor α) : List (β × Cursor α) → Prop
  | nil : Chain start []
  | cons {next : Cursor α} {x : β} {links : List (β × Cursor α)} :
    (p.run v).Accepts start x next → Follows p d v next links → Chain start ((x, next) :: links)

/-- As many links as a list may have, and, where any number is allowed, no iteration after the
first that ends where it began. -/
def Permitted (greatest : Option Nat) (links : List (β × Cursor α)) : Prop :=
  (∀ most, greatest = some most → links.length ≤ most) ∧
    (greatest = none → links.IsChain fun link link' => link'.2.position ≠ link.2.position)

/-- Why a chain was not prolonged, with the error of the attempt that failed if one did. -/
inductive Ended (greatest : Option Nat) (start : Cursor α) (links : List (β × Cursor α)) :
    Option (ParseError α) → Prop
  /-- There was room for an element, and the very first one failed. -/
  | first {e : ParseError α} :
    (∀ most, greatest = some most → links.length < most) → links = [] →
      (p.run v).Rejects start e → Ended greatest start links (some e)
  /-- There was room for an element, and the delimiter or the element behind it failed. -/
  | later {e : ParseError α} :
    (∀ most, greatest = some most → links.length < most) → links ≠ [] →
      Breaks p d v (endOf start links) e → Ended greatest start links (some e)
  /-- The greatest number was reached. -/
  | full : greatest = some links.length → Ended greatest start links none
  /-- Any number is allowed, and the next iteration would have ended where it began. -/
  | idle {x : β} {next : Cursor α} :
    greatest = none → links ≠ [] → Iterates p d v (endOf start links) x next →
      next.position = (endOf start links).position → Ended greatest start links none

end Chains

variable {p : Parser α β} {d : Parser α γ} {v : Verbosity} {c next start : Cursor α} {x : β}
  {e : ParseError α} {links other : List (β × Cursor α)} {greatest : Option Nat}
  {stop : Option (ParseError α)}

theorem Iterates.unique {x' : β} {next' : Cursor α} (h : Iterates p d v c x next)
    (h' : Iterates p d v c x' next') : x = x' ∧ next = next' := by
  obtain ⟨y, mid, hd, hp⟩ := h
  obtain ⟨y', mid', hd', hp'⟩ := h'
  obtain ⟨-, rfl⟩ := hd.unique hd'
  exact hp.unique hp'

theorem Iterates.not_breaks (h : Iterates p d v c x next) (h' : Breaks p d v c e) : False := by
  obtain ⟨y, mid, hd, hp⟩ := h
  rcases h' with h' | ⟨y', mid', hd', hp'⟩
  · exact hd.not_rejects h'
  · obtain ⟨-, rfl⟩ := hd.unique hd'
    exact hp.not_rejects hp'

/-! ## Chains from one start -/

/-- Two lists of links that follow the same cursor differ only in length. -/
theorem Follows.comparable (h : Follows p d v c links) (h' : Follows p d v c other) :
    links <+: other ∨ other <+: links := by
  induction h generalizing other with
  | nil c => exact Or.inl (List.nil_prefix)
  | cons hx _ ih =>
    cases h' with
    | nil => exact Or.inr (List.nil_prefix)
    | cons hx' hrest =>
      obtain ⟨rfl, rfl⟩ := hx.unique hx'
      simpa only [List.prefix_cons_inj] using ih hrest

theorem Chain.comparable (h : Chain p d v start links) (h' : Chain p d v start other) :
    links <+: other ∨ other <+: links := by
  cases h with
  | nil => exact Or.inl (List.nil_prefix)
  | cons hx hrest =>
    cases h' with
    | nil => exact Or.inr (List.nil_prefix)
    | cons hx' hrest' =>
      obtain ⟨rfl, rfl⟩ := hx.unique hx'
      simpa only [List.prefix_cons_inj] using hrest.comparable hrest'

/-- What a longer list of links has beyond a shorter one is one more iteration from its end. -/
theorem Follows.of_append {more : List (β × Cursor α)} :
    ∀ {c : Cursor α}, Follows p d v c (links ++ (x, next) :: more) →
      Iterates p d v (endOf c links) x next := by
  induction links with
  | nil =>
    intro c h
    cases h with
    | cons hx _ => exact hx
  | cons link links ih =>
    intro c h
    cases h with
    | cons _ hrest => exact ih hrest

theorem Chain.of_append {more : List (β × Cursor α)} (hne : links ≠ [])
    (h : Chain p d v start (links ++ (x, next) :: more)) :
    Iterates p d v (endOf start links) x next := by
  rcases links with _ | ⟨⟨y, mid⟩, links⟩
  · exact absurd rfl hne
  · cases h with
    | cons _ hrest => exact hrest.of_append

/-- In a list of links without an idle iteration, the one behind a nonempty part is not idle. -/
theorem position_ne_of_isChain {more : List (β × Cursor α)} :
    ∀ {start : Cursor α} {links : List (β × Cursor α)}, links ≠ [] →
      (links ++ (x, next) :: more).IsChain
        (fun link link' => link'.2.position ≠ link.2.position) →
      next.position ≠ (endOf start links).position := by
  intro start links hne h
  induction links generalizing start with
  | nil => exact absurd rfl hne
  | cons link links ih =>
    obtain ⟨y, mid⟩ := link
    rw [endOf_cons]
    rcases links with _ | ⟨link', links⟩
    · rw [List.cons_append, List.nil_append, List.isChain_cons_cons] at h
      exact h.1
    · rw [List.cons_append, List.cons_append, List.isChain_cons_cons] at h
      exact ih (List.cons_ne_nil _ _) h.2

/-- **A chain that ended is the longest.**  Every permitted chain from the same start is a prefix
of it: a longer one would go on with the very iteration that failed, that was one too many, or that
ended where it began. -/
theorem Ended.longest (h : Ended p d v greatest start links stop)
    (hchain : Chain p d v start links) (hother : Chain p d v start other)
    (hpermitted : Permitted greatest other) : other <+: links := by
  rcases hchain.comparable hother with hle | hle
  · obtain ⟨more, rfl⟩ := hle
    rcases more with _ | ⟨⟨x, next⟩, more⟩
    · simp only [List.append_nil, List.prefix_rfl]
    · exfalso
      cases h with
      | first _ hnil hp =>
        subst hnil
        cases hother with
        | cons hx _ => exact hx.not_rejects hp
      | later _ hne hbreaks => exact (hother.of_append hne).not_breaks hbreaks
      | full hfull =>
        have hlength := hpermitted.1 _ hfull
        rw [List.length_append, List.length_cons] at hlength
        omega
      | idle hnone hne hiter hposition =>
        obtain ⟨-, rfl⟩ := (hother.of_append hne).unique hiter
        exact position_ne_of_isChain hne (hpermitted.2 hnone) hposition
  · exact hle

/-! ## Without the loops -/

/-- Why links that follow a cursor were not prolonged, with room for so many of them. -/
def Halts (p : Parser α β) (d : Parser α γ) (v : Verbosity) (room : Option Nat) (c : Cursor α)
    (links : List (β × Cursor α)) : Option (ParseError α) → Prop
  | some e => (∀ most, room = some most → links.length < most) ∧ Breaks p d v (endOf c links) e
  | none => room = some links.length ∨ room = none ∧ ∃ x next,
      Iterates p d v (endOf c links) x next ∧ next.position = (endOf c links).position

theorem Rest.follows {room : Option Nat} (h : Rest p d v room c links stop) :
    Follows p d v c links := by
  induction h with
  | full c => exact Follows.nil c
  | broken => exact Follows.nil _
  | idle => exact Follows.nil _
  | counted hiter _ ih => exact Follows.cons hiter ih
  | moved hiter _ _ ih => exact Follows.cons hiter ih

theorem Rest.length_le {room : Option Nat} (h : Rest p d v room c links stop) :
    ∀ most, room = some most → links.length ≤ most := by
  induction h with
  | full c => exact fun most _ => Nat.zero_le most
  | broken => exact fun most _ => Nat.zero_le most
  | idle => exact fun most _ => Nat.zero_le most
  | counted _ _ ih =>
    rintro most ⟨⟩
    exact Nat.succ_le_succ (ih _ rfl)
  | moved => exact fun most hmost => absurd hmost (by simp)

/-- Without a bound no link ends where the one before it did; the cursor counts as a link. -/
theorem Rest.moves {room : Option Nat} (h : Rest p d v room c links stop) :
    ∀ x, room = none →
      ((x, c) :: links).IsChain fun link link' => link'.2.position ≠ link.2.position := by
  induction h with
  | full c => exact fun x _ => List.isChain_singleton _
  | broken => exact fun x _ => List.isChain_singleton _
  | idle => exact fun x _ => List.isChain_singleton _
  | counted => exact fun x hroom => absurd hroom (by simp)
  | moved _ hposition _ ih =>
    exact fun x _ => List.isChain_cons_cons.mpr ⟨hposition, ih _ rfl⟩

theorem Rest.halts {room : Option Nat} (h : Rest p d v room c links stop) :
    Halts p d v room c links stop := by
  induction h with
  | full c => exact Or.inl rfl
  | @broken room c e hroom hbreaks =>
    refine ⟨fun most hmost => ?_, hbreaks⟩
    rcases most with _ | most
    · exact absurd hmost hroom
    · exact Nat.succ_pos most
  | idle hiter hposition => exact Or.inr ⟨rfl, _, _, hiter, hposition⟩
  | @counted room c next x links stop _ _ ih =>
    rcases stop with _ | e
    · rcases ih with ih | ⟨ih, -⟩
      · rw [Option.some.inj ih]
        exact Or.inl rfl
      · exact absurd ih (by simp)
    · refine ⟨?_, ih.2⟩
      rintro most ⟨⟩
      exact Nat.succ_lt_succ (ih.1 room rfl)
  | @moved c next x links stop _ _ _ ih =>
    rcases stop with _ | e
    · rcases ih with ih | ⟨-, ih⟩
      · exact absurd ih (by simp)
      · exact Or.inr ⟨rfl, ih⟩
    · exact ⟨fun most hmost => absurd hmost (by simp), ih.2⟩

/-- Links that are few enough, that move where there is no bound, and that were not prolonged for
a reason are what there is to collect. -/
theorem Rest.of_halts {room : Option Nat} (hfollows : Follows p d v c links)
    (hlength : ∀ most, room = some most → links.length ≤ most)
    (hmoves : room = none →
      ((x, c) :: links).IsChain fun link link' => link'.2.position ≠ link.2.position)
    (hhalts : Halts p d v room c links stop) : Rest p d v room c links stop := by
  induction hfollows generalizing room x with
  | nil c =>
    rcases stop with _ | e
    · rcases hhalts with rfl | ⟨rfl, y, next, hiter, hposition⟩
      · exact Rest.full c
      · exact Rest.idle hiter hposition
    · refine Rest.broken ?_ hhalts.2
      rintro rfl
      exact absurd (hhalts.1 0 rfl) (Nat.not_lt_zero _)
  | @cons c next y links hiter _ ih =>
    rcases room with _ | room
    · have hmoves' := List.isChain_cons_cons.mp (hmoves rfl)
      refine Rest.moved hiter hmoves'.1 (ih (fun most hmost => absurd hmost (by simp))
        (fun _ => hmoves'.2) ?_)
      rcases stop with _ | e
      · rcases hhalts with h | ⟨-, h⟩
        · exact absurd h (by simp)
        · exact Or.inr ⟨rfl, h⟩
      · exact ⟨fun most hmost => absurd hmost (by simp), hhalts.2⟩
    · have hroom := hlength room rfl
      rw [List.length_cons] at hroom
      obtain ⟨room, rfl⟩ := Nat.exists_eq_succ_of_ne_zero (Nat.ne_of_gt (Nat.zero_lt_of_lt hroom))
      refine Rest.counted hiter (ih (x := y) ?_ (fun h => absurd h (by simp)) ?_)
      · rintro most ⟨⟩
        exact Nat.le_of_succ_le_succ hroom
      · rcases stop with _ | e
        · rcases hhalts with h | ⟨h, -⟩
          · rw [List.length_cons] at h
            exact Or.inl (congrArg some (Nat.succ.inj (Option.some.inj h)))
          · exact absurd h (by simp)
        · refine ⟨?_, hhalts.2⟩
          rintro most ⟨⟩
          exact Nat.lt_of_succ_lt_succ (hhalts.1 _ rfl)

/-- Behind a first element the reasons are those of the chain that starts with it. -/
theorem ended_cons_iff (hgreatest : greatest ≠ some 0) :
    Ended p d v greatest start ((x, next) :: links) stop ↔
      Halts p d v (greatest.map (· - 1)) next links stop := by
  rcases greatest with _ | most
  · constructor
    · intro h
      cases h with
      | first _ hnil _ => exact absurd hnil (List.cons_ne_nil _ _)
      | later _ _ hbreaks => exact ⟨fun most hmost => absurd hmost (by simp), hbreaks⟩
      | full hfull => exact absurd hfull (by simp)
      | idle _ _ hiter hposition => exact Or.inr ⟨rfl, _, _, hiter, hposition⟩
    · intro h
      rcases stop with _ | e
      · rcases h with h | ⟨-, y, after, hiter, hposition⟩
        · exact absurd h (by simp)
        · exact Ended.idle rfl (List.cons_ne_nil _ _) hiter hposition
      · exact Ended.later (fun most hmost => absurd hmost (by simp)) (List.cons_ne_nil _ _) h.2
  · have hmost : most ≠ 0 := fun h => hgreatest (congrArg some h)
    constructor
    · intro h
      cases h with
      | first _ hnil _ => exact absurd hnil (List.cons_ne_nil _ _)
      | later hroom _ hbreaks =>
        refine ⟨?_, hbreaks⟩
        rintro most' ⟨⟩
        have hlt := hroom most rfl
        rw [List.length_cons] at hlt
        show links.length < most - 1
        omega
      | full hfull =>
        have heq := Option.some.inj hfull
        rw [List.length_cons] at heq
        have hroom : most - 1 = links.length := by omega
        exact Or.inl (congrArg some hroom)
      | idle hnone _ _ _ => exact absurd hnone (by simp)
    · intro h
      rcases stop with _ | e
      · rcases h with h | ⟨h, -⟩
        · have heq : most - 1 = links.length := Option.some.inj h
          refine Ended.full (congrArg some ?_)
          rw [List.length_cons]
          omega
        · exact absurd h (by simp)
      · refine Ended.later ?_ (List.cons_ne_nil _ _) h.2
        rintro most' ⟨⟩
        have hlt : links.length < most - 1 := h.1 (most - 1) rfl
        rw [List.length_cons]
        omega

theorem permitted_cons_iff (hgreatest : greatest ≠ some 0) :
    Permitted greatest ((x, next) :: links) ↔
      (∀ most, greatest.map (· - 1) = some most → links.length ≤ most) ∧
        (greatest.map (· - 1) = none → ((x, next) :: links).IsChain
          fun link link' => link'.2.position ≠ link.2.position) := by
  unfold Permitted
  rcases greatest with _ | most
  · simp
  · have hmost : most ≠ 0 := fun h => hgreatest (congrArg some h)
    simp only [Option.some.injEq, forall_eq', List.length_cons, Option.map_some, reduceCtorEq,
      false_imp_iff, and_true]
    omega

/-- **What the loops collect, without the loops.**  It is the chain from the start that the bound
and the rule against idle iterations permit and that was not prolonged for a reason. -/
theorem collects_iff :
    Collects p d v greatest start links stop ↔
      Chain p d v start links ∧ Permitted greatest links ∧
        Ended p d v greatest start links stop := by
  constructor
  · intro h
    cases h with
    | none hnone =>
      refine ⟨Chain.nil, ⟨fun most _ => Nat.zero_le most, fun _ => List.IsChain.nil⟩, ?_⟩
      exact Ended.full hnone
    | broken hsome hp =>
      refine ⟨Chain.nil, ⟨fun most _ => Nat.zero_le most, fun _ => List.IsChain.nil⟩, ?_⟩
      refine Ended.first (fun most hmost => ?_) rfl hp
      rcases most with _ | most
      · exact absurd hmost hsome
      · exact Nat.succ_pos most
    | more hsome hp hrest =>
      refine ⟨Chain.cons hp hrest.follows, ?_, (ended_cons_iff hsome).mpr hrest.halts⟩
      exact (permitted_cons_iff hsome).mpr ⟨hrest.length_le, hrest.moves _⟩
  · intro h
    obtain ⟨hchain, hpermitted, hended⟩ := h
    cases hchain with
    | nil =>
      cases hended with
      | first hroom _ hp =>
        refine Collects.broken ?_ hp
        rintro rfl
        exact absurd (hroom 0 rfl) (Nat.not_lt_zero _)
      | later _ hne _ => exact absurd rfl hne
      | full hfull => exact Collects.none hfull
      | idle _ hne _ _ => exact absurd rfl hne
    | cons hp hfollows =>
      have hsome : greatest ≠ some 0 := by
        rintro rfl
        exact absurd (hpermitted.1 0 rfl) (Nat.not_succ_le_zero _)
      have hrest := (permitted_cons_iff hsome).mp hpermitted
      exact Collects.more hsome hp
        (Rest.of_halts hfollows hrest.1 hrest.2 ((ended_cons_iff hsome).mp hended))

/-! ## The policy -/

/-- The links of a list: a permitted chain of which every other one is a prefix. -/
structure IsLongest (p : Parser α β) (d : Parser α γ) (v : Verbosity) (greatest : Option Nat)
    (start : Cursor α) (links : List (β × Cursor α)) : Prop where
  chain : Chain p d v start links
  permitted : Permitted greatest links
  longest : ∀ other, Chain p d v start other → Permitted greatest other → other <+: links

/-- What a list under a name comes to.  If there are enough links the outputs are the list, and it
ends at the cursor behind the last link, so that a delimiter without an element is given back;
otherwise the failure is that of the attempt which ended the chain, or, if none failed, a mismatch
of the whole list at its start. -/
def Policy (name : String) (bounds : Bounds) (p : Parser α β) (d : Parser α γ) (v : Verbosity)
    (start : Cursor α) (r : Except (ParseError α) (List β × Cursor α)) : Prop :=
  ∃ links stop, IsLongest p d v bounds.greatest start links ∧
    Ended p d v bounds.greatest start links stop ∧
    (bounds.least ≤ links.length → r = .ok (links.map Prod.fst, endOf start links)) ∧
    (links.length < bounds.least → r = .error (stop.getD (.mismatch v name start)))

theorem policy_iff {name : String} {bounds : Bounds}
    {r : Except (ParseError α) (List β × Cursor α)} :
    Policy name bounds p d v start r ↔
      ∃ links stop, Collects p d v bounds.greatest start links stop ∧
        r = verdict v name bounds start links stop := by
  unfold Policy verdict
  constructor
  · intro h
    obtain ⟨links, stop, hlongest, hended, henough, hfew⟩ := h
    refine ⟨links, stop, collects_iff.mpr ⟨hlongest.chain, hlongest.permitted, hended⟩, ?_⟩
    split
    next h => exact hfew h
    next h => exact henough (Nat.le_of_not_lt h)
  · intro h
    obtain ⟨links, stop, hcollects, rfl⟩ := h
    obtain ⟨hchain, hpermitted, hended⟩ := collects_iff.mp hcollects
    refine ⟨links, stop, ⟨hchain, hpermitted, ?_⟩, hended, ?_, ?_⟩
    · exact fun other hother => hended.longest hchain hother
    · exact fun henough => if_neg (Nat.not_lt_of_le henough)
    · exact fun hfew => if_pos hfew

theorem listOf_iff {name : String} {bounds : Bounds}
    {r : Except (ParseError α) (List β × Cursor α)} :
    (∃ spare, ((listOf name spare bounds p d).run v start).result? = some r) ↔
      Policy name bounds p d v start r := by
  rw [policy_iff]
  constructor
  · intro h
    obtain ⟨spare, h⟩ := h
    exact collects_of_listOf p d v h
  · intro h
    obtain ⟨links, stop, hcollects, rfl⟩ := h
    exact ⟨links.length, listOf_of_collects p d v hcollects (Nat.le_refl _)⟩

/-- **Lists keep their policy.**  With or without delimiters, for every parser of elements and of
delimiters, every bound, start and verbosity, a list whose loop ends comes to a result exactly when
that is the result which the longest permitted chain determines. -/
theorem list_iff_longest_chain (bounds : Bounds) (p : Parser α β) (d : Parser α γ)
    (v : Verbosity) (start : Cursor α) (r : Except (ParseError α) (List β × Cursor α)) :
    ((∃ spare, ((repeated spare bounds p).run v start).result? = some r) ↔
        Policy (repeated 0 bounds p).name bounds p nothing v start r) ∧
      ((∃ spare, ((separated spare bounds p d).run v start).result? = some r) ↔
        Policy (separated 0 bounds p d).name bounds p d v start r) :=
  ⟨listOf_iff, listOf_iff⟩

end Descent.Repetition
