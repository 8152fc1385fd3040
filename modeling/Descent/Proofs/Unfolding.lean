import Descent.Proofs.Chains
import Descent.Proofs.LeftRecursion

/-!
# A list is its first element and a list of the others

The first element of a list is read apart, and only what follows it goes through the loop.  So a
list can be unfolded: it is one element, and then the list of what follows.  What follows has no
first element of its own unless the delimiter is taken into its elements (`withPrefix`); then every
element is read like every other, and there is nothing left between them.

Two things could keep the two sides apart.  Without a greatest number a list spares its first
element the rule against idle iterations, so on one side an iteration is spared that is not spared
on the other; this needs elements that use up input.  And a list that is too short for no other
reason than its bounds fails under its own name; this needs bounds that leave room.

* `collects_nothing_iff`: without delimiters a list collects what the loop does.
* `rest_withPrefix_iff`: the loop collects the same with the delimiter taken into the elements.
* `comesTo_listOf_iff`: a list is its first element and a list of the others, from which follow
  both unfoldings, that of lists with delimiters and that of lists without (`lists_unfold`).
-/

namespace Descent

variable {α β γ : Type}

/-- The first cursor is at an earlier position than the second. -/
def Cursor.Precedes (c next : Cursor α) : Prop := c.position < next.position

theorem Onward.precedes {c next : Cursor α} (h : Onward c next)
    (hne : next.position ≠ c.position) : c.Precedes next :=
  Nat.lt_of_le_of_ne h.position_le hne.symm

theorem Onward.trans_precedes {c mid next : Cursor α} (h : Onward c mid) (h' : mid.Precedes next) :
    c.Precedes next :=
  Nat.lt_of_le_of_lt h.position_le h'

/-- One element is always used up. -/
theorem Parser.keeps_precedes_takeSingle (name : String) (test : α → Bool) (v : Verbosity) :
    ((takeSingle name test).run v).Keeps Cursor.Precedes :=
  fun c x next h => (keeps_takeSingle isPassage_onward name test c x next h).precedes
    (position_ne_of_accepts_takeSingle h)

/-- A run is never empty. -/
theorem Parser.keeps_precedes_takeWhile (name : String) (test : α → Bool) (v : Verbosity) :
    ((takeWhile name test).run v).Keeps Cursor.Precedes :=
  fun c xs next h => (keeps_takeWhile isPassage_onward name test c xs next h).precedes
    (position_ne_of_accepts_takeWhile h)

/-- What leads onward first and further on then leads further on. -/
theorem Parser.keeps_precedes_pair {p : Parser α β} {d : Parser α γ} {v : Verbosity}
    (hd : (d.run v).Keeps Onward) (hp : (p.run v).Keeps Cursor.Precedes) :
    ((pair d p).run v).Keeps Cursor.Precedes := by
  intro c z next hz
  obtain ⟨y, mid, x, hy, hx, -⟩ := accepts_pair.mp hz
  exact (hd c y mid hy).trans_precedes (hp mid x next hx)

/-! ## Results with rounds enough -/

namespace Parser

/-- With enough rounds for its loops the parser comes to this result at the cursor. -/
def ComesTo (p : Nat → Parser α β) (v : Verbosity) (c : Cursor α)
    (r : Except (ParseError α) (β × Cursor α)) : Prop :=
  ∃ spare, ((p spare).run v c).result? = some r

variable {p : Parser α β} {d : Parser α γ} {v : Verbosity} {c next : Cursor α} {x : β}
  {e : ParseError α}

/-- A pair comes to the error of its first parser, or to what its second comes to behind it. -/
theorem comesTo_pair_iff {q : Nat → Parser α γ} {r : Except (ParseError α) ((β × γ) × Cursor α)} :
    ComesTo (fun spare => pair p (q spare)) v c r ↔
      (∃ e, (p.run v).Rejects c e ∧ r = .error e) ∨
        ∃ x mid r', (p.run v).Accepts c x mid ∧ ComesTo q v mid r' ∧
          r = r'.map fun z => ((x, z.1), z.2) := by
  constructor
  · rintro ⟨spare, h⟩
    rcases r with e | ⟨z, next⟩
    · rcases rejects_pair.mp h with hp | ⟨x, mid, hp, hq⟩
      · exact Or.inl ⟨e, hp, rfl⟩
      · exact Or.inr ⟨x, mid, .error e, hp, ⟨spare, hq⟩, rfl⟩
    · obtain ⟨x, mid, y, hp, hq, rfl⟩ := accepts_pair.mp h
      exact Or.inr ⟨x, mid, .ok (y, next), hp, ⟨spare, hq⟩, rfl⟩
  · rintro (⟨e, hp, rfl⟩ | ⟨x, mid, r', hp, ⟨spare, hq⟩, rfl⟩)
    · exact ⟨0, rejects_pair.mpr (Or.inl hp)⟩
    · rcases r' with e | ⟨y, next⟩
      · exact ⟨spare, rejects_pair.mpr (Or.inr ⟨x, mid, hp, hq⟩)⟩
      · exact ⟨spare, accepts_pair.mpr ⟨x, mid, y, hp, hq, rfl⟩⟩

end Parser

namespace Repetition

open Descent.Parser

variable {p p' : Parser α β} {d : Parser α γ} {v : Verbosity} {c next start : Cursor α} {x : β}
  {e : ParseError α} {links : List (β × Cursor α)} {greatest room : Option Nat}
  {stop : Option (ParseError α)}

/-- An iteration leads on if its element does and its delimiter does not lead back. -/
theorem Iterates.precedes (hd : (d.run v).Keeps Onward) (hp : (p.run v).Keeps Cursor.Precedes)
    (h : Iterates p d v c x next) : c.Precedes next := by
  obtain ⟨y, mid, hy, hx⟩ := h
  exact (hd c y mid hy).trans_precedes (hp mid x next hx)

/-! ## Iterations without a delimiter -/

theorem iterates_nothing_iff : Iterates p nothing v c x next ↔ (p.run v).Accepts c x next := by
  constructor
  · rintro ⟨y, mid, hd, hp⟩
    obtain rfl := accepts_nothing.mp hd
    exact hp
  · exact fun hp => ⟨(), c, accepts_nothing.mpr rfl, hp⟩

theorem breaks_nothing_iff : Breaks p nothing v c e ↔ (p.run v).Rejects c e := by
  constructor
  · rintro (hd | ⟨y, mid, hd, hp⟩)
    · exact absurd hd not_rejects_nothing
    · obtain rfl := accepts_nothing.mp hd
      exact hp
  · exact fun hp => Or.inr ⟨(), c, accepts_nothing.mpr rfl, hp⟩

/-- An element with the delimiter taken into it succeeds where an iteration does. -/
theorem accepts_withPrefix_iff :
    ((withPrefix d p).run v).Accepts c x next ↔ Iterates p d v c x next := by
  rw [withPrefix, accepts_delimited]
  constructor
  · rintro ⟨y, mid, last, _, hd, hp, hnothing⟩
    obtain rfl := accepts_nothing.mp hnothing
    exact ⟨y, mid, hd, hp⟩
  · rintro ⟨y, mid, hd, hp⟩
    exact ⟨y, mid, next, (), hd, hp, accepts_nothing.mpr rfl⟩

/-- It fails where an iteration breaks, with the same error. -/
theorem rejects_withPrefix_iff :
    ((withPrefix d p).run v).Rejects c e ↔ Breaks p d v c e := by
  rw [withPrefix, rejects_delimited]
  refine or_congr Iff.rfl (exists_congr fun y => exists_congr fun mid => and_congr_right fun _ => ?_)
  refine or_iff_left ?_
  rintro ⟨x, last, -, hnothing⟩
  exact not_rejects_nothing hnothing

/-! ## Loops that collect the same -/

/-- What a loop collects depends only on where its iterations lead and where they break. -/
theorem Rest.imp {δ : Type} {d' : Parser α δ}
    (hiter : ∀ c x next, Iterates p d v c x next → Iterates p' d' v c x next)
    (hbreaks : ∀ c e, Breaks p d v c e → Breaks p' d' v c e)
    (h : Rest p d v room c links stop) : Rest p' d' v room c links stop := by
  induction h with
  | full c => exact Rest.full c
  | broken hroom hbreak => exact Rest.broken hroom (hbreaks _ _ hbreak)
  | idle hx hposition => exact Rest.idle (hiter _ _ _ hx) hposition
  | counted hx _ ih => exact Rest.counted (hiter _ _ _ hx) ih
  | moved hx hposition _ ih => exact Rest.moved (hiter _ _ _ hx) hposition ih

/-- The loop collects the same with the delimiter taken into the elements. -/
theorem rest_withPrefix_iff :
    Rest (withPrefix d p) nothing v room c links stop ↔ Rest p d v room c links stop := by
  have hiter : ∀ c x next, Iterates (withPrefix d p) nothing v c x next ↔ Iterates p d v c x next :=
    fun c x next => iterates_nothing_iff.trans accepts_withPrefix_iff
  have hbreaks : ∀ c e, Breaks (withPrefix d p) nothing v c e ↔ Breaks p d v c e :=
    fun c e => breaks_nothing_iff.trans rejects_withPrefix_iff
  exact ⟨Rest.imp (fun c x next => (hiter c x next).mp) fun c e => (hbreaks c e).mp,
    Rest.imp (fun c x next => (hiter c x next).mpr) fun c e => (hbreaks c e).mpr⟩

/-- **Without delimiters the first element is like every other.**  What a list collects is what the
loop collects from its start on; without a greatest number elements have to use up input, because
the loop would stop at an idle first element and the list does not. -/
theorem collects_nothing_iff (hmoves : greatest = none → (p.run v).Keeps Cursor.Precedes) :
    Collects p nothing v greatest start links stop ↔
      Rest p nothing v greatest start links stop := by
  constructor
  · intro h
    cases h with
    | none hnone =>
      subst hnone
      exact Rest.full start
    | broken hsome hp => exact Rest.broken hsome (breaks_nothing_iff.mpr hp)
    | @more next x links stop hsome hp hrest =>
      have hiter : Iterates p nothing v start x next := iterates_nothing_iff.mpr hp
      rcases greatest with _ | most
      · have hlt : start.position < next.position := hmoves rfl start x next hp
        exact Rest.moved hiter (Nat.ne_of_gt hlt) hrest
      · obtain ⟨most, rfl⟩ :=
          Nat.exists_eq_succ_of_ne_zero fun h : most = 0 => hsome (congrArg some h)
        exact Rest.counted hiter hrest
  · intro h
    cases h with
    | full => exact Collects.none rfl
    | broken hsome hbreaks => exact Collects.broken hsome (breaks_nothing_iff.mp hbreaks)
    | @idle _ next x hiter hposition =>
      have hlt : start.position < next.position :=
        hmoves rfl start x next (iterates_nothing_iff.mp hiter)
      exact absurd hposition (Nat.ne_of_gt hlt)
    | counted hiter hrest =>
      exact Collects.more (by simp) (iterates_nothing_iff.mp hiter) hrest
    | moved hiter _ hrest => exact Collects.more (by simp) (iterates_nothing_iff.mp hiter) hrest

/-- A loop that stops short of its room does so because an attempt failed, if its iterations use up
input. -/
theorem Rest.stopped (h : Rest p d v room c links stop)
    (hmoves : room = none → ∀ c x next, Iterates p d v c x next → c.Precedes next)
    (hshort : ∀ most, room = some most → links.length < most) : ∃ e, stop = some e := by
  have hhalts := h.halts
  rcases stop with _ | e
  · rcases hhalts with hfull | ⟨hnone, x, next, hiter, hposition⟩
    · exact absurd (hshort _ hfull) (Nat.lt_irrefl _)
    · have hlt : (endOf c links).position < next.position := hmoves hnone _ x next hiter
      exact absurd hposition (Nat.ne_of_gt hlt)
  · exact ⟨e, rfl⟩

/-! ## Lists that unfold -/

/-- The result of a list with one more element in front. -/
def headed (x : β) (z : List β × Cursor α) : List β × Cursor α := (x :: z.1, z.2)

/-- The verdict on no links at all, the first element having failed. -/
theorem verdict_nil {name : String} {least : Nat} :
    verdict v name ⟨least, greatest⟩ start ([] : List (β × Cursor α)) (some e) =
      if least = 0 then .ok ([], start) else .error e := by
  unfold verdict
  by_cases hleast : least = 0
  · rw [if_pos hleast]
    exact if_neg (by simp [hleast])
  · rw [if_neg hleast]
    exact if_pos (Nat.pos_of_ne_zero hleast)

/-- The verdict on links is that on the links behind the first, with the first output in front, if
links that are too few were ended by a failure. -/
theorem verdict_cons {name name' : String} {least : Nat}
    (hstop : links.length < least - 1 → ∃ e, stop = some e) :
    verdict v name ⟨least, greatest⟩ start ((x, c) :: links) stop =
      (verdict v name' ⟨least - 1, room⟩ c links stop).map (headed x) := by
  unfold verdict
  dsimp only
  by_cases hfew : links.length < least - 1
  · obtain ⟨e, rfl⟩ := hstop hfew
    rw [if_pos hfew, if_pos (by rw [List.length_cons]; omega)]
    rfl
  · rw [if_neg hfew, if_neg (by rw [List.length_cons]; omega)]
    rfl

theorem comesTo_listOf {name : String} {bounds : Bounds}
    {r : Except (ParseError α) (List β × Cursor α)} :
    ComesTo (fun spare => listOf name spare bounds p d) v start r ↔
      ∃ links stop, Collects p d v bounds.greatest start links stop ∧
        r = verdict v name bounds start links stop :=
  listOf_iff.trans policy_iff

/-- **A list is its first element and a list of the others.**  Let there be room for an element, let
a list of other elements without delimiters collect what the loop does, and let the loop be ended by
a failure whenever it collects too little.  Then the list comes to an error of its first element, or
to the empty list in its place if no element is needed, or to what the list of the others comes to
behind the first element, with that element in front. -/
theorem comesTo_listOf_iff {name name' : String} {least : Nat} (hroom : greatest ≠ some 0)
    (hcollects : ∀ c links stop, Collects p' nothing v (greatest.map (· - 1)) c links stop ↔
      Rest p d v (greatest.map (· - 1)) c links stop)
    (hstop : ∀ c links stop, Rest p d v (greatest.map (· - 1)) c links stop →
      links.length < least - 1 → ∃ e, stop = some e)
    {r : Except (ParseError α) (List β × Cursor α)} :
    ComesTo (fun spare => listOf name spare ⟨least, greatest⟩ p d) v start r ↔
      (∃ e, (p.run v).Rejects start e ∧
          r = if least = 0 then .ok ([], start) else .error e) ∨
        ∃ x mid r', (p.run v).Accepts start x mid ∧
          ComesTo (fun spare => listOf name' spare ⟨least - 1, greatest.map (· - 1)⟩ p' nothing)
            v mid r' ∧
          r = r'.map (headed x) := by
  rw [comesTo_listOf]
  constructor
  · rintro ⟨links, stop, hlist, rfl⟩
    cases hlist with
    | none hnone => exact absurd hnone hroom
    | @broken e _ hp => exact Or.inl ⟨e, hp, verdict_nil⟩
    | @more mid x links stop _ hp hrest =>
      refine Or.inr ⟨x, mid, _, hp, comesTo_listOf.mpr ⟨links, stop, ?_, rfl⟩, ?_⟩
      · exact (hcollects mid links stop).mpr hrest
      · exact verdict_cons (hstop mid links stop hrest)
  · rintro (⟨e, hp, rfl⟩ | ⟨x, mid, r', hp, hothers, rfl⟩)
    · exact ⟨[], some e, Collects.broken hroom hp, verdict_nil.symm⟩
    · obtain ⟨links, stop, hlist, rfl⟩ := comesTo_listOf.mp hothers
      have hrest := (hcollects mid links stop).mp hlist
      refine ⟨(x, mid) :: links, stop, Collects.more hroom hp hrest, ?_⟩
      exact (verdict_cons (hstop mid links stop hrest)).symm

/-- A list that needs no element never fails. -/
theorem eq_ok_of_comesTo_listOf {name : String}
    {r : Except (ParseError α) (List β × Cursor α)}
    (h : ComesTo (fun spare => listOf name spare ⟨0, greatest⟩ p d) v start r) :
    ∃ xs next, r = .ok (xs, next) := by
  obtain ⟨links, stop, -, rfl⟩ := comesTo_listOf.mp h
  exact ⟨_, _, if_neg (Nat.not_lt_zero _)⟩

/-- A list of the others has one element less to read, at both bounds. -/
theorem limited_pred {least most : Nat} (hmost : most = 0 ∨ 2 ≤ most) :
    Bounds.limited (least - 1) (most - 1) =
      ⟨least - 1, (Bounds.limited least most).greatest.map (· - 1)⟩ := by
  unfold Bounds.limited
  rcases hmost with rfl | hmost
  · rfl
  · rw [if_neg (by omega), if_neg (by omega)]
    rfl

/-- A list with delimiters is its first element and a list, without delimiters, of the others each
with a delimiter in front. -/
theorem comesTo_separated_iff {least most : Nat} (hmost : most = 0 ∨ max 2 least ≤ most)
    (hmoves : most = 0 → ((pair d p).run v).Keeps Cursor.Precedes)
    {r : Except (ParseError α) (List β × Cursor α)} :
    ComesTo (fun spare => separated spare (.limited least most) p d) v start r ↔
      (∃ e, (p.run v).Rejects start e ∧
          r = if least = 0 then .ok ([], start) else .error e) ∨
        ∃ x mid r', (p.run v).Accepts start x mid ∧
          ComesTo (fun spare => repeated spare (.limited (least - 1) (most - 1)) (withPrefix d p))
            v mid r' ∧
          r = r'.map (headed x) := by
  have hiter : most = 0 → ∀ c x next, Iterates p d v c x next → c.Precedes next := by
    rintro hnone c x next ⟨y, mid, hd, hp⟩
    exact hmoves hnone c (y, x) next (accepts_pair.mpr ⟨y, mid, x, hd, hp, rfl⟩)
  have hgreatest : (Bounds.limited least most).greatest.map (· - 1) = none → most = 0 := by
    simp [Bounds.limited]
  have hpred : Bounds.limited (least - 1) (most - 1) = _ :=
    limited_pred (hmost.imp_right fun hle => Nat.le_trans (Nat.le_max_left 2 least) hle)
  unfold separated repeated
  rw [hpred]
  refine comesTo_listOf_iff (by simp) ?_ ?_
  · intro c links stop
    rw [← rest_withPrefix_iff]
    refine collects_nothing_iff fun hnone c x next hx => ?_
    exact hiter (hgreatest hnone) c x next (accepts_withPrefix_iff.mp hx)
  · intro c links stop hrest hfew
    refine hrest.stopped (fun hnone => hiter (hgreatest hnone)) fun room hroom => ?_
    rcases hmost with rfl | hmost
    · exact absurd hroom (by simp)
    · rw [if_neg (by omega)] at hroom
      have hpredMost : most - 1 = room := Option.some.inj hroom
      omega

/-- A list without delimiters is its first element and a list of the others. -/
theorem comesTo_repeated_iff {least : Nat} (hmoves : (p.run v).Keeps Cursor.Precedes)
    {r : Except (ParseError α) (List β × Cursor α)} :
    ComesTo (fun spare => repeated spare ⟨least, none⟩ p) v start r ↔
      (∃ e, (p.run v).Rejects start e ∧
          r = if least = 0 then .ok ([], start) else .error e) ∨
        ∃ x mid r', (p.run v).Accepts start x mid ∧
          ComesTo (fun spare => repeated spare ⟨least - 1, none⟩ p) v mid r' ∧
          r = r'.map (headed x) := by
  refine comesTo_listOf_iff (by simp) ?_ ?_
  · exact fun c links stop => collects_nothing_iff fun _ => hmoves
  · intro c links stop hrest _
    refine hrest.stopped (fun _ c x next hiter => ?_) fun room hroom => absurd hroom (by simp)
    exact hmoves c x next (iterates_nothing_iff.mp hiter)

/-- **Lists unfold.**  A list with delimiters comes to what its first element, followed by a list of
the others each with a delimiter in front, comes to: with the first output in front, at the same
cursor, and with the same errors.  The list of the others has one element less to read at both
bounds, where a greatest number of zero still stands for none.  The greatest number has to leave
room for two elements and for the least number, and where there is none a delimiter and the element
behind it have to use up input.  If no element is needed, a failure of the first is the empty list
at the start, and nothing else is different.  A list of any number of elements that use up input,
without delimiters, is empty where an element fails, and otherwise it is that element and the list
from its end on. -/
theorem lists_unfold (p : Parser α β) (d : Parser α γ) (v : Verbosity) (start : Cursor α) :
    (∀ least most, 1 ≤ least → (most = 0 ∨ max 2 least ≤ most) →
        (most = 0 → ((pair d p).run v).Keeps Cursor.Precedes) →
      ∀ r, ComesTo (fun spare => separated spare (.limited least most) p d) v start r ↔
        ∃ r', ComesTo (fun spare => pair p
            (repeated spare (.limited (least - 1) (most - 1)) (withPrefix d p))) v start r' ∧
          r = r'.map fun z => (z.1.1 :: z.1.2, z.2)) ∧
    (∀ most, (most = 0 ∨ 2 ≤ most) →
        (most = 0 → ((pair d p).run v).Keeps Cursor.Precedes) →
      ∀ r, ComesTo (fun spare => separated spare (.limited 0 most) p d) v start r ↔
        (∃ e, (p.run v).Rejects start e) ∧ r = .ok ([], start) ∨
          ∃ x xs next, ComesTo (fun spare => pair p
              (repeated spare (.limited 0 (most - 1)) (withPrefix d p))) v start
              (.ok ((x, xs), next)) ∧
            r = .ok (x :: xs, next)) ∧
    ((p.run v).Keeps Cursor.Precedes →
      ∀ r, ComesTo (fun spare => repeated spare .any p) v start r ↔
        (∃ e, (p.run v).Rejects start e) ∧ r = .ok ([], start) ∨
          ∃ x mid r', (p.run v).Accepts start x mid ∧
            ComesTo (fun spare => repeated spare .any p) v mid r' ∧
            r = r'.map fun z => (x :: z.1, z.2)) := by
  refine ⟨?_, ?_, ?_⟩
  · intro least most hleast hmost hmoves r
    have hne : ¬ least = 0 := Nat.ne_of_gt hleast
    simp only [comesTo_separated_iff hmost hmoves, if_neg hne]
    constructor
    · rintro (⟨e, hp, rfl⟩ | ⟨x, mid, r', hp, hothers, rfl⟩)
      · exact ⟨.error e, comesTo_pair_iff.mpr (Or.inl ⟨e, hp, rfl⟩), rfl⟩
      · refine ⟨_, comesTo_pair_iff.mpr (Or.inr ⟨x, mid, r', hp, hothers, rfl⟩), ?_⟩
        rcases r' with e | z <;> rfl
    · rintro ⟨r', hpair, rfl⟩
      rcases comesTo_pair_iff.mp hpair with ⟨e, hp, rfl⟩ | ⟨x, mid, r', hp, hothers, rfl⟩
      · exact Or.inl ⟨e, hp, rfl⟩
      · refine Or.inr ⟨x, mid, r', hp, hothers, ?_⟩
        rcases r' with e | z <;> rfl
  · intro most hmost hmoves r
    rw [comesTo_separated_iff hmost hmoves]
    constructor
    · rintro (⟨e, hp, rfl⟩ | ⟨x, mid, r', hp, hothers, rfl⟩)
      · exact Or.inl ⟨⟨e, hp⟩, rfl⟩
      · obtain ⟨xs, next, rfl⟩ := eq_ok_of_comesTo_listOf hothers
        refine Or.inr ⟨x, xs, next, ?_, rfl⟩
        exact comesTo_pair_iff.mpr (Or.inr ⟨x, mid, _, hp, hothers, rfl⟩)
    · rintro (⟨⟨e, hp⟩, rfl⟩ | ⟨x, xs, next, hpair, rfl⟩)
      · exact Or.inl ⟨e, hp, rfl⟩
      · rcases comesTo_pair_iff.mp hpair with ⟨e, -, h⟩ | ⟨x', mid, r', hp, hothers, h⟩
        · exact absurd h (by simp)
        · obtain ⟨xs', next', rfl⟩ := eq_ok_of_comesTo_listOf hothers
          obtain ⟨hpair', rfl⟩ := Prod.mk.inj (Except.ok.inj h)
          obtain ⟨rfl, rfl⟩ := Prod.mk.inj hpair'
          exact Or.inr ⟨x, mid, _, hp, hothers, rfl⟩
  · intro hmoves r
    show ComesTo (fun spare => repeated spare ⟨0, none⟩ p) v start r ↔ _
    rw [comesTo_repeated_iff hmoves]
    refine or_congr ?_ Iff.rfl
    constructor
    · rintro ⟨e, hp, rfl⟩
      exact ⟨⟨e, hp⟩, rfl⟩
    · rintro ⟨⟨e, hp⟩, rfl⟩
      exact ⟨e, hp, rfl⟩

/-- A digit, one of three. -/
def digit : Parser Char Char := oneOf "DIGIT" ['1', '2', '3']

/-- A comma. -/
def comma : Parser Char (List Char) := tag "COMMA" [',']

/-- Digits with commas between them, where a third digit is missing behind the second comma, where
none is needed and there is none, and without commas. -/
theorem digits_unfold :
    (((pair comma digit).run .verbose).Keeps Cursor.Precedes ∧
        (digit.run .verbose).Keeps Cursor.Precedes) ∧
      (ComesTo (fun spare => pair digit (repeated spare (.limited 2 0) (withPrefix comma digit)))
          .verbose (Cursor.new ['1', ',', '2', ',', ';'])
          (.error (.expected "DIGIT" ⟨['1', ',', '2', ',', ';'], 4⟩)) ∧
        ComesTo (fun spare => separated spare (.limited 3 0) digit comma)
          .verbose (Cursor.new ['1', ',', '2', ',', ';'])
          (.error (.expected "DIGIT" ⟨['1', ',', '2', ',', ';'], 4⟩))) ∧
      ComesTo (fun spare => separated spare (.limited 0 2) digit comma)
        .verbose (Cursor.new [',', '1']) (.ok ([], .valid [',', '1'] 0)) ∧
      ComesTo (fun spare => repeated spare .any digit)
        .verbose (Cursor.new ['1', '2']) (.ok (['1', '2'], .endOfInput ['1', '2'])) := by
  have hdigit : (digit.run .verbose).Keeps Cursor.Precedes := by
    rw [digit, oneOf_eq_takeSingle]
    exact keeps_precedes_takeSingle _ _ .verbose
  have hboth : ((pair comma digit).run .verbose).Keeps Cursor.Precedes := by
    intro c z next hz
    obtain ⟨y, mid, x, hy, hx, -⟩ := accepts_pair.mp hz
    exact Iterates.precedes (keeps_tag isPassage_onward "COMMA" [',']) hdigit ⟨y, mid, hy, hx⟩
  have hpair : ComesTo (fun spare => pair digit (repeated spare (.limited 2 0)
        (withPrefix comma digit))) .verbose (Cursor.new ['1', ',', '2', ',', ';'])
      (.error (.expected "DIGIT" ⟨['1', ',', '2', ',', ';'], 4⟩)) := ⟨0, rfl⟩
  have hrest : ComesTo (fun spare => repeated spare .any digit) .verbose
      (.valid ['1', '2'] 1) (.ok (['2'], .endOfInput ['1', '2'])) := ⟨0, rfl⟩
  obtain ⟨hneeded, -, -⟩ := lists_unfold digit comma .verbose (Cursor.new ['1', ',', '2', ',', ';'])
  obtain ⟨-, hnoneNeeded, -⟩ := lists_unfold digit comma .verbose (Cursor.new [',', '1'])
  obtain ⟨-, -, hmany⟩ := lists_unfold digit comma .verbose (Cursor.new ['1', '2'])
  refine ⟨⟨hboth, hdigit⟩, ⟨hpair, ?_⟩, ?_, ?_⟩
  · exact (hneeded 3 0 (by decide) (Or.inl rfl) (fun _ => hboth) _).mpr ⟨_, hpair, rfl⟩
  · exact (hnoneNeeded 2 (Or.inr (Nat.le_refl 2)) (fun _ => hboth) _).mpr
      (Or.inl ⟨⟨_, rfl⟩, rfl⟩)
  · exact (hmany hdigit _).mpr (Or.inr ⟨'1', _, _, rfl, hrest, rfl⟩)

end Repetition

end Descent
