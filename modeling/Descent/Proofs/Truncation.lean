import Descent.Proofs.Simulation
import Descent.Proofs.Unfolding

/-!
# What bounds change

The bounds of a list do not decide what its elements are.  The greatest number says where to stop,
so that a list with less room has the first elements of one with more, and the least number is
compared with the outcome when all is over.

The loops do not know this: there is a bounded and an unbounded one, and the error of a list that is
too short is that of the attempt which ended it, or its own if the bound did.  What is proved along
the loops is that less room means fewer of the same links, with the bound as the reason to stop if
there would have been more (`Rest.truncate`).  The unbounded loop may have a reason of its own, an
idle iteration, and then the bounded one goes on where it stops.  So an unbounded list compares with
bounded ones only if its iterations use up input, and then it has no more elements than there is
input for, the first one not counted (`Collects.length_le`).

* `Collects.truncate`: with less room a list collects the first links.
* `Collects.unique`: a list collects one thing.
* `bounds_cut_and_test`: lists under two pairs of bounds compare as these facts say.
-/

namespace Descent.Repetition

open Descent.Parser

variable {α β γ : Type} {p : Parser α β} {d : Parser α γ} {v : Verbosity} {c start : Cursor α}
  {links links' : List (β × Cursor α)} {stop stop' : Option (ParseError α)}
  {greatest room : Option Nat} {most : Nat}

/-! ## One thing to collect -/

/-- **A list collects one thing.** -/
theorem Collects.unique (h : Collects p d v greatest start links stop)
    (h' : Collects p d v greatest start links' stop') : links = links' ∧ stop = stop' := by
  obtain ⟨hchain, hpermitted, hended⟩ := collects_iff.mp h
  obtain ⟨hchain', hpermitted', hended'⟩ := collects_iff.mp h'
  have hle : links <+: links' := hended'.longest hchain' hchain hpermitted
  have hle' : links' <+: links := hended.longest hchain hchain' hpermitted'
  -- with rounds enough for both, the loop hands over both
  have hresult := collect_of_collects p d v h (Nat.le_max_left _ links'.length)
  have hresult' := collect_of_collects p d v h' (Nat.le_max_right links.length _)
  have hcollected := Except.ok.inj (Option.some.inj (hresult.symm.trans hresult'))
  exact ⟨hle.eq_of_length_le hle'.length_le, congrArg Collected.stop hcollected⟩

theorem comesTo_listOf_unique {name : String} {bounds : Bounds}
    {r r' : Except (ParseError α) (List β × Cursor α)}
    (h : ComesTo (fun spare => listOf name spare bounds p d) v start r)
    (h' : ComesTo (fun spare => listOf name spare bounds p d) v start r') : r = r' := by
  obtain ⟨links, stop, hcollects, rfl⟩ := comesTo_listOf.mp h
  obtain ⟨links', stop', hcollects', rfl⟩ := comesTo_listOf.mp h'
  obtain ⟨rfl, rfl⟩ := hcollects.unique hcollects'
  rfl

/-! ## Less room -/

/-- With less room the loop collects the first links, and if there are no more of them it stops for
the same reason.  Without a bound that reason has to be a failure. -/
theorem Rest.truncate (h : Rest p d v room c links stop)
    (hroom : ∀ most', room = some most' → most ≤ most')
    (hstop : room = none → ∃ e, stop = some e) :
    Rest p d v (some most) c (links.take most) (if links.length < most then stop else none) := by
  induction h generalizing most with
  | full c =>
    obtain rfl : most = 0 := Nat.le_zero.mp (hroom 0 rfl)
    exact Rest.full c
  | broken _ hbreaks =>
    rcases most with _ | most
    · exact Rest.full _
    · exact Rest.broken (by simp) hbreaks
  | idle => exact absurd (hstop rfl) (by simp)
  | counted hiter _ ih =>
    rcases most with _ | most
    · exact Rest.full _
    · simp only [List.take_succ_cons, List.length_cons, Nat.succ_lt_succ_iff]
      refine Rest.counted hiter (ih ?_ (by simp))
      rintro most' ⟨⟩
      exact Nat.le_of_succ_le_succ (hroom _ rfl)
  | moved hiter _ _ ih =>
    rcases most with _ | most
    · exact Rest.full _
    · simp only [List.take_succ_cons, List.length_cons, Nat.succ_lt_succ_iff]
      exact Rest.counted hiter (ih (by simp) hstop)

/-- **With less room a list collects the first links.** -/
theorem Collects.truncate (h : Collects p d v greatest start links stop)
    (hroom : ∀ most', greatest = some most' → most ≤ most')
    (hstop : greatest = Option.none → ∃ e, stop = some e) :
    Collects p d v (some most) start (links.take most)
      (if links.length < most then stop else Option.none) := by
  rcases most with _ | most
  · exact Collects.none rfl
  · cases h with
    | none hnone => exact absurd (hroom 0 hnone) (Nat.not_succ_le_zero most)
    | broken _ hreject => exact Collects.broken (by simp) hreject
    | more hsome hp hrest =>
      simp only [List.take_succ_cons, List.length_cons, Nat.succ_lt_succ_iff]
      refine Collects.more (by simp) hp (hrest.truncate ?_ fun hroom => hstop ?_)
      · intro most' hmost'
        obtain ⟨most'', rfl, rfl⟩ := Option.map_eq_some_iff.mp hmost'
        exact Nat.le_sub_one_of_lt (hroom most'' rfl)
      · exact Option.map_eq_none_iff.mp hroom

/-- The loop is ended by a failure if its iterations use up input, and so is a list. -/
theorem Collects.stopped (h : Collects p d v Option.none start links stop)
    (hmoves : ∀ c x next, Iterates p d v c x next → c.Precedes next) : ∃ e, stop = some e := by
  cases h with
  | none hnone => exact absurd hnone (by simp)
  | broken => exact ⟨_, rfl⟩
  | more _ _ hrest => exact hrest.stopped (fun _ => hmoves) fun most hmost => absurd hmost (by simp)

/-! ## No bound -/

section Unbounded

/-- From well-formed cursors iterations lead onward, and further on. -/
def Strides (p : Parser α β) (d : Parser α γ) (v : Verbosity) : Prop :=
  ∀ c x next, c.WellFormed → Iterates p d v c x next → Onward c next ∧ c.Precedes next

variable (hstrides : Strides p d v)

include hstrides

/-- Iterations that use up input are ended by a failure, and there is no more of them than input. -/
theorem Rest.length_le_left (h : Rest p d v none c links stop) (hc : c.WellFormed) :
    links.length ≤ c.left ∧ ∃ e, stop = some e := by
  induction links generalizing c with
  | nil =>
    cases h with
    | @broken _ _ e => exact ⟨Nat.zero_le _, e, rfl⟩
    | idle hiter hposition =>
      exact absurd hposition (Nat.ne_of_gt (hstrides _ _ _ hc hiter).2)
  | cons link links ih =>
    cases h with
    | moved hiter hposition hrest =>
      have honward := (hstrides _ _ _ hc hiter).1
      obtain ⟨hlength, hstop⟩ := ih hrest (honward.wellFormed hc)
      have hleft := honward.left_lt hposition
      refine ⟨?_, hstop⟩
      rw [List.length_cons]
      omega

/-- Where there is room for more iterations than there is input for, a bound makes no difference. -/
theorem Rest.unbounded (h : Rest p d v (some most) c links stop) (hc : c.WellFormed)
    (hroom : c.left < most) : Rest p d v none c links stop := by
  induction links generalizing c most with
  | nil =>
    cases h with
    | full => exact absurd hroom (Nat.not_lt_zero _)
    | broken _ hbreaks => exact Rest.broken (by simp) hbreaks
  | cons link links ih =>
    cases h with
    | counted hiter hrest =>
      obtain ⟨honward, hprecedes⟩ := hstrides _ _ _ hc hiter
      have hposition := Nat.ne_of_gt hprecedes
      have hleft := honward.left_lt hposition
      exact Rest.moved hiter hposition (ih hrest (honward.wellFormed hc) (by omega))

variable (hfirst : (p.run v).Keeps fun c next => c.WellFormed → Onward c next)

include hfirst

/-- **An unbounded list has no more elements than there is input for,** the first one, which may be
empty, not counted. -/
theorem Collects.length_le (h : Collects p d v Option.none start links stop)
    (hstart : start.WellFormed) :
    links.length ≤ start.left + 1 ∧ ∃ e, stop = some e := by
  cases h with
  | none hnone => exact absurd hnone (by simp)
  | @broken e => exact ⟨Nat.zero_le _, e, rfl⟩
  | more _ hp hrest =>
    have honward := hfirst _ _ _ hp hstart
    obtain ⟨hlength, hstop⟩ := hrest.length_le_left hstrides (honward.wellFormed hstart)
    have hleft := honward.left_le
    refine ⟨?_, hstop⟩
    rw [List.length_cons]
    omega

theorem Collects.unbounded (h : Collects p d v (some most) start links stop)
    (hstart : start.WellFormed) (hroom : start.left + 1 < most) :
    Collects p d v Option.none start links stop := by
  cases h with
  | none hnone =>
    obtain rfl := Option.some.inj hnone
    exact absurd hroom (Nat.not_lt_zero _)
  | broken _ hreject => exact Collects.broken (by simp) hreject
  | @more next _ _ _ _ hp hrest =>
    have honward := hfirst _ _ _ hp hstart
    have hleft := honward.left_le
    have hroom' : next.left < most - 1 := by omega
    exact Collects.more (by simp) hp (hrest.unbounded hstrides (honward.wellFormed hstart) hroom')

end Unbounded

/-! ## Lists under two pairs of bounds -/

/-- The second list cut off at a number of elements: its first elements, and its end unless some of
them are missing. -/
def IsCut (most : Nat) (z z' : List β × Cursor α) : Prop :=
  z.1 = z'.1.take most ∧ (z'.1.length ≤ most → z.2 = z'.2)

/-- How lists of the same elements and delimiters under different bounds compare at a cursor. -/
structure BoundsCompare (list : Bounds → Nat → Parser α (List β)) (p : Parser α β)
    (d : Parser α γ) (v : Verbosity) (start : Cursor α) : Prop where
  /-- The least number is no part of a list that has it. -/
  least_same : ∀ greatest least least' z z', ComesTo (list ⟨least, greatest⟩) v start (.ok z) →
    ComesTo (list ⟨least', greatest⟩) v start (.ok z') → z = z'
  /-- A list that has the least number has every smaller one. -/
  least_lower : ∀ greatest least least' z, least' ≤ least →
    ComesTo (list ⟨least, greatest⟩) v start (.ok z) →
    ComesTo (list ⟨least', greatest⟩) v start (.ok z)
  /-- A smaller greatest number cuts the list off, and makes no other difference. -/
  greatest_cut : ∀ least most most' r r', least ≤ most → most ≤ most' →
    ComesTo (list ⟨least, some most⟩) v start r → ComesTo (list ⟨least, some most'⟩) v start r' →
    Agree Eq (IsCut most) r r'
  /-- A list that comes to a result does so with a smaller greatest number. -/
  greatest_returns : ∀ least most most' r', most ≤ most' →
    ComesTo (list ⟨least, some most'⟩) v start r' →
    ∃ r, ComesTo (list ⟨least, some most⟩) v start r
  /-- A greatest number that leaves room for more elements than there is input for makes no
  difference.  If it leaves room for just as many, the reason to stop may be another, which is seen
  only where the list is too short. -/
  unbounded_same : start.WellFormed → ((p.run v).Keeps fun c next => c.WellFormed → Onward c next) →
    ((d.run v).Keeps fun c next => c.WellFormed → Onward c next) →
    (((pair d p).run v).Keeps fun c next => c.WellFormed → c.Precedes next) → ∀ least,
      (∀ most r, start.left + 1 < most →
        (ComesTo (list ⟨least, none⟩) v start r ↔ ComesTo (list ⟨least, some most⟩) v start r)) ∧
      (least ≤ start.left + 1 → ∀ r, ComesTo (list ⟨least, none⟩) v start r →
        ComesTo (list ⟨least, some (start.left + 1)⟩) v start r)

variable {name : String} {least least' : Nat} {z : List β × Cursor α}

theorem comesTo_listOf_ok_iff :
    ComesTo (fun spare => listOf name spare ⟨least, greatest⟩ p d) v start (.ok z) ↔
      ∃ links stop, Collects p d v greatest start links stop ∧ least ≤ links.length ∧
        z = (links.map Prod.fst, endOf start links) := by
  rw [comesTo_listOf]
  refine exists_congr fun links => exists_congr fun stop => and_congr_right fun _ => ?_
  unfold verdict
  by_cases hfew : links.length < least
  · simp [hfew]
  · simp [hfew, Nat.le_of_not_lt hfew]

/-- The verdict on the first links is that on all of them, cut off. -/
theorem agree_verdict_take (hleast : least ≤ most) :
    Agree Eq (IsCut most)
      (verdict v name ⟨least, some most⟩ start (links.take most)
        (if links.length < most then stop else none))
      (verdict v name ⟨least, greatest⟩ start links stop) := by
  unfold verdict
  dsimp only
  rcases Nat.lt_or_ge links.length least with hfew | henough
  · have hall : links.length < most := Nat.lt_of_lt_of_le hfew hleast
    rw [List.take_of_length_le (Nat.le_of_lt hall), if_pos hfew, if_pos hfew, if_pos hall]
    exact Agree.error rfl
  · have henough' : ¬ (links.take most).length < least := by
      rw [List.length_take]
      omega
    rw [if_neg henough', if_neg (Nat.not_lt_of_le henough)]
    refine Agree.ok ⟨List.map_take, fun hall => ?_⟩
    rw [List.length_map] at hall
    rw [List.take_of_length_le hall]

/-- With a smaller greatest number a list comes to the verdict on the first links. -/
theorem comesTo_listOf_take (name : String) (least most : Nat)
    (h : Collects p d v greatest start links stop)
    (hroom : ∀ most', greatest = some most' → most ≤ most')
    (hstop : greatest = none → ∃ e, stop = some e) :
    ComesTo (fun spare => listOf name spare ⟨least, some most⟩ p d) v start
      (verdict v name ⟨least, some most⟩ start (links.take most)
        (if links.length < most then stop else none)) :=
  comesTo_listOf.mpr ⟨_, _, h.truncate hroom hstop, rfl⟩

theorem strides_of_pair (hp : (p.run v).Keeps fun c next => c.WellFormed → Onward c next)
    (hd : (d.run v).Keeps fun c next => c.WellFormed → Onward c next)
    (hmoves : ((pair d p).run v).Keeps fun c next => c.WellFormed → c.Precedes next) :
    Strides p d v := by
  rintro c x next hc ⟨y, mid, hy, hx⟩
  have hmid := hd c y mid hy hc
  have hnext := hp mid x next hx (hmid.wellFormed hc)
  have hboth := accepts_pair.mpr ⟨y, mid, x, hy, hx, rfl⟩
  exact ⟨isPassage_onward.trans hmid hnext, hmoves c _ next hboth hc⟩

section Unbounded

variable (hstrides : Strides p d v)
  (hfirst : (p.run v).Keeps fun c next => c.WellFormed → Onward c next) (hstart : start.WellFormed)
  {r : Except (ParseError α) (List β × Cursor α)}

include hstrides hfirst hstart

/-- With room for more elements than there is input for, lists with and without a bound collect the
same. -/
theorem comesTo_unbounded_iff (hroom : start.left + 1 < most) :
    ComesTo (fun spare => listOf name spare ⟨least, none⟩ p d) v start r ↔
      ComesTo (fun spare => listOf name spare ⟨least, some most⟩ p d) v start r := by
  constructor
  · intro h
    obtain ⟨links, stop, hcollects, rfl⟩ := comesTo_listOf.mp h
    obtain ⟨hlength, hstop⟩ := hcollects.length_le hstrides hfirst hstart
    have hall : links.length < most := Nat.lt_of_le_of_lt hlength hroom
    have htake := comesTo_listOf_take name least most hcollects (by simp) fun _ => hstop
    rw [List.take_of_length_le (Nat.le_of_lt hall), if_pos hall] at htake
    exact htake
  · intro h
    obtain ⟨links, stop, hcollects, rfl⟩ := comesTo_listOf.mp h
    exact comesTo_listOf.mpr ⟨links, stop, hcollects.unbounded hstrides hfirst hstart hroom, rfl⟩

/-- With room for just as many elements a bound may be the reason to stop, but then there are as
many as it allows. -/
theorem comesTo_full_of_unbounded (hleast : least ≤ start.left + 1)
    (h : ComesTo (fun spare => listOf name spare ⟨least, none⟩ p d) v start r) :
    ComesTo (fun spare => listOf name spare ⟨least, some (start.left + 1)⟩ p d) v start r := by
  obtain ⟨links, stop, hcollects, rfl⟩ := comesTo_listOf.mp h
  obtain ⟨hlength, hstop⟩ := hcollects.length_le hstrides hfirst hstart
  have htake := comesTo_listOf_take name least (start.left + 1) hcollects (by simp) fun _ => hstop
  rw [List.take_of_length_le hlength] at htake
  rcases Nat.lt_or_ge links.length (start.left + 1) with hall | hfull
  · rw [if_pos hall] at htake
    exact htake
  · have hok : ∀ stop, verdict v name ⟨least, none⟩ start links stop =
        .ok (links.map Prod.fst, endOf start links) :=
      fun stop => if_neg (Nat.not_lt_of_le (Nat.le_trans hleast hfull))
    exact hok stop ▸ hok _ ▸ htake

end Unbounded

/-- **Lists under two pairs of bounds.** -/
theorem boundsCompare_listOf (name : String) (p : Parser α β) (d : Parser α γ) (v : Verbosity)
    (start : Cursor α) :
    BoundsCompare (fun bounds spare => listOf name spare bounds p d) p d v start where
  least_same greatest least least' z z' h h' := by
    obtain ⟨links, stop, hcollects, -, rfl⟩ := comesTo_listOf_ok_iff.mp h
    obtain ⟨links', stop', hcollects', -, rfl⟩ := comesTo_listOf_ok_iff.mp h'
    rw [(hcollects.unique hcollects').1]
  least_lower greatest least least' z hle h := by
    obtain ⟨links, stop, hcollects, henough, rfl⟩ := comesTo_listOf_ok_iff.mp h
    exact comesTo_listOf_ok_iff.mpr ⟨links, stop, hcollects, Nat.le_trans hle henough, rfl⟩
  greatest_cut least most most' r r' hleast hle h h' := by
    obtain ⟨links, stop, hcollects, rfl⟩ := comesTo_listOf.mp h'
    have htake :=
      comesTo_listOf_take name least most hcollects (by rintro _ ⟨⟩; exact hle) (by simp)
    rw [comesTo_listOf_unique h htake]
    exact agree_verdict_take hleast
  greatest_returns least most most' r' hle h' := by
    obtain ⟨links, stop, hcollects, rfl⟩ := comesTo_listOf.mp h'
    exact ⟨_, comesTo_listOf_take name least most hcollects (by rintro _ ⟨⟩; exact hle) (by simp)⟩
  unbounded_same hstart hp hd hmoves least :=
    have hstrides := strides_of_pair hp hd hmoves
    ⟨fun _ _ hroom => comesTo_unbounded_iff hstrides hp hstart hroom,
      fun hleast _ h => comesTo_full_of_unbounded hstrides hp hstart hleast h⟩

/-- **Bounds cut off and test.**  With or without delimiters, at every start and both verbosities,
lists of the same elements under different bounds compare so.  Two least numbers make no difference
to a list that has both, and a list that has one has every smaller one.  Of two greatest numbers, no
smaller than the least, both allow for a list or neither does, with the same error; the list with
the smaller one has the first elements of the other, and ends at the same cursor if these are all.
And let elements and delimiters, from well-formed cursors, lead onward, and a delimiter and the
element behind it lead further on.  Then from a well-formed cursor an unbounded list comes to the
same result, success or failure, as a bounded one that leaves room for more elements than there is
input for, the first not counted; if it leaves room for just as many, that is so unless the least
number is greater still. -/
theorem bounds_cut_and_test (p : Parser α β) (d : Parser α γ) (v : Verbosity) (start : Cursor α) :
    BoundsCompare (fun bounds spare => repeated spare bounds p) p nothing v start ∧
      BoundsCompare (fun bounds spare => separated spare bounds p d) p d v start :=
  ⟨boundsCompare_listOf _ p nothing v start, boundsCompare_listOf _ p d v start⟩

/-- Two digits with a comma between them and a comma behind them.  A third digit is missed in vain
without a bound and with room for seven, and with room for one the second is cut off. -/
theorem digits_under_bounds :
    ((Cursor.new ['1', ',', '2', ',', ';']).WellFormed ∧
        ((digit.run .verbose).Keeps fun c next => c.WellFormed → Onward c next) ∧
        ((comma.run .verbose).Keeps fun c next => c.WellFormed → Onward c next) ∧
        ((pair comma digit).run .verbose).Keeps fun c next => c.WellFormed → c.Precedes next) ∧
      (ComesTo (fun spare => separated spare ⟨3, none⟩ digit comma) .verbose
          (Cursor.new ['1', ',', '2', ',', ';'])
          (.error (.expected "DIGIT" ⟨['1', ',', '2', ',', ';'], 4⟩)) ∧
        ComesTo (fun spare => separated spare ⟨3, some 7⟩ digit comma) .verbose
          (Cursor.new ['1', ',', '2', ',', ';'])
          (.error (.expected "DIGIT" ⟨['1', ',', '2', ',', ';'], 4⟩))) ∧
      ComesTo (fun spare => separated spare ⟨0, some 2⟩ digit comma) .verbose
        (Cursor.new ['1', ',', '2', ',', ';'])
        (.ok (['1', '2'], .valid ['1', ',', '2', ',', ';'] 3)) ∧
      ∃ r, ComesTo (fun spare => separated spare ⟨0, some 1⟩ digit comma) .verbose
          (Cursor.new ['1', ',', '2', ',', ';']) r ∧
        Agree Eq (IsCut 1) r (.ok (['1', '2'], .valid ['1', ',', '2', ',', ';'] 3)) := by
  have hstart : (Cursor.new ['1', ',', '2', ',', ';']).WellFormed := Cursor.wellFormed_place _ 0
  have hprecedes : (digit.run .verbose).Keeps Cursor.Precedes := by
    rw [digit, oneOf_eq_takeSingle]
    exact keeps_precedes_takeSingle _ _ .verbose
  have hdigit : (digit.run .verbose).Keeps Onward := by
    rw [digit, oneOf_eq_takeSingle]
    exact keeps_takeSingle isPassage_onward _ _
  have hcomma : (comma.run .verbose).Keeps Onward := keeps_tag isPassage_onward "COMMA" [',']
  have hboth : ((pair comma digit).run .verbose).Keeps Cursor.Precedes :=
    keeps_precedes_pair hcomma hprecedes
  have hunbounded : ComesTo (fun spare => separated spare ⟨3, none⟩ digit comma) .verbose
      (Cursor.new ['1', ',', '2', ',', ';'])
      (.error (.expected "DIGIT" ⟨['1', ',', '2', ',', ';'], 4⟩)) := ⟨0, rfl⟩
  have htwo : ComesTo (fun spare => separated spare ⟨0, some 2⟩ digit comma) .verbose
      (Cursor.new ['1', ',', '2', ',', ';'])
      (.ok (['1', '2'], .valid ['1', ',', '2', ',', ';'] 3)) := ⟨0, rfl⟩
  have hcompare := (bounds_cut_and_test digit comma .verbose
    (Cursor.new ['1', ',', '2', ',', ';'])).2
  have hsame := hcompare.unbounded_same hstart (fun c x next h _ => hdigit c x next h)
    (fun c x next h _ => hcomma c x next h) (fun c x next h _ => hboth c x next h) 3
  obtain ⟨r, hone⟩ := hcompare.greatest_returns 0 1 2 _ (by decide) htwo
  refine ⟨⟨hstart, fun c x next h _ => hdigit c x next h, fun c x next h _ => hcomma c x next h,
    fun c x next h _ => hboth c x next h⟩, ⟨hunbounded, ?_⟩, htwo, r, hone, ?_⟩
  · exact (hsame.1 7 _ (by decide)).mp hunbounded
  · exact hcompare.greatest_cut 0 1 2 _ _ (by decide) (by decide) hone htwo

end Descent.Repetition
