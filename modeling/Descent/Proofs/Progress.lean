import Descent.Proofs.Spans
import Descent.Proofs.Termination
import Descent.Proofs.Truncation

/-!
# Lists end

A list ends whatever its parsers are, functions included, if these return and lead neither back nor
out of the input (`Step.Lawful`).  They may read nothing, and be run behind the end of input.

The loop of a list without a greatest number has no counter.  An iteration that ends where it began
is the last, so every other one ends further on (`Rest.ascends`), and before the end of input there
is room for only so many (`Cursor.length_le_left_of_isChain`).  What counts are positions, and
behind the end of input these are all the same: a cursor there has no room in front of it, and
however an iteration changes it, that iteration is the last.  The first element is read before the
loop and may be empty, which makes one element more than there is room for.

* `Parser.lawful_listOf`: lists of such parsers are such parsers, so lists can be nested.
* `lists_end`: how a list ends, and how much it has collected then.
-/

namespace Descent

variable {α β γ : Type}

/-! ## Room in front of a cursor -/

namespace Cursor

/-- The second cursor is in the same input as the first, at a position beyond it. -/
structure Ascends (c next : Cursor α) : Prop where
  source_eq : next.source = c.source
  position_lt : c.position < next.position

variable {c next : Cursor α}

theorem Spans.ascends (h : c.Spans next) (hne : next.position ≠ c.position) : c.Ascends next :=
  ⟨h.source_eq, Nat.lt_of_le_of_ne h.position_le hne.symm⟩

theorem Ascends.left_lt (h : c.Ascends next) : next.left < c.left :=
  left_lt_left h.source_eq h.position_lt

/-- There is no more room to ascend than there is input left. -/
theorem length_le_left_of_isChain {cs : List (Cursor α)} (h : (c :: cs).IsChain Ascends) :
    cs.length ≤ c.left := by
  induction cs generalizing c with
  | nil => exact Nat.zero_le _
  | cons next cs ih =>
    obtain ⟨hascends, hchain⟩ := List.isChain_cons_cons.mp h
    have hlength := ih hchain
    have hleft := hascends.left_lt
    rw [List.length_cons]
    omega

end Cursor

/-! ## Lawful steps -/

/-- The step returns at every cursor, and its successes end in the same input at a position not
before their start. -/
structure Step.Lawful (s : Step α β) : Prop where
  returns : ∀ c, s.Returns c
  spans : s.Keeps Cursor.Spans

namespace Parser

variable {p : Parser α β} {d : Parser α γ} {v : Verbosity}

theorem lawful_nothing : ((nothing : Parser α Unit).run v).Lawful :=
  ⟨fun _ => returns_nothing, keeps_nothing isPassage_spans⟩

/-- Lists of lawful parsers are lawful parsers. -/
theorem lawful_listOf (hp : (p.run v).Lawful) (hd : (d.run v).Lawful) (name : String) (spare : Nat)
    (bounds : Bounds) : ((listOf name spare bounds p d).run v).Lawful := by
  refine ⟨fun start => ?_, keeps_listOf isPassage_spans hp.spans hd.spans⟩
  exact returns_listOf isPassage_spans (fun h hne => (h.ascends hne).left_lt) hp.spans hd.spans
    (fun _ c _ => hp.returns c) (fun _ _ _ _ c _ _ => hd.returns c)

end Parser

/-! ## How much is collected -/

namespace Repetition

open Descent.Parser

variable {p : Parser α β} {d : Parser α γ} {v : Verbosity} {c start : Cursor α}
  {links : List (β × Cursor α)} {stop : Option (ParseError α)}

/-- Without a bound every link ends beyond the one before it, and the first beyond the cursor that
the loop started from. -/
theorem Rest.ascends (hp : (p.run v).Keeps Cursor.Spans) (hd : (d.run v).Keeps Cursor.Spans)
    (h : Rest p d v none c links stop) : (c :: links.map Prod.snd).IsChain Cursor.Ascends := by
  induction links generalizing c with
  | nil => exact List.isChain_singleton c
  | cons link links ih =>
    cases h with
    | moved hiter hposition hrest =>
      have hspans := hiter.passage isPassage_spans hp hd
      exact List.isChain_cons_cons.mpr ⟨hspans.ascends hposition, ih hrest⟩

/-- Without a bound the links ascend from the first on, which may end where the list starts. -/
theorem Collects.ascends (hp : (p.run v).Keeps Cursor.Spans) (hd : (d.run v).Keeps Cursor.Spans)
    (h : Collects p d v Option.none start links stop) :
    (links.map Prod.snd).IsChain Cursor.Ascends ∧ links.length ≤ start.left + 1 := by
  cases h with
  | none hnone => exact absurd hnone (by simp)
  | broken => exact ⟨List.IsChain.nil, Nat.zero_le _⟩
  | @more next x links stop _ hx hrest =>
    have hchain := hrest.ascends hp hd
    have hlength := Cursor.length_le_left_of_isChain hchain
    have hspans := hp start x next hx
    have hleft := Cursor.left_le_left hspans.source_eq hspans.position_le
    rw [List.length_map] at hlength
    refine ⟨hchain, ?_⟩
    rw [List.length_cons]
    omega

/-- How a list under a name ends at a cursor: with these links, and with an error if an attempt to
prolong them failed. -/
structure Ends (name : String) (bounds : Bounds) (p : Parser α β) (d : Parser α γ) (v : Verbosity)
    (start : Cursor α) (links : List (β × Cursor α)) (stop : Option (ParseError α)) : Prop where
  /-- The links are what the list collects. -/
  collects : Collects p d v bounds.greatest start links stop
  /-- The list comes to the verdict on them, whatever number of rounds its loop is given. -/
  result : ∀ spare, ((listOf name spare bounds p d).run v start).result? =
    some (verdict v name bounds start links stop)
  /-- There are no more of them than a greatest number allows. -/
  length_le : ∀ most, bounds.greatest = some most → links.length ≤ most
  /-- Without one there are no more than elements up to the end of input, the first not counted. -/
  length_le_left : bounds.greatest = none →
    links.length ≤ start.source.length - start.position + 1
  /-- Without one every link after the first ends beyond the one before it. -/
  ascends : bounds.greatest = none → (links.map Prod.snd).IsChain Cursor.Ascends

/-- **Lists end.**  Let elements and delimiters be any parsers that return at every cursor and whose
successes end in the same input at a position not before their start.  Then at every cursor, those
behind the end of input included, a list of them ends under any bounds: it collects one thing, and
comes to the verdict on it whatever number of rounds its loop is given.  With a greatest number it
collects no more elements than that.  Without one it collects at most one more than there are
elements from the start to the end of input, and each after the first ends strictly beyond the one
before it. -/
theorem lists_end (name : String) (bounds : Bounds) (p : Parser α β) (d : Parser α γ)
    (v : Verbosity) (hp : (p.run v).Lawful) (hd : (d.run v).Lawful) (start : Cursor α) :
    ∃ links stop, Ends name bounds p d v start links stop := by
  have hreturns := fun spare => (lawful_listOf hp hd name spare bounds).returns start
  obtain ⟨r, hr⟩ := hreturns 0
  obtain ⟨links, stop, hcollects, -⟩ := collects_of_listOf p d v hr
  have hpermitted := (collects_iff.mp hcollects).2.1
  refine ⟨links, stop, hcollects, fun spare => ?_, hpermitted.1, fun hnone => ?_, fun hnone => ?_⟩
  · -- with any other rounds it collects the same, for there is only one thing to collect
    obtain ⟨r', hr'⟩ := hreturns spare
    obtain ⟨links', stop', hcollects', rfl⟩ := collects_of_listOf p d v hr'
    obtain ⟨rfl, rfl⟩ := hcollects.unique hcollects'
    exact hr'
  · rw [hnone] at hcollects
    rw [← Cursor.left_eq]
    exact (hcollects.ascends hp.spans hd.spans).2
  · rw [hnone] at hcollects
    exact (hcollects.ascends hp.spans hd.spans).1

/-- Reads nothing and moves on by one, behind the end of input too. -/
def drift : Parser Char Unit :=
  ofFunction fun _ c => pure ((), .valid c.source (c.position + 1))

theorem lawful_drift : (drift.run v).Lawful where
  returns _ := ⟨_, rfl⟩
  spans := by
    intro c x next hx
    obtain ⟨-, rfl⟩ := Prod.mk.inj (Run.result?_pure_eq_ok.mp hx)
    have hend := c.position_le
    refine ⟨rfl, ?_⟩
    rw [Cursor.position_valid]
    omega

/-- In an input of two elements, moving on from the fourth position on is no progress: a list keeps
the first element only.  With a greatest number it keeps so many, all with the same position. -/
theorem drifting_list_ends :
    ((drift.run .terse).Lawful ∧ ((nothing : Parser Char Unit).run .terse).Lawful) ∧
      (∃ links stop, Ends "DRIFT" .any drift nothing .terse (.valid ['a', 'b'] 4) links stop ∧
        links.length ≤ 1) ∧
      (∃ links stop,
        Ends "DRIFT" (.exactly 3) drift nothing .terse (.valid ['a', 'b'] 4) links stop) ∧
      ((listOf "DRIFT" 0 .any drift nothing).run .terse (.valid ['a', 'b'] 4)).result? =
        some (.ok ([()], .valid ['a', 'b'] 3)) ∧
      ((listOf "DRIFT" 0 (.exactly 3) drift nothing).run .terse (.valid ['a', 'b'] 4)).result? =
        some (.ok ([(), (), ()], .valid ['a', 'b'] 3)) := by
  obtain ⟨links, stop, hends⟩ := lists_end "DRIFT" .any drift nothing .terse lawful_drift
    lawful_nothing (.valid ['a', 'b'] 4)
  exact ⟨⟨lawful_drift, lawful_nothing⟩, ⟨links, stop, hends, hends.length_le_left rfl⟩,
    lists_end "DRIFT" (.exactly 3) drift nothing .terse lawful_drift lawful_nothing _, rfl, rfl⟩

end Repetition

end Descent
