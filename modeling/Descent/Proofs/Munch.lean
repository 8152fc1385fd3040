import Descent.Proofs.Consumption
import Descent.Proofs.Termination
import Descent.Proofs.Unfolding
import Mathlib.Data.List.TakeWhile

/-!
# Runs read at once

A run of elements that pass a test is read at once, by counting.  It could as well be read element
by element, by the repetition of a parser of one element, and then cut from the input: that is the
same, success or failure, down to the last cursor and the error (`munches_of_test`).  Reading
element by element is the list that unfolds into its first element and the list of the others
(`comesTo_repeated_iff`), and so is the longest run: an element, if it passes the test, and the
longest run behind it (`comesTo_singles`).

Parsers of sets read by themselves, but they read what the parsers of their tests do, so that
nothing has to be proved of them again.

* `runs_munch`: this holds of tests, of sets, and of sets by exclusion, and in each case the run is
  the longest part that the rest of the input begins with and all elements of which qualify.
-/

namespace Descent

variable {α : Type}

/-! ## The longest run -/

/-- The longest list that another begins with and all elements of which have a property. -/
structure IsLongestRun (P : α → Prop) (es xs : List α) : Prop where
  isPrefix : xs <+: es
  qualifies : ∀ e ∈ xs, P e
  longest : ∀ ys, ys <+: es → (∀ e ∈ ys, P e) → ys <+: xs

theorem isLongestRun_takeWhile_iff {P : α → Prop} {test : α → Bool}
    (htest : ∀ e, test e = true ↔ P e) {es xs : List α} :
    IsLongestRun P es xs ↔ xs = es.takeWhile test := by
  have hqualifies : ∀ e ∈ es.takeWhile test, P e :=
    fun e he => (htest e).mp (List.mem_takeWhile_imp he)
  have hlongest : ∀ ys, ys <+: es → (∀ e ∈ ys, P e) → ys <+: es.takeWhile test := by
    rintro ys ⟨rest, rfl⟩ hys
    rw [List.takeWhile_append_of_pos fun e he => (htest e).mpr (hys e he)]
    exact List.prefix_append ys _
  constructor
  · intro h
    have hle := h.longest _ (List.takeWhile_prefix test) hqualifies
    exact (hlongest xs h.isPrefix h.qualifies).eq_of_length_le hle.length_le
  · rintro rfl
    exact ⟨List.takeWhile_prefix test, hqualifies, hlongest⟩

/-! ## Element by element -/

namespace Parser

open Repetition

variable {name : String} {test : α → Bool} {v : Verbosity} {c : Cursor α}

/-- **Any number of single elements that pass a test are the longest run of such elements.** -/
theorem comesTo_singles (hc : c.WellFormed) {r : Except (ParseError α) (List α × Cursor α)}
    (h : ComesTo (fun spare => repeated spare ⟨0, none⟩ (takeSingle name test)) v c r) :
    r = .ok (c.remaining.takeWhile test, c.advance (c.remaining.takeWhile test).length) := by
  -- the list unfolds along the remaining input: its first element, then the list from there on
  generalize hes : c.remaining = es
  rw [comesTo_repeated_iff (keeps_precedes_takeSingle name test v)] at h
  induction es generalizing c r with
  | nil =>
    have hvalue : c.value = none := Cursor.value_eq_none_iff.mpr hes
    rcases h with ⟨e, -, rfl⟩ | ⟨x, mid, r', hx, -, -⟩
    · rw [List.takeWhile_nil, List.length_nil, hc.advance_zero]
      rfl
    · rw [(accepts_takeSingle.mp hx).1] at hvalue
      exact absurd hvalue (by simp)
  | cons e es ih =>
    have hvalue := Cursor.value_of_remaining hes
    rcases h with ⟨_, hreject, rfl⟩ | ⟨x, mid, r', hx, hothers, rfl⟩
    · have hfails : test e = false := (rejects_takeSingle.mp hreject).1 e hvalue
      rw [List.takeWhile_cons_of_neg (by simp [hfails]), List.length_nil, hc.advance_zero]
      rfl
    · obtain ⟨hvalue', hpasses, rfl⟩ := accepts_takeSingle.mp hx
      obtain rfl : e = x := Option.some.inj (hvalue.symm.trans hvalue')
      rw [comesTo_repeated_iff (keeps_precedes_takeSingle name test v)] at hothers
      rw [ih (c.wellFormed_next) hothers (Cursor.remaining_next hes),
        List.takeWhile_cons_of_pos hpasses, List.length_cons, Cursor.advance_next]
      rfl

/-- Such a list comes to an end however few rounds it is given, because elements use up input. -/
theorem returns_singles {spare : Nat} {bounds : Bounds} :
    ((repeated spare bounds (takeSingle name test)).run v).Returns c :=
  returns_listOf isPassage_onward Onward.left_lt (keeps_takeSingle isPassage_onward name test)
    (keeps_nothing isPassage_onward) (fun _ _ _ => returns_takeSingle test)
    (fun _ _ _ _ _ _ _ => returns_nothing)

/-- At the cursor the parser of runs does what repeating the parser of single elements does, cut
from the input, and it succeeds with the longest run of elements that qualify, if that is not
empty, at the cursor behind it. -/
structure Munches (P : α → Prop) (run : Parser α (List α)) (single : Parser α α) (v : Verbosity)
    (c : Cursor α) : Prop where
  repeats : ∀ spare, (run.run v c).result? =
    ((repeated spare (.limited 1 0) single).matchOnly.run v c).result?
  longest : ∀ xs next, (run.run v).Accepts c xs next ↔
    IsLongestRun P c.remaining xs ∧ xs ≠ [] ∧ next = c.advance xs.length

/-- One element or more, cut from the input, are a run read at once. -/
theorem accepts_takeWhile_of_singles {spare : Nat} {xs : List α} {next : Cursor α}
    (h : ((repeated spare (.limited 1 0) (takeSingle name test)).matchOnly.run v).Accepts c xs
      next) : ((takeWhile name test).run v).Accepts c xs next := by
  obtain ⟨ys, hys, rfl⟩ := accepts_matchOnly.mp h
  have hlist : ComesTo (fun spare => repeated spare ⟨1, none⟩ (takeSingle name test)) v c
      (.ok (ys, next)) := ⟨spare, hys⟩
  rw [comesTo_repeated_iff (keeps_precedes_takeSingle name test v)] at hlist
  rcases hlist with ⟨e, -, he⟩ | ⟨x, mid, r, hx, hothers, hr⟩
  · exact absurd he (by simp)
  · obtain ⟨hvalue, hpasses, rfl⟩ := accepts_takeSingle.mp hx
    obtain ⟨es, hes⟩ := List.head?_eq_some_iff.mp hvalue
    have hrun : c.remaining.takeWhile test = x :: c.next.remaining.takeWhile test := by
      rw [hes, List.takeWhile_cons_of_pos hpasses, Cursor.remaining_next hes]
    rw [comesTo_singles (c.wellFormed_next) hothers] at hr
    obtain ⟨-, rfl⟩ := Prod.mk.inj (Except.ok.inj hr)
    dsimp only
    have hlength : (c.next.remaining.takeWhile test).length + 1 =
        (c.remaining.takeWhile test).length := by rw [hrun, List.length_cons]
    rw [Cursor.advance_next, hlength, Cursor.consumedSince_advance,
      ← List.prefix_iff_eq_take.mp (List.takeWhile_prefix test)]
    have hne : c.remaining.takeWhile test ≠ [] := by
      rw [hrun]
      exact List.cons_ne_nil _ _
    exact accepts_takeWhile.mpr ⟨rfl, hne, rfl⟩

/-- Not even one element is no run. -/
theorem rejects_takeWhile_of_singles {spare : Nat} {e : ParseError α}
    (h : ((repeated spare (.limited 1 0) (takeSingle name test)).matchOnly.run v).Rejects c e) :
    ((takeWhile name test).run v).Rejects c e := by
  have hlist : ComesTo (fun spare => repeated spare ⟨1, none⟩ (takeSingle name test)) v c
      (.error e) := ⟨spare, rejects_matchOnly.mp h⟩
  rw [comesTo_repeated_iff (keeps_precedes_takeSingle name test v)] at hlist
  rcases hlist with ⟨e', hreject, he⟩ | ⟨x, mid, r, hx, hothers, hr⟩
  · obtain rfl := Except.error.inj he
    obtain ⟨hfails, rfl⟩ := rejects_takeSingle.mp hreject
    refine rejects_takeWhile.mpr ⟨?_, rfl⟩
    rcases hes : c.remaining with _ | ⟨a, es⟩
    · rfl
    · rw [List.takeWhile_cons_of_neg (by simp [hfails a (Cursor.value_of_remaining hes)])]
  · obtain ⟨xs, next, rfl⟩ := eq_ok_of_comesTo_listOf hothers
    exact absurd hr (by simp [Except.map])

/-- **Reading a run at once is reading it element by element.** -/
theorem munches_of_test {P : α → Prop} (htest : ∀ e, test e = true ↔ P e) :
    Munches P (takeWhile name test) (takeSingle name test) v c where
  repeats spare := by
    have hreturns : ((repeated spare (.limited 1 0) (takeSingle name test)).matchOnly.run v).Returns
        c := returns_matchOnly returns_singles
    exact (hreturns.result?_eq (fun xs next => accepts_takeWhile_of_singles)
      fun e => rejects_takeWhile_of_singles).symm
  longest xs next := by
    rw [accepts_takeWhile, isLongestRun_takeWhile_iff htest]

/-- **Maximal munch.**  For every test and every set, a parser of runs comes to the same result as
the parser of single elements repeated at least once and cut from the input, at every cursor and
both verbosities and however few rounds the loop is given; and it succeeds exactly with the longest
run of elements that qualify, which is never empty.  The runs of a set are those of the test of
being in the set, or of not being in it. -/
theorem runs_munch [DecidableEq α] (name : String) (test : α → Bool) (set : List α)
    (v : Verbosity) (c : Cursor α) :
    Munches (fun e => test e = true) (takeWhile name test) (takeSingle name test) v c ∧
      Munches (fun e => e ∈ set) (oneOfRun name set) (oneOf name set) v c ∧
      Munches (fun e => e ∉ set) (noneOfRun name set) (noneOf name set) v c ∧
      oneOfRun name set = takeWhile name (inSet set) ∧
      noneOfRun name set = takeWhile name (notInSet set) := by
  have hin : ∀ e, inSet set e = true ↔ e ∈ set := fun e => List.contains_iff_mem
  have hnotIn : ∀ e, notInSet set e = true ↔ e ∉ set := by
    intro e
    rw [← hin, notInSet, inSet, Bool.not_eq_true', Bool.not_eq_true]
  have hone := oneOfRun_eq_takeWhile name set
  have hnone := noneOfRun_eq_takeWhile name set
  refine ⟨munches_of_test fun e => Iff.rfl, ?_, ?_, hone, hnone⟩
  · rw [hone, oneOf_eq_takeSingle]
    exact munches_of_test hin
  · rw [hnone, noneOf_eq_takeSingle]
    exact munches_of_test hnotIn

end Parser

end Descent
