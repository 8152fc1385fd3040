import Descent.Proofs.Termination
import Descent.Proofs.Truncation
import Descent.Proofs.WholeInput
import Mathlib.Data.List.TakeWhile

/-!
# Runs with a delimiter between them

Runs of elements of a class can be joined, with a delimiter between any two, and a list of runs with
that delimiter can be read.  The one undoes the other.  Reading may end for three reasons: the input
goes on with neither a delimiter nor a run, with a delimiter that is not complete, or with a
delimiter and no run behind it.  In each case the rest is what stands behind the last run, so that a
delimiter which was read in vain is given back.

What is proved along the loops is the one direction.  Whatever is read are runs, joining them and
the rest is the input (`Chain.joined`), and with no greatest number the rest does not go on with
another run (`Collects.parted`).  For the other direction nothing has to be read again.  If the
delimiter does not begin with an element of the class, then a text is joined from runs in at most
one way (`Parted.unique`), so what was joined is what is read.

* `Collects.eq_take`: up to a greatest number a list collects the first links of the unbounded one.
* `joined_runs_decode`: lists of runs decode what joining encodes.
-/

namespace Descent

variable {α : Type}

/-! ## Joined runs -/

/-- The list begins with a part and goes on behind it with an element of the class. -/
def GoesOn (cls : α → Bool) (part es : List α) : Prop :=
  ∃ e, cls e = true ∧ part ++ [e] <+: es

/-- Some elements, all of the class. -/
structure IsRun (cls : α → Bool) (x : List α) : Prop where
  nonempty : x ≠ []
  qualifies : ∀ e ∈ x, cls e = true

/-- Runs, and a rest that goes on with no further run: with none at all, and, if there is a run
before it, with none behind a delimiter. -/
structure Parted (cls : α → Bool) (d : List α) (xs : List (List α)) (rest : List α) : Prop where
  runs : ∀ x ∈ xs, IsRun cls x
  noRun : ¬ GoesOn cls [] rest
  noMore : xs ≠ [] → ¬ GoesOn cls d rest

variable {cls : α → Bool} {d es es' rest rest' x x' : List α} {xs xs' : List (List α)}

theorem takeWhile_eq_nil_iff_not_goesOn : es.takeWhile cls = [] ↔ ¬ GoesOn cls [] es := by
  unfold GoesOn
  rcases es with _ | ⟨e, es⟩
  · simp
  · simp [List.takeWhile_cons]

theorem goesOn_append_iff : GoesOn cls d (d ++ es) ↔ GoesOn cls [] es :=
  exists_congr fun _ => and_congr_right fun _ => List.prefix_append_right_inj d

theorem GoesOn.exists_append (h : GoesOn cls d es) : ∃ es', es = d ++ es' ∧ GoesOn cls [] es' := by
  obtain ⟨e, he, more, rfl⟩ := h
  exact ⟨[e] ++ more, List.append_assoc d [e] more, e, he, List.prefix_append [e] more⟩

theorem IsRun.goesOn (h : IsRun cls x) (es : List α) : GoesOn cls [] (x ++ es) := by
  rcases x with _ | ⟨e, x⟩
  · exact absurd rfl h.nonempty
  · exact ⟨e, h.qualifies e List.mem_cons_self, x ++ es, rfl⟩

/-- A run ends where no element of the class follows. -/
theorem IsRun.takeWhile_append (h : IsRun cls x) (hes : ¬ GoesOn cls [] es) :
    (x ++ es).takeWhile cls = x := by
  rw [List.takeWhile_append_of_pos h.qualifies, takeWhile_eq_nil_iff_not_goesOn.mpr hes,
    List.append_nil]

theorem IsRun.unique (h : IsRun cls x) (h' : IsRun cls x') (hes : ¬ GoesOn cls [] es)
    (hes' : ¬ GoesOn cls [] es') (htext : x ++ es = x' ++ es') : x = x' ∧ es = es' := by
  have hx : x = x' := by rw [← h.takeWhile_append hes, htext, h'.takeWhile_append hes']
  subst hx
  exact ⟨rfl, List.append_cancel_left htext⟩

theorem intercalate_cons (d x : List α) (xs : List (List α)) :
    d.intercalate (x :: xs) = x ++ xs.flatMap (d ++ ·) := by
  induction xs generalizing x with
  | nil => rw [List.intercalate_singleton, List.flatMap_nil, List.append_nil]
  | cons y ys ih =>
    rw [List.intercalate_cons_cons, ih, List.flatMap_cons, List.append_assoc, List.append_assoc]

/-- What joins some runs begins with a run. -/
theorem goesOn_intercalate (hx : IsRun cls x) :
    GoesOn cls [] (d.intercalate (x :: xs) ++ rest) := by
  rw [intercalate_cons, List.append_assoc]
  exact hx.goesOn _

/-- What joins some runs to one before them begins with a delimiter and a run. -/
theorem goesOn_flatMap (hx : IsRun cls x) :
    GoesOn cls d ((x :: xs).flatMap (d ++ ·) ++ rest) := by
  rw [List.flatMap_cons, List.append_assoc, List.append_assoc, goesOn_append_iff]
  exact hx.goesOn _

/-! ## One way to part a text -/

section Unique

variable (hd : ∃ e, d.head? = some e ∧ cls e = false)

include hd

/-- Behind a run no element of the class follows, be it a delimiter or the rest that does. -/
theorem not_goesOn_flatMap (hrest : ¬ GoesOn cls [] rest) :
    ¬ GoesOn cls [] (xs.flatMap (d ++ ·) ++ rest) := by
  rcases xs with _ | ⟨x, xs⟩
  · exact hrest
  · obtain ⟨a, ha, hcls⟩ := hd
    obtain ⟨as, rfl⟩ := List.head?_eq_some_iff.mp ha
    rintro ⟨e, he, more, hmore⟩
    obtain rfl : e = a := (List.cons.inj hmore).1
    rw [hcls] at he
    exact absurd he (by simp)

/-- What is joined to a run before it is joined in one way. -/
theorem flatMap_unique (hxs : ∀ x ∈ xs, IsRun cls x) (hxs' : ∀ x ∈ xs', IsRun cls x)
    (hrest : ¬ GoesOn cls [] rest ∧ ¬ GoesOn cls d rest)
    (hrest' : ¬ GoesOn cls [] rest' ∧ ¬ GoesOn cls d rest')
    (htext : xs.flatMap (d ++ ·) ++ rest = xs'.flatMap (d ++ ·) ++ rest') :
    xs = xs' ∧ rest = rest' := by
  induction xs generalizing xs' with
  | nil =>
    rw [List.flatMap_nil, List.nil_append] at htext
    rcases xs' with _ | ⟨x', xs'⟩
    · exact ⟨rfl, htext⟩
    · rw [htext] at hrest
      exact absurd (goesOn_flatMap (hxs' x' List.mem_cons_self)) hrest.2
  | cons x xs ih =>
    rcases xs' with _ | ⟨x', xs'⟩
    · rw [List.flatMap_nil, List.nil_append] at htext
      rw [← htext] at hrest'
      exact absurd (goesOn_flatMap (hxs x List.mem_cons_self)) hrest'.2
    · simp only [List.flatMap_cons, List.append_assoc, List.append_cancel_left_eq] at htext
      have hx := hxs x List.mem_cons_self
      have hx' := hxs' x' List.mem_cons_self
      obtain ⟨rfl, hothers⟩ := hx.unique hx' (not_goesOn_flatMap hd hrest.1)
        (not_goesOn_flatMap hd hrest'.1) htext
      obtain ⟨rfl, rfl⟩ := ih (fun y hy => hxs y (List.mem_cons_of_mem x hy))
        (fun y hy => hxs' y (List.mem_cons_of_mem x hy)) hothers
      exact ⟨rfl, rfl⟩

/-- **A text parts into runs and a rest in at most one way.** -/
theorem Parted.unique (h : Parted cls d xs rest) (h' : Parted cls d xs' rest')
    (htext : d.intercalate xs ++ rest = d.intercalate xs' ++ rest') : xs = xs' ∧ rest = rest' := by
  rcases xs with _ | ⟨x, xs⟩
  · rw [List.intercalate_nil, List.nil_append] at htext
    rcases xs' with _ | ⟨x', xs'⟩
    · exact ⟨rfl, htext⟩
    · have hrest := h.noRun
      rw [htext] at hrest
      exact absurd (goesOn_intercalate (h'.runs x' List.mem_cons_self)) hrest
  · rcases xs' with _ | ⟨x', xs'⟩
    · rw [List.intercalate_nil, List.nil_append] at htext
      have hrest' := h'.noRun
      rw [← htext] at hrest'
      exact absurd (goesOn_intercalate (h.runs x List.mem_cons_self)) hrest'
    · -- with a delimiter in front the first run is joined like the others
      refine flatMap_unique hd h.runs h'.runs ⟨h.noRun, h.noMore (List.cons_ne_nil x xs)⟩
        ⟨h'.noRun, h'.noMore (List.cons_ne_nil x' xs')⟩ ?_
      rw [intercalate_cons, intercalate_cons] at htext
      simp only [List.flatMap_cons, List.append_assoc] at htext ⊢
      rw [htext]

end Unique

/-! ## Links that are runs -/

namespace Repetition

open Descent.Parser

section Bounded

variable {β γ : Type} {p : Parser α β} {d : Parser α γ} {v : Verbosity} {c start : Cursor α}
  {links links' : List (β × Cursor α)} {stop stop' : Option (ParseError α)} {most : Nat}

/-- **Up to a greatest number a list collects the first links of the unbounded one.** -/
theorem Collects.eq_take
    (hmoves : ∀ c x next, Iterates p d v c x next → c.Precedes next)
    (h : Collects p d v Option.none start links stop)
    (h' : Collects p d v (some most) start links' stop') : links' = links.take most :=
  (h'.unique (h.truncate (by simp) fun _ => h.stopped hmoves)).1

end Bounded

section Runs

variable {n m : String} {v : Verbosity} {c mid next start : Cursor α} {y : List α}
  {links : List (List α × Cursor α)} {stop : Option (ParseError α)} {e : ParseError α}

/-- A run is read up to where no element of the class follows. -/
theorem accepts_run (h : ((takeWhile n cls).run v).Accepts c x next) :
    IsRun cls x ∧ c.remaining = x ++ next.remaining ∧ ¬ GoesOn cls [] next.remaining := by
  obtain ⟨hx, hne, rfl⟩ := accepts_takeWhile.mp h
  have htext : x ++ c.remaining.dropWhile cls = c.remaining := by
    rw [hx, List.takeWhile_append_dropWhile]
  have hbehind : (c.advance x.length).remaining = c.remaining.dropWhile cls := by
    rw [Cursor.remaining_advance, ← htext, List.drop_left, htext]
  have hstops : (c.remaining.dropWhile cls).takeWhile cls = [] :=
    List.takeWhile_eq_nil_iff.mpr fun hlength => List.dropWhile_get_zero_not cls _ hlength
  have hqualifies : ∀ e ∈ x, cls e = true := by
    rw [hx]
    exact fun e he => List.mem_takeWhile_imp he
  rw [hbehind]
  exact ⟨⟨hne, hqualifies⟩, htext.symm, takeWhile_eq_nil_iff_not_goesOn.mp hstops⟩

variable [DecidableEq α]

theorem accepts_delimiter (h : ((tag m d).run v).Accepts c y mid) :
    c.remaining = d ++ mid.remaining := by
  obtain ⟨⟨rest, hrest⟩, -, rfl⟩ := accepts_tag.mp h
  rw [Cursor.remaining_advance, ← hrest, List.drop_left]

theorem iterates_run (h : Iterates (takeWhile n cls) (tag m d) v c x next) :
    IsRun cls x ∧ c.remaining = d ++ x ++ next.remaining ∧ ¬ GoesOn cls [] next.remaining := by
  obtain ⟨y, mid, hy, hx⟩ := h
  obtain ⟨hrun, htext, hstops⟩ := accepts_run hx
  refine ⟨hrun, ?_, hstops⟩
  rw [accepts_delimiter hy, htext, List.append_assoc]

/-- An iteration breaks where a delimiter is missing, or a run behind it. -/
theorem breaks_run (h : Breaks (takeWhile n cls) (tag m d) v c e) :
    ¬ GoesOn cls d c.remaining := by
  intro hgoes
  obtain ⟨es, htext, hes⟩ := hgoes.exists_append
  rcases h with hreject | ⟨y, mid, hy, hreject⟩
  · exact (rejects_tag.mp hreject).1 (htext ▸ List.prefix_append d es)
  · rw [accepts_delimiter hy] at htext
    rw [← List.append_cancel_left htext] at hes
    exact takeWhile_eq_nil_iff_not_goesOn.mp (rejects_takeWhile.mp hreject).1 hes

theorem Follows.runs (h : Follows (takeWhile n cls) (tag m d) v c links) :
    ∀ x ∈ links.map Prod.fst, IsRun cls x := by
  induction h with
  | nil c => exact fun x hx => absurd hx List.not_mem_nil
  | cons hiter _ ih => exact List.forall_mem_cons.mpr ⟨(iterates_run hiter).1, ih⟩

/-- Links that follow a cursor are joined in what remains there. -/
theorem Follows.joined (h : Follows (takeWhile n cls) (tag m d) v c links) :
    (links.map Prod.fst).flatMap (d ++ ·) ++ (endOf c links).remaining = c.remaining := by
  induction h with
  | nil c => rfl
  | cons hiter _ ih =>
    rw [(iterates_run hiter).2.1, ← ih, List.map_cons, List.flatMap_cons, endOf_cons,
      List.append_assoc]

theorem Follows.not_goesOn (h : Follows (takeWhile n cls) (tag m d) v c links)
    (hc : ¬ GoesOn cls [] c.remaining) : ¬ GoesOn cls [] (endOf c links).remaining := by
  induction h with
  | nil c => exact hc
  | cons hiter _ ih => exact ih (iterates_run hiter).2.2

/-- **Joining what is read, and the rest, is the input.** -/
theorem Chain.joined (h : Chain (takeWhile n cls) (tag m d) v start links) :
    d.intercalate (links.map Prod.fst) ++ (endOf start links).remaining = start.remaining := by
  cases h with
  | nil => rfl
  | cons hx hfollows =>
    rw [(accepts_run hx).2.1, ← hfollows.joined, List.map_cons, intercalate_cons, endOf_cons,
      List.append_assoc]

/-- **With no greatest number what is read are all runs that there are.** -/
theorem Collects.parted
    (h : Collects (takeWhile n cls) (tag m d) v Option.none start links stop) :
    Parted cls d (links.map Prod.fst) (endOf start links).remaining := by
  cases h with
  | none hnone => exact absurd hnone (by simp)
  | broken _ hreject =>
    refine ⟨fun x hx => absurd hx List.not_mem_nil, ?_, fun hne => absurd rfl hne⟩
    exact takeWhile_eq_nil_iff_not_goesOn.mp (rejects_takeWhile.mp hreject).1
  | @more next x links stop _ hx hrest =>
    obtain ⟨hrun, -, hstops⟩ := accepts_run hx
    refine ⟨List.forall_mem_cons.mpr ⟨hrun, hrest.follows.runs⟩, hrest.follows.not_goesOn hstops,
      fun _ => ?_⟩
    obtain ⟨e, rfl⟩ := hrest.stopped (fun _ _ _ _ => Iterates.precedes
      (keeps_tag isPassage_onward m d) (keeps_precedes_takeWhile n cls v))
      fun most hmost => absurd hmost (by simp)
    exact breaks_run hrest.halts.2

/-- Reading a list of runs succeeds on every input, however few rounds it is given, and what is
joined from the runs and the rest is the input. -/
theorem parseSlice_runs (n m : String) (cls : α → Bool) (d : List α) (spare : Nat)
    (greatest : Option Nat) (v : Verbosity) (input : List α) :
    ∃ links stop rest,
      Collects (takeWhile n cls) (tag m d) v greatest (Cursor.new input) links stop ∧
        (endOf (Cursor.new input) links).remaining = rest ∧
        d.intercalate (links.map Prod.fst) ++ rest = input ∧
        ((separated spare ⟨0, greatest⟩ (takeWhile n cls) (tag m d)).parseSlice v input).result? =
          some (.ok (links.map Prod.fst, rest)) := by
  have hreturns : ((separated spare ⟨0, greatest⟩ (takeWhile n cls) (tag m d)).run v).Returns
      (Cursor.new input) :=
    returns_listOf isPassage_onward Onward.left_lt (keeps_takeWhile isPassage_onward n cls)
      (keeps_tag isPassage_onward m d) (fun _ _ _ => returns_takeWhile cls)
      (fun _ _ _ _ _ _ _ => returns_tag d)
  obtain ⟨r, hr⟩ := hreturns
  obtain ⟨links, stop, hcollects, rfl⟩ := collects_of_listOf _ _ v hr
  have hok : verdict v (separated spare ⟨0, greatest⟩ (takeWhile n cls) (tag m d)).name
      ⟨0, greatest⟩ (Cursor.new input) links stop =
      .ok (links.map Prod.fst, endOf (Cursor.new input) links) := if_neg (Nat.not_lt_zero _)
  have htext := (collects_iff.mp hcollects).1.joined
  rw [Cursor.remaining_new] at htext
  exact ⟨links, stop, _, hcollects, rfl, htext,
    parseSlice_eq_ok.mpr ⟨_, hr.trans (congrArg some hok), rfl⟩⟩

/-- **Lists of runs decode what joining encodes.**  Let a delimiter not be empty and not begin with
an element of the class.  If some runs and a rest are such that the rest begins with no further run,
and, unless there are no runs, with no delimiter and a further run behind it, then reading a list
from the runs, joined with the delimiter, and the rest behind them, yields these runs and leaves
this rest.  Reading any input yields such runs and such a rest, and joined again they are the input.
Up to a greatest number the first runs are read, and what is left is what stands behind the last of
them. -/
theorem joined_runs_decode (n m : String) (cls : α → Bool) (d : List α)
    (hd : ∃ e, d.head? = some e ∧ cls e = false) (spare : Nat) (v : Verbosity) :
    (∀ xs rest, Parted cls d xs rest →
        ((separated spare .any (takeWhile n cls) (tag m d)).parseSlice v
          (d.intercalate xs ++ rest)).result? = some (.ok (xs, rest))) ∧
      (∀ input, ∃ xs rest, Parted cls d xs rest ∧ d.intercalate xs ++ rest = input ∧
        ((separated spare .any (takeWhile n cls) (tag m d)).parseSlice v input).result? =
          some (.ok (xs, rest))) ∧
      ∀ xs rest most, Parted cls d xs rest → 0 < most →
        ∃ left, d.intercalate (xs.take most) ++ left = d.intercalate xs ++ rest ∧
          ((separated spare (.limited 0 most) (takeWhile n cls) (tag m d)).parseSlice v
            (d.intercalate xs ++ rest)).result? = some (.ok (xs.take most, left)) := by
  refine ⟨?_, ?_, ?_⟩
  · intro xs rest hparted
    obtain ⟨links, stop, rest', hcollects, rfl, htext, hresult⟩ :=
      parseSlice_runs n m cls d spare none v (d.intercalate xs ++ rest)
    obtain ⟨hxs, hrest⟩ := hcollects.parted.unique hd hparted htext
    rw [hxs, hrest] at hresult
    exact hresult
  · intro input
    obtain ⟨links, stop, rest, hcollects, rfl, htext, hresult⟩ :=
      parseSlice_runs n m cls d spare none v input
    exact ⟨_, _, hcollects.parted, htext, hresult⟩
  · intro xs rest most hparted hmost
    obtain ⟨links, stop, rest', hcollects, rfl, htext, -⟩ :=
      parseSlice_runs n m cls d spare none v (d.intercalate xs ++ rest)
    obtain ⟨links', stop', left, hcollects', -, htext', hresult⟩ :=
      parseSlice_runs n m cls d spare (some most) v (d.intercalate xs ++ rest)
    have hmoves : ∀ c x next, Iterates (takeWhile n cls) (tag m d) v c x next → c.Precedes next :=
      fun _ _ _ => Iterates.precedes (keeps_tag isPassage_onward m d)
        (keeps_precedes_takeWhile n cls v)
    have htake : links'.map Prod.fst = xs.take most := by
      rw [hcollects.eq_take hmoves hcollects', List.map_take,
        (hcollects.parted.unique hd hparted htext).1]
    have hbounds : Bounds.limited 0 most = ⟨0, some most⟩ := by
      rw [Bounds.limited, if_neg (Nat.ne_of_gt hmost)]
    rw [htake] at htext' hresult
    rw [hbounds]
    exact ⟨left, htext', hresult⟩

/-- Two words with a separator of two characters between them, and behind them a separator that no
word follows. -/
theorem joined_words_decode :
    (∃ e, [',', ' '].head? = some e ∧ Char.isAlpha e = false) ∧
      Parted Char.isAlpha [',', ' '] [['a', 'b'], ['c']] [',', ' ', '1'] ∧ 0 < 1 ∧
      ((separated 0 .any (takeWhile "WORD" Char.isAlpha) (tag "COMMA" [',', ' '])).parseSlice
          .verbose ['a', 'b', ',', ' ', 'c', ',', ' ', '1']).result? =
        some (.ok ([['a', 'b'], ['c']], [',', ' ', '1'])) ∧
      ∃ left, [',', ' '].intercalate [['a', 'b']] ++ left =
          ['a', 'b', ',', ' ', 'c', ',', ' ', '1'] ∧
        ((separated 0 (.limited 0 1) (takeWhile "WORD" Char.isAlpha)
            (tag "COMMA" [',', ' '])).parseSlice .verbose
            ['a', 'b', ',', ' ', 'c', ',', ' ', '1']).result? =
          some (.ok ([['a', 'b']], left)) := by
  have hd : ∃ e, [',', ' '].head? = some e ∧ Char.isAlpha e = false := ⟨',', rfl, rfl⟩
  have hparted : Parted Char.isAlpha [',', ' '] [['a', 'b'], ['c']] [',', ' ', '1'] := by
    refine ⟨?_, ?_, fun _ => ?_⟩
    · intro x hx
      rcases List.mem_pair.mp hx with rfl | rfl
      · exact ⟨by simp, List.all_eq_true.mp rfl⟩
      · exact ⟨by simp, List.all_eq_true.mp rfl⟩
    · exact takeWhile_eq_nil_iff_not_goesOn.mp rfl
    · show ¬ GoesOn Char.isAlpha [',', ' '] ([',', ' '] ++ ['1'])
      rw [goesOn_append_iff]
      exact takeWhile_eq_nil_iff_not_goesOn.mp rfl
  obtain ⟨hdecodes, -, hlimited⟩ :=
    joined_runs_decode "WORD" "COMMA" Char.isAlpha [',', ' '] hd 0 .verbose
  exact ⟨hd, hparted, Nat.one_pos, hdecodes _ _ hparted, hlimited _ _ 1 hparted Nat.one_pos⟩

end Runs

end Repetition

end Descent
