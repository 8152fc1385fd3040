import Descent.Proofs.Truncation

/-!
# Conversions that fuse

Two conversions, one after the other, are one conversion by both, event by event, since a failed
conversion is told under the name of the parser that is converted, at the place where that parser
started, whichever of the two failed (`run_convert_convert`).  To convert each entry of a list is to
convert the list by a traversal, which fails where the first entry does that is rejected.

A conversion may also be moved from the entries of a list into its elements.  There a failure is not
the end of everything but one more reason for the list to stop, so this is another parser: it yields
a shorter list where the first one fails.  But where the first one succeeds, all that the list has
collected is converted, and the loop comes along the same links to the same end.  What it may see
differently is only the attempt that ended it, because an iteration which is dropped for being idle
may be rejected instead (`Rest.convert`).

* `conversions_fuse`: the three laws.
-/

namespace Descent

/-! ## Traversals -/

section Traversals

variable {ε β γ : Type} {f : β → Except ε γ} {xs : List β} {ys : List γ} {e : ε}

theorem bind_eq_ok_iff {r : Except ε β} {z : γ} :
    r >>= f = .ok z ↔ ∃ x, r = .ok x ∧ f x = .ok z := by
  cases r with
  | error e => simp [bind, Except.bind]
  | ok x => simp [bind, Except.bind]

theorem bind_eq_error_iff {r : Except ε β} :
    r >>= f = .error e ↔ r = .error e ∨ ∃ x, r = .ok x ∧ f x = .error e := by
  cases r with
  | error e => simp [bind, Except.bind]
  | ok x => simp [bind, Except.bind]

/-- A traversal succeeds with what the members are converted to, one by one. -/
theorem mapM_eq_ok_iff : xs.mapM f = .ok ys ↔ List.Forall₂ (fun x y => f x = .ok y) xs ys := by
  induction xs generalizing ys with
  | nil =>
    rw [List.mapM_nil, List.forall₂_nil_left_iff]
    exact ⟨fun h => (Except.ok.inj h).symm, fun h => congrArg Except.ok h.symm⟩
  | cons x xs ih =>
    rw [List.mapM_cons, List.forall₂_cons_left_iff, bind_eq_ok_iff]
    constructor
    · rintro ⟨y, hx, h⟩
      obtain ⟨zs, hxs, hcons⟩ := bind_eq_ok_iff.mp h
      exact ⟨y, zs, hx, ih.mp hxs, (Except.ok.inj hcons).symm⟩
    · rintro ⟨y, zs, hx, hxs, rfl⟩
      exact ⟨y, hx, bind_eq_ok_iff.mpr ⟨zs, ih.mpr hxs, rfl⟩⟩

/-- A traversal fails as the first member does that is rejected. -/
theorem mapM_eq_error_iff :
    xs.mapM f = .error e ↔
      ∃ before x behind, xs = before ++ x :: behind ∧ (∀ y ∈ before, ∃ z, f y = .ok z) ∧
        f x = .error e := by
  induction xs with
  | nil => simp [pure, Except.pure]
  | cons x xs ih =>
    rw [List.mapM_cons, bind_eq_error_iff]
    constructor
    · rintro (hx | ⟨y, hx, h⟩)
      · exact ⟨[], x, xs, rfl, fun y hy => absurd hy List.not_mem_nil, hx⟩
      · rcases bind_eq_error_iff.mp h with hxs | ⟨zs, -, hcons⟩
        · obtain ⟨before, x', behind, rfl, hbefore, hx'⟩ := ih.mp hxs
          exact ⟨x :: before, x', behind, rfl, List.forall_mem_cons.mpr ⟨⟨y, hx⟩, hbefore⟩, hx'⟩
        · exact absurd hcons (by simp [pure, Except.pure])
    · rintro ⟨before, x', behind, heq, hbefore, hx'⟩
      rcases before with _ | ⟨_, before⟩
      · obtain ⟨rfl, rfl⟩ := List.cons.inj heq
        exact Or.inl hx'
      · obtain ⟨rfl, rfl⟩ := List.cons.inj heq
        obtain ⟨⟨y, hx⟩, hbefore⟩ := List.forall_mem_cons.mp hbefore
        have hxs := ih.mpr ⟨before, x', behind, rfl, hbefore, hx'⟩
        exact Or.inr ⟨y, hx, bind_eq_error_iff.mpr (Or.inl hxs)⟩

end Traversals

variable {α β γ δ : Type} {v : Verbosity}

/-! ## One conversion after another -/

namespace Parser

theorem converted_bind (name : String) (start next : Cursor α) (r : Except Fault γ)
    (g : γ → Except Fault δ) :
    converted name start next (r >>= g) =
      converted name start next r >>= fun z => converted name start z.2 (g z.1) := by
  cases r with
  | error fault => rfl
  | ok y =>
    rw [converted, Run.pure_bind]
    rfl

/-- **A conversion of a conversion is one conversion.** -/
theorem run_convert_convert (p : Parser α β) (f : β → Except Fault γ) (g : γ → Except Fault δ)
    (v : Verbosity) : ((p.convert f).convert g).run v = (p.convert fun x => f x >>= g).run v := by
  funext c
  simp only [convert, Run.bind_assoc, converted_bind]

/-- To convert each entry is to convert the list by a traversal. -/
theorem run_mapEach (p : Parser α (List β)) (f : β → Except Fault γ) (v : Verbosity) :
    (p.mapEach f).run v = (p.convert fun xs => xs.mapM f).run v := rfl

theorem accepts_mapEach {p : Parser α (List β)} {f : β → Except Fault γ} {c next : Cursor α}
    {ys : List γ} :
    ((p.mapEach f).run v).Accepts c ys next ↔
      ∃ xs, (p.run v).Accepts c xs next ∧ List.Forall₂ (fun x y => f x = .ok y) xs ys := by
  rw [run_mapEach, accepts_convert]
  exact exists_congr fun xs => and_congr_right fun _ => mapM_eq_ok_iff

theorem rejects_mapEach {p : Parser α (List β)} {f : β → Except Fault γ} {c : Cursor α}
    {e : ParseError α} :
    ((p.mapEach f).run v).Rejects c e ↔
      (p.run v).Rejects c e ∨
        ∃ before x behind next fault, (p.run v).Accepts c (before ++ x :: behind) next ∧
          (∀ y ∈ before, ∃ z, f y = .ok z) ∧ f x = .error fault ∧
          e = .conversion p.name c.loc fault := by
  rw [run_mapEach, rejects_convert]
  refine or_congr Iff.rfl ⟨?_, ?_⟩
  · rintro ⟨xs, next, fault, hxs, hfails, rfl⟩
    obtain ⟨before, x, behind, rfl, hbefore, hx⟩ := mapM_eq_error_iff.mp hfails
    exact ⟨before, x, behind, next, fault, hxs, hbefore, hx, rfl⟩
  · rintro ⟨before, x, behind, next, fault, hxs, hbefore, hx, rfl⟩
    have hfails := mapM_eq_error_iff.mpr ⟨before, x, behind, rfl, hbefore, hx⟩
    exact ⟨_, next, fault, hxs, hfails, rfl⟩

end Parser

/-! ## Conversions inside a list -/

namespace Repetition

open Descent.Parser

variable {p : Parser α β} {d : Parser α δ} {f : β → Except Fault γ} {c next start : Cursor α}
  {x : β} {y : γ} {e : ParseError α} {links : List (β × Cursor α)} {ys : List γ}
  {greatest room : Option Nat} {stop : Option (ParseError α)}

theorem Iterates.convert (h : Iterates p d v c x next) (hf : f x = .ok y) :
    Iterates (p.convert f) d v c y next := by
  obtain ⟨z, mid, hd, hp⟩ := h
  exact ⟨z, mid, hd, accepts_convert.mpr ⟨x, hp, hf⟩⟩

theorem Breaks.convert (h : Breaks p d v c e) : Breaks (p.convert f) d v c e := by
  rcases h with hd | ⟨z, mid, hd, hp⟩
  · exact Or.inl hd
  · exact Or.inr ⟨z, mid, hd, rejects_convert.mpr (Or.inl hp)⟩

/-- An iteration whose element is rejected by the converter breaks. -/
theorem Iterates.breaks_convert {fault : Fault} (h : Iterates p d v c x next)
    (hf : f x = .error fault) : ∃ e, Breaks (p.convert f) d v c e := by
  obtain ⟨z, mid, hd, hp⟩ := h
  exact ⟨_, Or.inr ⟨z, mid, hd, rejects_convert.mpr (Or.inr ⟨x, next, fault, hp, hf, rfl⟩)⟩⟩

/-- **A converter may move into the loop.**  If it accepts all that is collected, then the loop over
converted elements collects what it makes of them and ends at the same cursor, perhaps for another
reason. -/
theorem Rest.convert (h : Rest p d v room c links stop)
    (hf : List.Forall₂ (fun link y => f link.1 = .ok y) links ys) :
    ∃ links' stop', Rest (p.convert f) d v room c links' stop' ∧ links'.map Prod.fst = ys ∧
      endOf c links' = endOf c links := by
  induction h generalizing ys with
  | full c =>
    cases hf
    exact ⟨[], none, Rest.full c, rfl, rfl⟩
  | broken hroom hbreaks =>
    cases hf
    exact ⟨[], _, Rest.broken hroom hbreaks.convert, rfl, rfl⟩
  | @idle c next x hiter hposition =>
    cases hf
    -- what is dropped need not be accepted by the converter
    cases hx : f x with
    | ok y => exact ⟨[], none, Rest.idle (hiter.convert hx) hposition, rfl, rfl⟩
    | error fault =>
      obtain ⟨e, hbreaks⟩ := hiter.breaks_convert hx
      exact ⟨[], some e, Rest.broken (by simp) hbreaks, rfl, rfl⟩
  | @counted room c next x links stop hiter _ ih =>
    cases hf with
    | @cons _ y _ ys hx hxs =>
      obtain ⟨links', stop', hrest, rfl, hend⟩ := ih hxs
      exact ⟨(y, next) :: links', stop', Rest.counted (hiter.convert hx) hrest, rfl, hend⟩
  | @moved c next x links stop hiter hposition _ ih =>
    cases hf with
    | @cons _ y _ ys hx hxs =>
      obtain ⟨links', stop', hrest, rfl, hend⟩ := ih hxs
      exact ⟨(y, next) :: links', stop', Rest.moved (hiter.convert hx) hposition hrest, rfl, hend⟩

theorem Collects.convert (h : Collects p d v greatest start links stop)
    (hf : List.Forall₂ (fun link y => f link.1 = .ok y) links ys) :
    ∃ links' stop', Collects (p.convert f) d v greatest start links' stop' ∧
      links'.map Prod.fst = ys ∧ endOf start links' = endOf start links := by
  cases h with
  | none hnone =>
    cases hf
    exact ⟨[], Option.none, Collects.none hnone, rfl, rfl⟩
  | broken hsome hp =>
    cases hf
    exact ⟨[], _, Collects.broken hsome (rejects_convert.mpr (Or.inl hp)), rfl, rfl⟩
  | @more next x links stop hsome hp hrest =>
    cases hf with
    | @cons _ y _ ys hx hxs =>
      obtain ⟨links', stop', hrest', rfl, hend⟩ := hrest.convert hxs
      have hp' := accepts_convert.mpr ⟨x, hp, hx⟩
      exact ⟨(y, next) :: links', stop', Collects.more hsome hp' hrest', rfl, hend⟩

/-- A list whose entries are all converted is the list of converted elements. -/
theorem comesTo_listOf_convert {name : String} {bounds : Bounds}
    (h : ComesTo (fun spare => (listOf name spare bounds p d).mapEach f) v start (.ok (ys, next))) :
    ComesTo (fun spare => listOf name spare bounds (p.convert f) d) v start (.ok (ys, next)) := by
  obtain ⟨spare, h⟩ := h
  obtain ⟨xs, hxs, hf⟩ := accepts_mapEach.mp h
  obtain ⟨links, stop, hcollects, henough, rfl, rfl⟩ := accepts_listOf hxs
  rw [List.forall₂_map_left_iff] at hf
  obtain ⟨links', stop', hcollects', rfl, hend⟩ := hcollects.convert hf
  have hlength : links.length = links'.length := by rw [hf.length_eq, List.length_map]
  exact comesTo_listOf_ok_iff.mpr
    ⟨links', stop', hcollects', hlength ▸ henough, congrArg (Prod.mk _) hend.symm⟩

/-- **Conversions fuse.**  A conversion of a conversion runs as one conversion by both, at every
cursor and both verbosities: it succeeds where both accept, and it fails as the converted parser
does, or as the first of the two does that rejects, under the name of that parser and at the place
where it started.  Converting each entry of a list runs as converting the list by a traversal: it
succeeds where every entry is accepted, and it fails as the parser of the list does, or as the
converter does on the first entry that it rejects.  And if converting each entry of a list, with or
without delimiters and under any bounds, comes to a success, then so does the list of converted
elements under these bounds, with the same entries and at the same cursor, whatever the converter
makes of an element that the list drops. -/
theorem conversions_fuse (v : Verbosity) (c : Cursor α) :
    (∀ (p : Parser α β) (f : β → Except Fault γ) (g : γ → Except Fault δ),
        ((p.convert f).convert g).run v = (p.convert fun x => f x >>= g).run v ∧
          (∀ z next, (((p.convert f).convert g).run v).Accepts c z next ↔
            ∃ x y, (p.run v).Accepts c x next ∧ f x = .ok y ∧ g y = .ok z) ∧
          ∀ e, (((p.convert f).convert g).run v).Rejects c e ↔
            (p.run v).Rejects c e ∨
              ∃ x next fault, (p.run v).Accepts c x next ∧
                (f x = .error fault ∨ ∃ y, f x = .ok y ∧ g y = .error fault) ∧
                e = .conversion p.name c.loc fault) ∧
      (∀ (p : Parser α (List β)) (f : β → Except Fault γ),
        (p.mapEach f).run v = (p.convert fun xs => xs.mapM f).run v ∧
          (∀ ys next, ((p.mapEach f).run v).Accepts c ys next ↔
            ∃ xs, (p.run v).Accepts c xs next ∧ List.Forall₂ (fun x y => f x = .ok y) xs ys) ∧
          ∀ e, ((p.mapEach f).run v).Rejects c e ↔
            (p.run v).Rejects c e ∨
              ∃ before x behind next fault, (p.run v).Accepts c (before ++ x :: behind) next ∧
                (∀ y ∈ before, ∃ z, f y = .ok z) ∧ f x = .error fault ∧
                e = .conversion p.name c.loc fault) ∧
      ∀ (p : Parser α β) (d : Parser α δ) (f : β → Except Fault γ) (bounds : Bounds) ys next,
        (ComesTo (fun spare => (repeated spare bounds p).mapEach f) v c (.ok (ys, next)) →
            ComesTo (fun spare => repeated spare bounds (p.convert f)) v c (.ok (ys, next))) ∧
          (ComesTo (fun spare => (separated spare bounds p d).mapEach f) v c (.ok (ys, next)) →
            ComesTo (fun spare => separated spare bounds (p.convert f) d) v c
              (.ok (ys, next))) := by
  refine ⟨fun p f g => ⟨run_convert_convert p f g v, fun z next => ?_, fun e => ?_⟩,
    fun p f => ⟨run_mapEach p f v, fun ys next => accepts_mapEach, fun e => rejects_mapEach⟩,
    fun p d f bounds ys next => ⟨comesTo_listOf_convert, comesTo_listOf_convert⟩⟩
  · rw [run_convert_convert, accepts_convert]
    simp only [bind_eq_ok_iff, exists_and_left]
  · rw [run_convert_convert, rejects_convert]
    simp only [bind_eq_error_iff]

/-- A digit, or a question mark where there is none. -/
def digitOrMark : Parser Char Char := (takeSingle "DIGIT" Char.isDigit).orDefault '?'

/-- The number that a digit stands for. -/
def digitValue (x : Char) : Except Fault Nat :=
  if x.isDigit then .ok (x.toNat - '0'.toNat) else .error (.plain "no digit")

/-- The mark behind the second digit reads nothing.  The list drops it, and would not have it
converted. -/
theorem digits_converted :
    digitValue '?' = .error (.plain "no digit") ∧
      ComesTo (fun spare => (repeated spare .any digitOrMark).mapEach digitValue) .verbose
        (Cursor.new ['4', '2', ';']) (.ok ([4, 2], .valid ['4', '2', ';'] 2)) ∧
      ComesTo (fun spare => repeated spare .any (digitOrMark.convert digitValue)) .verbose
        (Cursor.new ['4', '2', ';']) (.ok ([4, 2], .valid ['4', '2', ';'] 2)) := by
  have hlist : ComesTo (fun spare => (repeated spare .any digitOrMark).mapEach digitValue) .verbose
      (Cursor.new ['4', '2', ';']) (.ok ([4, 2], .valid ['4', '2', ';'] 2)) := ⟨0, rfl⟩
  obtain ⟨-, -, hfuse⟩ := conversions_fuse (β := Char) (γ := Nat) (δ := Unit) .verbose
    (Cursor.new ['4', '2', ';'])
  exact ⟨rfl, hlist, (hfuse digitOrMark nothing digitValue .any _ _).1 hlist⟩

end Repetition

end Descent
