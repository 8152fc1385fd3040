import Descent.Proofs.Consumption

/-!
# Literals, element by element

A literal is compared with the input at once.  It could as well be spelled: its elements are read
one after another, each by a parser of one element, the outputs are forgotten for the span that was
read, and the whole goes by the name of the literal (`spelled`).  On the way some elements may have
been read when one fails, so that the failure is behind the start, but the name puts it back there.

Spelling nothing leaves the cursor as it is, and a literal advances it by nothing, which is the same
only where the cursor is well formed.

* `accepts_spelled_iff`: spelling a literal succeeds where the literal is what the input goes on
  with, and behind it.
* `rejects_spelled`: it fails only where it is not, with a mismatch.
* `literals_spell`: so a literal is its own spelling, success or failure; and it is its two parts,
  one behind the other, wherever it is split.
-/

namespace Descent

variable {α : Type}

/-! ## What comes next -/

namespace Cursor

variable {c : Cursor α}

theorem cons_isPrefix_remaining_iff {e : α} {es : List α} :
    e :: es <+: c.remaining ↔ c.value = some e ∧ es <+: c.next.remaining := by
  rcases hrest : c.remaining with _ | ⟨e', rest⟩
  · have hvalue : c.value = none := value_eq_none_iff.mpr hrest
    simp [hvalue]
  · rw [List.cons_prefix_cons, value_of_remaining hrest, remaining_next hrest, Option.some.injEq,
      eq_comm]

/-- What comes next begins with two parts if it begins with the first, and behind that with the
second. -/
theorem append_isPrefix_remaining_iff {es es' : List α} :
    es ++ es' <+: c.remaining ↔
      es <+: c.remaining ∧ es' <+: (c.advance es.length).remaining := by
  rw [remaining_advance]
  constructor
  · rintro ⟨rest, hrest⟩
    rw [← hrest, List.append_assoc, List.drop_left]
    exact ⟨List.prefix_append es _, List.prefix_append es' rest⟩
  · rintro ⟨⟨rest, hrest⟩, h⟩
    rw [← hrest, List.drop_left] at h
    rw [← hrest]
    exact (List.prefix_append_right_inj es).mpr h

end Cursor

/-! ## Spelled literals -/

namespace Parser

variable [DecidableEq α] {name : String} {v : Verbosity} {c next : Cursor α} {e : ParseError α}

/-- The elements of a literal, one after another. -/
def spelled (name : String) (literal : List α) : Parser α (List α) :=
  sequence (literal.map fun a => oneOf name [a])

theorem accepts_oneOf_singleton {a x : α} :
    ((oneOf name [a]).run v).Accepts c x next ↔ c.value = some a ∧ x = a ∧ next = c.next := by
  rw [oneOf_eq_takeSingle, accepts_takeSingle, inSet, List.contains_iff_mem, List.mem_singleton]
  constructor
  · rintro ⟨hvalue, rfl, rfl⟩
    exact ⟨hvalue, rfl, rfl⟩
  · rintro ⟨hvalue, rfl, rfl⟩
    exact ⟨hvalue, rfl, rfl⟩

theorem rejects_oneOf_singleton {a : α} :
    ((oneOf name [a]).run v).Rejects c e ↔ c.value ≠ some a ∧ e = .mismatch v name c := by
  rw [oneOf_eq_takeSingle, rejects_takeSingle]
  refine and_congr_left fun _ => ?_
  rcases c.value with _ | x
  · simp
  · simp [inSet]

/-- **Spelling a literal succeeds where the literal comes next.** -/
theorem accepts_spelled_iff (hc : c.WellFormed) {literal xs : List α} :
    ((spelled name literal).run v).Accepts c xs next ↔
      literal <+: c.remaining ∧ xs = literal ∧ next = c.advance literal.length := by
  unfold spelled
  induction literal generalizing c xs with
  | nil =>
    rw [List.map_nil, accepts_sequence_nil, List.length_nil, hc.advance_zero]
    exact (and_iff_right List.nil_prefix).symm
  | cons a as ih =>
    rw [List.map_cons, accepts_sequence_cons, Cursor.cons_isPrefix_remaining_iff, List.length_cons,
      ← Cursor.advance_next]
    constructor
    · rintro ⟨x, mid, ys, hx, hys, rfl⟩
      obtain ⟨hvalue, rfl, rfl⟩ := accepts_oneOf_singleton.mp hx
      obtain ⟨hcomes, rfl, rfl⟩ := (ih c.wellFormed_next).mp hys
      exact ⟨⟨hvalue, hcomes⟩, rfl, rfl⟩
    · rintro ⟨⟨hvalue, hcomes⟩, rfl, rfl⟩
      have ha : ((oneOf name [a]).run v).Accepts c a c.next :=
        accepts_oneOf_singleton.mpr ⟨hvalue, rfl, rfl⟩
      exact ⟨a, c.next, as, ha, (ih c.wellFormed_next).mpr ⟨hcomes, rfl, rfl⟩, rfl⟩

/-- **Spelling a literal fails only where the literal does not come next**, with a mismatch at the
first element that is another one. -/
theorem rejects_spelled {literal : List α} (h : ((spelled name literal).run v).Rejects c e) :
    ¬ literal <+: c.remaining ∧ ∃ c', e = .mismatch v name c' := by
  unfold spelled at h
  induction literal generalizing c with
  | nil => exact absurd h not_rejects_sequence_nil
  | cons a as ih =>
    rw [Cursor.cons_isPrefix_remaining_iff]
    rcases rejects_sequence_cons.mp h with hfirst | ⟨x, mid, hx, hrest⟩
    · obtain ⟨hother, rfl⟩ := rejects_oneOf_singleton.mp hfirst
      exact ⟨fun ⟨hvalue, _⟩ => hother hvalue, c, rfl⟩
    · obtain ⟨-, -, rfl⟩ := accepts_oneOf_singleton.mp hx
      obtain ⟨hnot, c', rfl⟩ := ih hrest
      exact ⟨fun ⟨_, hcomes⟩ => hnot hcomes, c', rfl⟩

theorem returns_spelled (literal : List α) : ((spelled name literal).run v).Returns c := by
  unfold spelled
  induction literal generalizing c with
  | nil => exact (accepts_sequence_nil.mpr ⟨rfl, rfl⟩).returns
  | cons a as ih =>
    rw [List.map_cons, run_sequence_cons]
    have ha : ((oneOf name [a]).run v).Returns c := by
      rw [oneOf_eq_takeSingle]
      exact returns_takeSingle _
    exact returns_map (returns_pair ha fun x mid _ => ih)

/-- From a well-formed cursor a literal comes to the same result as its spelling does, cut from the
input and under the name of the literal. -/
theorem result?_tag_eq_spelled (hc : c.WellFormed) (literal : List α) :
    ((tag name literal).run v c).result? =
      (((spelled name literal).matchOnly.named name).run v c).result? := by
  have hreturns : (((spelled name literal).matchOnly.named name).run v).Returns c :=
    returns_named (returns_matchOnly (returns_spelled literal))
  refine (hreturns.result?_eq (fun xs next h => ?_) fun e h => ?_).symm
  · obtain ⟨ys, hys, rfl⟩ := accepts_matchOnly.mp (accepts_named.mp h)
    obtain ⟨hcomes, rfl, rfl⟩ := (accepts_spelled_iff hc).mp hys
    rw [Cursor.consumedSince_advance, ← List.prefix_iff_eq_take.mp hcomes]
    exact accepts_tag.mpr ⟨hcomes, rfl, rfl⟩
  · obtain ⟨e', he', rfl⟩ := rejects_named.mp h
    obtain ⟨hnot, c', rfl⟩ := rejects_spelled (rejects_matchOnly.mp he')
    refine rejects_tag.mpr ⟨hnot, ?_⟩
    -- under the name of the literal it is forgotten which element failed
    cases v with
    | terse => rfl
    | verbose => rfl

/-- **A literal is its two parts, one behind the other,** wherever it is split. -/
theorem accepts_tag_append_iff {literal behind xs : List α} :
    ((tag name (literal ++ behind)).run v).Accepts c xs next ↔
      ((pair (tag name literal) (tag name behind)).matchOnly.run v).Accepts c xs next := by
  rw [accepts_matchOnly, accepts_tag, Cursor.append_isPrefix_remaining_iff, List.length_append,
    ← Cursor.advance_advance]
  have hspan : literal <+: c.remaining → behind <+: (c.advance literal.length).remaining →
      ((c.advance literal.length).advance behind.length).consumedSince c = literal ++ behind := by
    intro hfirst hsecond
    have hboth := Cursor.append_isPrefix_remaining_iff.mpr ⟨hfirst, hsecond⟩
    rw [Cursor.advance_advance, Cursor.consumedSince_advance, ← List.length_append]
    exact (List.prefix_iff_eq_take.mp hboth).symm
  constructor
  · rintro ⟨⟨hfirst, hsecond⟩, rfl, rfl⟩
    refine ⟨(literal, behind), accepts_pair.mpr ?_, (hspan hfirst hsecond).symm⟩
    exact ⟨literal, c.advance literal.length, behind, accepts_tag.mpr ⟨hfirst, rfl, rfl⟩,
      accepts_tag.mpr ⟨hsecond, rfl, rfl⟩, rfl⟩
  · rintro ⟨z, hz, rfl⟩
    obtain ⟨x, mid, y, hx, hy, -⟩ := accepts_pair.mp hz
    obtain ⟨hfirst, -, rfl⟩ := accepts_tag.mp hx
    obtain ⟨hsecond, -, rfl⟩ := accepts_tag.mp hy
    exact ⟨⟨hfirst, hsecond⟩, hspan hfirst hsecond, rfl⟩

/-- **Literals spell.**  From a well-formed cursor and at both verbosities, a literal of any length
comes to the same result as its elements one after another, cut from the input and under the name
of the literal.  And wherever a literal is split, it succeeds, with the same span and the same
cursor behind it, exactly where its two parts do, one behind the other and cut from the input. -/
theorem literals_spell (name : String) (v : Verbosity) (c : Cursor α) :
    (c.WellFormed → ∀ literal : List α,
        ((tag name literal).run v c).result? =
          (((sequence (literal.map fun a => oneOf name [a])).matchOnly.named name).run v
            c).result?) ∧
      ∀ literal behind xs next, ((tag name (literal ++ behind)).run v).Accepts c xs next ↔
        ((pair (tag name literal) (tag name behind)).matchOnly.run v).Accepts c xs next :=
  ⟨fun hc literal => result?_tag_eq_spelled hc literal,
    fun _ _ _ _ => accepts_tag_append_iff⟩

/-- From its third element on the input begins like the literal, and fails where it began. -/
theorem literals_spell_true :
    ((Cursor.new ['a', ' ', 't', 'r', 'u', 'm']).advance 2).WellFormed ∧
      (((sequence (['t', 'r', 'u', 'e'].map fun a => oneOf "TRUE" [a])).matchOnly.named
          "TRUE").run .verbose ((Cursor.new ['a', ' ', 't', 'r', 'u', 'm']).advance 2)).result? =
        some (.error (.expected "TRUE" ⟨['a', ' ', 't', 'r', 'u', 'm'], 2⟩)) := by
  have hc := Cursor.wellFormed_advance_new ['a', ' ', 't', 'r', 'u', 'm'] 2
  obtain ⟨hspelled, -⟩ := literals_spell "TRUE" .verbose
    ((Cursor.new ['a', ' ', 't', 'r', 'u', 'm']).advance 2)
  exact ⟨hc, (hspelled hc ['t', 'r', 'u', 'e']).symm.trans rfl⟩

end Parser

end Descent
