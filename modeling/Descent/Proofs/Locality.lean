import Descent.Proofs.Coding

/-!
# What a parse depends on

A parse depends on what remains to be read and on nothing else: neither on what was read before nor
on how much that was.  To say so, an input is parsed from some place on, and what remains there is
parsed as an input of its own.  This is parsing under the code that writes every element as itself,
with a part of the input in front of one text and nothing in front of the other.

* `Rules.result_of_remaining`: the two parses come to a result together, and the results are the
  same but for the places, which lie further on by the length of what is in front.
-/

namespace Descent

variable {α κ ρ : Type}

/-! ## Every element is its own word -/

namespace Coding

/-- The code that writes every element as itself. -/
def plain (α : Type) : Coding α α where
  code e := [e]
  code_ne_nil e := List.cons_ne_nil e []
  eq_of_append_eq h := (List.cons.inj h).1

@[simp] theorem encode_plain (es : List α) : (plain α).encode es = es := by
  induction es with
  | nil => rfl
  | cons e es ih =>
    rw [encode_cons, ih]
    rfl

theorem coded_plain_self (t : Tree α κ) : t.Coded (plain α) t := by
  induction t using Tree.induct with
  | absent => exact Tree.Coded.absent
  | unit => exact Tree.Coded.unit
  | elem e => exact Tree.Coded.elem rfl
  | span es =>
    have hspan := Tree.Coded.span (E := plain α) (κ := κ) es
    rwa [encode_plain] at hspan
  | list ts ih => exact Tree.Coded.list (List.forall₂_same.mpr ih)
  | pair first second ihFirst ihSecond => exact Tree.Coded.pair ihFirst ihSecond
  | text value => exact Tree.Coded.text value
  | int value => exact Tree.Coded.int value
  | float value => exact Tree.Coded.float value
  | const value => exact Tree.Coded.const value

theorem eq_of_coded_plain {t t' : Tree α κ} (h : t.Coded (plain α) t') : t = t' := by
  induction t using Tree.induct generalizing t' with
  | absent | unit | text | int | float | const =>
    cases h
    rfl
  | elem e =>
    cases h with
    | elem hword => rw [(List.cons.inj hword).1]
  | span es =>
    cases h
    rw [encode_plain]
  | list ts ih =>
    cases h with
    | @list _ ts' hts =>
      have hsame : List.Forall₂ Eq ts ts' :=
        ((List.forall₂_and_left _ _).mpr ⟨fun t ht => ht, hts⟩).imp fun t t' h => ih t h.1 h.2
      exact Tree.list_congr hsame
  | pair first second ihFirst ihSecond =>
    cases h with
    | pair hfirst hsecond => rw [ihFirst hfirst, ihSecond hsecond]

theorem fits_plain (test : α → Bool) : (plain α).Fits test test where
  accepted := by
    rintro e he b hb
    rwa [List.mem_singleton.mp hb]
  rejected := by
    rintro e he b hb
    rwa [← Option.some.inj hb]

/-- Every leaf is its own counterpart. -/
theorem reflexive_plain : ((plain α).counterparts (κ := κ)).Reflexive where
  literal es := (encode_plain es).symm
  single test := ⟨fits_plain test, fun e _ => ⟨e, rfl⟩⟩
  munch := fits_plain
  output := coded_plain_self
  converter f t t' h := by
    rw [eq_of_coded_plain h]
    cases f t' with
    | ok x => exact Agree.ok (coded_plain_self x)
    | error fault => exact Agree.error rfl

end Coding

/-! ## Results at places further on -/

/-- The same place, seen in an input that is a part of the other. -/
structure Location.Beyond (count : Nat) (loc loc' : Location α) : Prop where
  position_eq : loc.position = loc'.position + count
  rest_eq : loc.rest = loc'.rest

/-- The same place for a cursor. -/
structure Cursor.Beyond (count : Nat) (c c' : Cursor α) : Prop where
  position_eq : c.position = c'.position + count
  remaining_eq : c.remaining = c'.remaining

/-- The same failure, with the same message, at a place further on. -/
structure ParseError.Beyond [Element α] (count : Nat) (e e' : ParseError α) : Prop where
  alike : e.Alike (Location.Beyond count) e'
  message_eq : e.message = e'.message

/-- What a location shows depends on what is there only. -/
theorem Location.preview_congr [Element α] {loc loc' : Location α} (h : loc.rest = loc'.rest) :
    loc.preview = loc'.preview := by
  unfold Location.preview
  rw [h]

theorem ParseError.Alike.beyond [Element α] {count : Nat} {e e' : ParseError α}
    (h : e.Alike (Location.Beyond count) e') : e.Beyond count e' := by
  refine ⟨h, ?_⟩
  cases h with
  | invalidInput => rfl
  | conversion => rw [message_conversion, message_conversion]
  | expected name hloc =>
    rw [message_expected, message_expected, Location.preview_congr hloc.rest_eq]

namespace Coding

variable {before text : List α}

theorem readings_plain_beyond {c c' : Cursor α}
    (h : ((plain α).readings before [] text).cursor c c') : c.Beyond before.length c' := by
  obtain ⟨read, rest, -, rfl, rfl⟩ := h
  rw [encode_plain, encode_plain, List.nil_append]
  refine ⟨?_, ?_⟩
  · rw [Cursor.position_between, Cursor.position_between, List.length_append, Nat.add_comm]
  · rw [Cursor.remaining_between, Cursor.remaining_between]

theorem places_plain_beyond {loc loc' : Location α}
    (h : (plain α).places before [] text loc loc') : loc.Beyond before.length loc' := by
  obtain ⟨c, c', hc, rfl, rfl⟩ := h
  have hbeyond := readings_plain_beyond hc
  refine ⟨hbeyond.position_eq, ?_⟩
  rw [Cursor.loc, Cursor.loc, Location.rest_mk, Location.rest_mk, ← Cursor.remaining_eq_drop,
    ← Cursor.remaining_eq_drop, hbeyond.remaining_eq]

end Coding

/-! ## Grammars -/

variable [DecidableEq α] [Element α]

/-- **A parse depends on what remains only.**  Parse an input with a grammar without functions from
some place on, and parse what remains there as an input of its own, at the same verbosity.  Then
both parses come to a result or neither does.  The results are of the same kind; outputs are equal,
and what remains behind them is the same; failures are of one kind, with equal messages; and the
places in the whole input lie further on by as much as the start does. -/
theorem Rules.result_of_remaining (rules : Rules α κ ρ) (g : Grammar α κ ρ)
    (hg : rules.FuncFree g) (input : List α) (count : Nat) (hcount : count ≤ input.length)
    (v : Verbosity) :
    ((∃ r, rules.Yields g v ((Cursor.new input).advance count) r) ↔
        ∃ r, rules.Yields g v (Cursor.new (input.drop count)) r) ∧
      ∀ r r', rules.Yields g v ((Cursor.new input).advance count) r →
        rules.Yields g v (Cursor.new (input.drop count)) r' →
        Agree (ParseError.Beyond count) (fun y y' => y.1 = y'.1 ∧ y.2.Beyond count y'.2) r r' := by
  have halike : rules.Alike (Coding.plain α).counterparts rules g g :=
    hg.alike Coding.reflexive_plain
  have hlength : (input.take count).length = count := List.length_take_of_le hcount
  -- the simulation is not symmetric: it is needed in both directions for the parses to end together
  have hforth : ((Coding.plain α).readings (input.take count) [] (input.drop count)).cursor
      ((Cursor.new input).advance count) (Cursor.new (input.drop count)) := by
    refine ⟨[], input.drop count, rfl, ?_, ?_⟩
    · rw [List.append_nil, Cursor.advance_new_eq_between]
    · rw [Coding.encode_plain, Coding.encode_plain, Cursor.new_eq_between, List.append_nil]
  have hback : ((Coding.plain α).readings [] (input.take count) (input.drop count)).cursor
      (Cursor.new (input.drop count)) ((Cursor.new input).advance count) := by
    refine ⟨[], input.drop count, rfl, ?_, ?_⟩
    · rw [List.append_nil, Cursor.new_eq_between]
    · rw [Coding.encode_plain, Coding.encode_plain, Cursor.advance_new_eq_between, List.append_nil]
  refine ⟨⟨?_, ?_⟩, ?_⟩
  · rintro ⟨r, hr⟩
    exact returns_of_alike (Coding.sound _ _ _ _) halike not_false hforth hr
  · rintro ⟨r, hr⟩
    exact returns_of_alike (Coding.sound _ _ _ _) halike not_false hback hr
  · intro r r' hr hr'
    refine (agree_of_alike (Coding.sound _ _ _ _) halike hforth hr hr').imp ?_ ?_
    · intro e e' he
      have hbeyond := (he.imp fun _ _ => Coding.places_plain_beyond).beyond
      rwa [hlength] at hbeyond
    · rintro y y' ⟨houtput, hcursor⟩
      have hbeyond := Coding.readings_plain_beyond hcursor
      rw [hlength] at hbeyond
      exact ⟨Coding.eq_of_coded_plain houtput, hbeyond⟩

/-- Text in brackets, with more of the same inside; its output is all that it spans. -/
def Rules.brackets : Rules Char Unit Unit := fun _ =>
  .matchOnly (.delimited (.tag "OPEN" ['['])
    (.repeated .any (.choice [.munch "TEXT" (.noneOf ['[', ']']), .defer "BRACKETS" ()]))
    (.tag "CLOSE" [']']))

/-- In `ab[c[d`, read from the third character on, the inner brackets are given up, and it is the
outer ones that should have been closed where the inner ones begin. -/
theorem Rules.brackets_of_remaining :
    brackets.FuncFree (.defer "BRACKETS" ()) ∧ 2 ≤ ['a', 'b', '[', 'c', '[', 'd'].length ∧
      brackets.Yields (.defer "BRACKETS" ()) .verbose
        ((Cursor.new ['a', 'b', '[', 'c', '[', 'd']).advance 2)
        (.error (.expected "CLOSE" ⟨['a', 'b', '[', 'c', '[', 'd'], 4⟩)) ∧
      brackets.Yields (.defer "BRACKETS" ()) .verbose (Cursor.new ['[', 'c', '[', 'd'])
        (.error (.expected "CLOSE" ⟨['[', 'c', '[', 'd'], 2⟩)) ∧
      ParseError.Beyond 2 (.expected "CLOSE" ⟨['a', 'b', '[', 'c', '[', 'd'], 4⟩)
        (.expected "CLOSE" ⟨['[', 'c', '[', 'd'], 2⟩) := by
  have hfree : brackets.FuncFree (.defer "BRACKETS" ()) := funcFree_of_hasFunc rfl fun _ => rfl
  have hcount : 2 ≤ ['a', 'b', '[', 'c', '[', 'd'].length := by decide
  have hwhole : brackets.Yields (.defer "BRACKETS" ()) .verbose
      ((Cursor.new ['a', 'b', '[', 'c', '[', 'd']).advance 2)
      (.error (.expected "CLOSE" ⟨['a', 'b', '[', 'c', '[', 'd'], 4⟩)) := ⟨3, rfl⟩
  have hpart : brackets.Yields (.defer "BRACKETS" ()) .verbose (Cursor.new ['[', 'c', '[', 'd'])
      (.error (.expected "CLOSE" ⟨['[', 'c', '[', 'd'], 2⟩)) := ⟨3, rfl⟩
  have hagree := (brackets.result_of_remaining _ hfree _ 2 hcount .verbose).2 _ _ hwhole hpart
  cases hagree with
  | error hbeyond => exact ⟨hfree, hcount, hwhole, hpart, hbeyond⟩

end Descent
