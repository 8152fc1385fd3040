import Descent.Proofs.Alike
import Descent.Proofs.Onward

/-!
# Inputs under a code

A code writes every element of one type as a word over another, and no word begins another word
(`Coding`).  Then the words of an input, written one behind the other, can be read back: one list
begins another exactly if its encoding begins the other's (`Coding.encode_prefix_iff`), and a run of
accepted elements is encoded by a run of accepted letters if tests go by words
(`Coding.takeWhile_encode`).

So an input may be parsed under a code.  Cursors correspond if they stand behind the same elements
(`Coding.readings`); what was read before the first of them need not be the same, nor of the same
length.  Counterparts are literals and their encodings, tests that go by words, and outputs that
encode one another (`Tree.Coded`), and they do the same (`Coding.sound`).
-/

namespace Descent

variable {α α' κ ρ : Type}

/-! ## Cursors between two parts of an input -/

namespace Cursor

/-- The cursor between a part of an input and the rest. -/
def between (read rest : List α) : Cursor α := place (read ++ rest) read.length

variable {read rest : List α}

@[simp] theorem source_between : (between read rest).source = read ++ rest :=
  source_place _ _

@[simp] theorem position_between : (between read rest).position = read.length := by
  rw [between, position_place, List.length_append]
  omega

@[simp] theorem remaining_between : (between read rest).remaining = rest := by
  rw [between, remaining_place, List.drop_left]

@[simp] theorem left_between : (between read rest).left = rest.length := by
  rw [← length_remaining, remaining_between]

theorem advance_between (es : List α) :
    (between read (es ++ rest)).advance es.length = between (read ++ es) rest := by
  rw [between, between, advance_place, List.length_append, List.append_assoc]

theorem consumedSince_between (es : List α) :
    (between (read ++ es) rest).consumedSince (between read (es ++ rest)) = es := by
  rw [consumedSince, source_between, position_between, position_between, List.length_append,
    Nat.add_sub_cancel_left, List.append_assoc, List.drop_left, List.take_left]

theorem advance_new_eq_between (source : List α) (count : Nat) :
    (new source).advance count = between (source.take count) (source.drop count) := by
  rw [advance_new, between, List.take_append_drop, List.length_take, place, place]
  by_cases h : count < source.length
  · rw [Nat.min_eq_left (Nat.le_of_lt h)]
  · rw [if_neg h, if_neg (by omega)]

theorem new_eq_between (source : List α) : new source = between [] source := rfl

end Cursor

/-! ## Codes -/

/-- A way to write elements as words, none of which is empty or begins another. -/
structure Coding (α α' : Type) where
  code : α → List α'
  code_ne_nil : ∀ e, code e ≠ []
  eq_of_append_eq : ∀ {e f : α} {es fs : List α'}, code e ++ es = code f ++ fs → e = f

namespace Coding

variable (E : Coding α α')

/-- The words of a list of elements, one behind the other. -/
def encode (es : List α) : List α' := es.flatMap E.code

@[simp] theorem encode_nil : E.encode [] = [] := rfl

@[simp] theorem encode_cons (e : α) (es : List α) :
    E.encode (e :: es) = E.code e ++ E.encode es := List.flatMap_cons

@[simp] theorem encode_append (es fs : List α) :
    E.encode (es ++ fs) = E.encode es ++ E.encode fs := List.flatMap_append

theorem encode_singleton (e : α) : E.encode [e] = E.code e := by
  rw [encode_cons, encode_nil, List.append_nil]

theorem length_le_length_encode (es : List α) : es.length ≤ (E.encode es).length := by
  induction es with
  | nil => exact Nat.le_refl 0
  | cons e es ih =>
    have hword : 0 < (E.code e).length := List.length_pos_iff.mpr (E.code_ne_nil e)
    rw [encode_cons, List.length_cons, List.length_append]
    omega

variable {E}

@[simp] theorem encode_eq_nil_iff {es : List α} : E.encode es = [] ↔ es = [] := by
  refine ⟨fun h => ?_, fun h => by rw [h, encode_nil]⟩
  have hlength := E.length_le_length_encode es
  rw [h] at hlength
  exact List.length_eq_zero_iff.mp (Nat.le_zero.mp hlength)

/-- One list begins another exactly if its encoding begins the other's. -/
theorem encode_prefix_iff {es fs : List α} : E.encode es <+: E.encode fs ↔ es <+: fs := by
  constructor
  · intro h
    induction es generalizing fs with
    | nil => exact List.nil_prefix
    | cons e es ih =>
      rw [encode_cons] at h
      cases fs with
      | nil =>
        have hnil := List.prefix_nil.mp h
        exact absurd (List.append_eq_nil_iff.mp hnil).1 (E.code_ne_nil e)
      | cons f fs =>
        rw [encode_cons] at h
        obtain rfl : e = f := by
          obtain ⟨behind, hbehind⟩ := h
          rw [List.append_assoc] at hbehind
          exact E.eq_of_append_eq hbehind
        exact List.cons_prefix_cons.mpr ⟨rfl, ih ((List.prefix_append_right_inj _).mp h)⟩
  · rintro ⟨behind, rfl⟩
    rw [encode_append]
    exact List.prefix_append _ _

theorem encode_inj {es fs : List α} : E.encode es = E.encode fs ↔ es = fs := by
  refine ⟨fun h => ?_, congrArg E.encode⟩
  have hle : es <+: fs := encode_prefix_iff.mp ⟨[], (List.append_nil _).trans h⟩
  have hge : fs <+: es := encode_prefix_iff.mp ⟨[], (List.append_nil _).trans h.symm⟩
  exact hle.eq_of_length_le hge.length_le

/-- Beginnings of one list are as long as each other exactly if their encodings are. -/
theorem length_encode_inj {es fs text : List α} (hes : es <+: text) (hfs : fs <+: text) :
    (E.encode es).length = (E.encode fs).length ↔ es.length = fs.length := by
  constructor
  · intro h
    have hes' : E.encode es <+: E.encode text := encode_prefix_iff.mpr hes
    have hfs' : E.encode fs <+: E.encode text := encode_prefix_iff.mpr hfs
    have hsame := (List.prefix_of_prefix_length_le hes' hfs' (Nat.le_of_eq h)).eq_of_length h
    rw [encode_inj.mp hsame]
  · intro h
    rw [(List.prefix_of_prefix_length_le hes hfs (Nat.le_of_eq h)).eq_of_length h]

variable (E) in
/-- Tests that go by words: of an accepted element every letter is accepted, of a rejected one the
first letter is rejected. -/
structure Fits (test : α → Bool) (test' : α' → Bool) : Prop where
  accepted : ∀ e, test e = true → ∀ b ∈ E.code e, test' b = true
  rejected : ∀ e, test e = false → ∀ b ∈ (E.code e).head?, test' b = false

variable (E) in
/-- Tests that go by words and accept only elements that are written as one letter. -/
structure FitsSingle (test : α → Bool) (test' : α' → Bool) : Prop extends E.Fits test test' where
  letter : ∀ e, test e = true → ∃ b, E.code e = [b]

section Tests

variable {test : α → Bool} {test' : α' → Bool}

/-- What a test says of an element that is rejected, with its word taken apart. -/
theorem Fits.head (h : E.Fits test test') {e : α} (he : test e = false) :
    ∃ b bs, E.code e = b :: bs ∧ test' b = false := by
  obtain ⟨b, bs, hword⟩ := List.exists_cons_of_ne_nil (E.code_ne_nil e)
  exact ⟨b, bs, hword, h.rejected e he b (by rw [hword, List.head?_cons]; rfl)⟩

/-- A run of accepted elements is encoded by a run of accepted letters. -/
theorem takeWhile_encode (h : E.Fits test test') (es : List α) :
    (E.encode es).takeWhile test' = E.encode (es.takeWhile test) := by
  induction es with
  | nil => rfl
  | cons e es ih =>
    rw [encode_cons]
    cases he : test e with
    | true =>
      rw [List.takeWhile_append_of_pos (h.accepted e he), List.takeWhile_cons_of_pos he,
        encode_cons, ih]
    | false =>
      obtain ⟨b, bs, hword, hb⟩ := h.head he
      rw [hword, List.cons_append, List.takeWhile_cons_of_neg (by rw [hb]; decide),
        List.takeWhile_cons_of_neg (by rw [he]; decide), encode_nil]

end Tests

end Coding

/-! ## Outputs under a code -/

/-- The second tree encodes the first: its spans are the encodings of the first one's spans, its
elements are words of one letter, and its values are the same. -/
inductive Tree.Coded (E : Coding α α') : Tree α κ → Tree α' κ → Prop
  | absent : Coded E .absent .absent
  | unit : Coded E .unit .unit
  | elem {e : α} {b : α'} : E.code e = [b] → Coded E (.elem e) (.elem b)
  | span (es : List α) : Coded E (.span es) (.span (E.encode es))
  | list {ts : List (Tree α κ)} {ts' : List (Tree α' κ)} :
    List.Forall₂ (Coded E) ts ts' → Coded E (.list ts) (.list ts')
  | pair {first second : Tree α κ} {first' second' : Tree α' κ} :
    Coded E first first' → Coded E second second' →
      Coded E (.pair first second) (.pair first' second')
  | text (value : String) : Coded E (.text value) (.text value)
  | int (value : Int) : Coded E (.int value) (.int value)
  | float (value : Float) : Coded E (.float value) (.float value)
  | const (value : κ) : Coded E (.const value) (.const value)

namespace Tree.Coded

variable {E : Coding α α'} {t : Tree α κ} {t' : Tree α' κ}

theorem entries (h : t.Coded E t') : List.Forall₂ (Coded E) t.entries t'.entries := by
  cases h with
  | list hts => exact hts
  | absent | unit | elem | span | pair | text | int | float | const =>
    exact List.Forall₂.cons (by constructor <;> assumption) List.Forall₂.nil

/-- The elements in the second tree encode those in the first. -/
theorem flatten (h : t.Coded E t') : t'.flatten = t.flatten.map E.encode := by
  induction t using Tree.induct generalizing t' with
  | absent | unit | text | int | float | const =>
    cases h
    simp [Tree.flatten]
  | elem e =>
    cases h with
    | elem hword => rw [flatten_elem, flatten_elem, Option.map_some, E.encode_singleton, hword]
  | span es =>
    cases h
    rw [flatten_span, flatten_span, Option.map_some]
  | list ts ih =>
    cases h with
    | @list _ ts' hts =>
      rw [flatten_list, flatten_list]
      induction hts with
      | nil => rfl
      | cons ht _ ihTail =>
        rw [flattenAll, flattenAll, ih _ List.mem_cons_self ht,
          ihTail fun t ht => ih t (List.mem_cons_of_mem _ ht)]
        cases Tree.flatten _ <;> cases flattenAll _ <;> simp
  | pair first second ihFirst ihSecond =>
    cases h with
    | pair hfirst hsecond =>
      rw [Tree.flatten, Tree.flatten, ihFirst hfirst, ihSecond hsecond]
      cases first.flatten <;> cases second.flatten <;> simp

end Tree.Coded

/-! ## Parsing under a code -/

namespace Coding

/-- Cursors correspond that stand behind the same elements of a text, in two inputs that end with
it and with its encoding. -/
def readings (E : Coding α α') (before : List α) (before' : List α') (text : List α) :
    Simulation α α' where
  cursor c c' := ∃ read rest, read ++ rest = text ∧ c = .between (before ++ read) rest ∧
    c' = .between (before' ++ E.encode read) (E.encode rest)
  events _ _ := True
  lossy := False
  events_nil := trivial
  events_append := fun _ _ => trivial
  still := by
    rintro _ _ _ _ ⟨read, rest, htext, rfl, rfl⟩ ⟨read', rest', htext', rfl, rfl⟩
    simp only [Cursor.position_between, List.length_append, Nat.add_left_cancel_iff]
    exact (length_encode_inj ⟨rest', htext'⟩ ⟨rest, htext⟩).symm
  room := by
    rintro _ _ ⟨read, rest, -, rfl, rfl⟩
    rw [Cursor.left_between, Cursor.left_between]
    exact Or.inr (E.length_le_length_encode rest)

/-- Locations of cursors that correspond. -/
def places (E : Coding α α') (before : List α) (before' : List α') (text : List α)
    (loc : Location α) (loc' : Location α') : Prop :=
  ∃ c c', (E.readings before before' text).cursor c c' ∧ loc = c.loc ∧ loc' = c'.loc

/-- What may stand for each other under a code. -/
def counterparts (E : Coding α α') : Counterparts α α' κ κ where
  literal es es' := es' = E.encode es
  single := E.FitsSingle
  munch := E.Fits
  output := Tree.Coded E
  converter f f' := ∀ t t', t.Coded E t' → Agree Eq (Tree.Coded E) (f t) (f' t')

variable {E : Coding α α'} {before : List α} {before' : List α'} {text : List α}

/-- Corresponding cursors, moved past a span and past its encoding, correspond. -/
theorem readings_advance {c : Cursor α} {c' : Cursor α'} {es : List α}
    (hc : (E.readings before before' text).cursor c c') (hes : es <+: c.remaining) :
    (E.readings before before' text).cursor (c.advance es.length)
      (c'.advance (E.encode es).length) := by
  obtain ⟨read, rest, htext, rfl, rfl⟩ := hc
  rw [Cursor.remaining_between] at hes
  obtain ⟨rest, rfl⟩ := hes
  refine ⟨read ++ es, rest, by rw [List.append_assoc, htext], ?_, ?_⟩
  · rw [Cursor.advance_between, List.append_assoc]
  · rw [encode_append, Cursor.advance_between, encode_append, List.append_assoc]

theorem remaining_eq_encode {c : Cursor α} {c' : Cursor α'}
    (hc : (E.readings before before' text).cursor c c') :
    c'.remaining = E.encode c.remaining := by
  obtain ⟨read, rest, -, rfl, rfl⟩ := hc
  rw [Cursor.remaining_between, Cursor.remaining_between]

/-- The span between two cursors is encoded by the span between those that correspond to them. -/
theorem consumedSince_eq_encode {c next : Cursor α} {c' next' : Cursor α'}
    (hc : (E.readings before before' text).cursor c c')
    (hnext : (E.readings before before' text).cursor next next') :
    next'.consumedSince c' = E.encode (next.consumedSince c) := by
  obtain ⟨read, rest, htext, rfl, rfl⟩ := hc
  obtain ⟨read', rest', rfl, rfl, rfl⟩ := hnext
  have hread : read <+: read' ++ rest' := ⟨rest, htext⟩
  have hread' : read' <+: read' ++ rest' := List.prefix_append _ _
  rcases Nat.le_total read.length read'.length with h | h
  · obtain ⟨es, rfl⟩ := List.prefix_of_prefix_length_le hread hread' h
    rw [List.append_assoc] at htext
    obtain rfl := List.append_cancel_left htext
    rw [encode_append, encode_append, ← List.append_assoc, ← List.append_assoc,
      Cursor.consumedSince_between, Cursor.consumedSince_between]
  · have hback := encode_prefix_iff (E := E) |>.mpr (List.prefix_of_prefix_length_le hread' hread h)
    have hlength := hback.length_le
    rw [Cursor.consumedSince_eq_nil, Cursor.consumedSince_eq_nil, encode_nil]
    · simpa using h
    · simpa using hlength

theorem sound (E : Coding α α') (before : List α) (before' : List α') (text : List α) :
    (E.counterparts (κ := κ)).Sound (E.readings before before' text)
      (E.places before before' text) where
  events _ _ := trivial
  loc hc := ⟨_, _, hc, rfl, rfl⟩
  literal := by
    rintro es _ c c' rfl hc
    refine ⟨?_, fun hstands => ⟨Tree.Coded.span es, readings_advance hc hstands⟩⟩
    rw [remaining_eq_encode hc, encode_prefix_iff]
  single := by
    rintro test test' c c' h hc
    have hvalue' : c'.value = (E.encode c.remaining).head? := by
      rw [Cursor.value, remaining_eq_encode hc]
    rw [hvalue', Cursor.value]
    cases hremaining : c.remaining with
    | nil => exact Option.Rel.none
    | cons e es =>
      rw [encode_cons, List.head?_cons]
      cases he : test e with
      | true =>
        obtain ⟨b, hword⟩ := h.letter e he
        have hb : test' b = true := h.accepted e he b (hword ▸ List.mem_singleton_self b)
        have hstands : [e] <+: c.remaining := ⟨es, hremaining.symm⟩
        have hnext := readings_advance hc hstands
        rw [E.encode_singleton, hword] at hnext
        rw [hword, List.cons_append, List.head?_cons, Option.filter_some_pos he,
          Option.filter_some_pos hb]
        exact Option.Rel.some ⟨Tree.Coded.elem hword, hnext⟩
      | false =>
        obtain ⟨b, bs, hword, hb⟩ := h.head he
        rw [hword, List.cons_append, List.head?_cons, Option.filter_some_neg (by simp [he]),
          Option.filter_some_neg (by simp [hb])]
        exact Option.Rel.none
  munch := by
    rintro test test' c c' h hc
    have hrun := takeWhile_encode h c.remaining
    rw [remaining_eq_encode hc, hrun]
    refine ⟨encode_eq_nil_iff.symm, Tree.Coded.span _, ?_⟩
    exact readings_advance hc (List.takeWhile_prefix test)
  span := by
    rintro c c' next next' hc hnext
    rw [consumedSince_eq_encode hc hnext]
    exact Tree.Coded.span _
  unit := Tree.Coded.unit
  list := Tree.Coded.list
  pair := Tree.Coded.pair
  entries := Tree.Coded.entries
  converter h := h

end Coding

end Descent
