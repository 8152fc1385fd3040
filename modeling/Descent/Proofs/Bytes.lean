import Descent.Proofs.Utf8

/-!
# Text parsed in bytes

Text may be parsed as characters or as the bytes that it is written in.  A grammar of text is
written for either: its literals are characters or their bytes, and its tests accept ASCII
characters only, or all but some ASCII characters where a run is read (`Text.counterparts`).  These
are tests that go by words, because no byte of a character that is not ASCII is the number of an
ASCII character.

* `Rules.bytes_agree_with_chars`: both parses come to the same result.  The bytes in the output of
  one are those of the characters in the output of the other, what converters make of them is equal,
  and places correspond by the number of bytes before them.
-/

namespace Descent

variable {κ ρ : Type}

/-! ## Tests -/

namespace Text

/-- Tests that agree on ASCII characters and accept nothing else. -/
structure AsciiTest (test : Char → Bool) (test' : UInt8 → Bool) : Prop where
  isAscii : ∀ c, test c = true → IsAscii c
  same : ∀ c, IsAscii c → test' (UInt8.ofNat c.toNat) = test c
  lt : ∀ b, test' b = true → b.toNat < 0x80

namespace AsciiTest

variable {test : Char → Bool} {test' : UInt8 → Bool}

/-- No byte of a character that is not ASCII is accepted. -/
theorem eq_false_of_mem_code (h : AsciiTest test test') {c : Char} (hc : ¬ IsAscii c) {b : UInt8}
    (hb : b ∈ utf8.code c) : test' b = false := by
  by_contra hne
  have hlt := h.lt b (Bool.eq_true_of_not_eq_false hne)
  have hle := le_of_mem_code hc hb
  omega

/-- The byte of an ASCII character is accepted if the character is. -/
theorem eq_of_mem_code (h : AsciiTest test test') {c : Char} (hc : IsAscii c) {b : UInt8}
    (hb : b ∈ utf8.code c) : test' b = test c := by
  rw [code_of_isAscii hc, List.mem_singleton] at hb
  rw [hb, h.same c hc]

theorem fitsSingle (h : AsciiTest test test') : utf8.FitsSingle test test' where
  accepted c hc b hb := by rw [h.eq_of_mem_code (h.isAscii c hc) hb, hc]
  rejected c hc b hb := by
    have hmem : b ∈ utf8.code c := List.mem_of_mem_head? hb
    by_cases hascii : IsAscii c
    · rw [h.eq_of_mem_code hascii hmem, hc]
    · exact h.eq_false_of_mem_code hascii hmem
  letter c hc := ⟨_, code_of_isAscii (h.isAscii c hc)⟩

/-- The opposite tests go by words too, but they accept characters of several bytes. -/
theorem fits_not (h : AsciiTest test test') :
    utf8.Fits (fun c => !test c) (fun b => !test' b) where
  accepted c hc b hb := by
    by_cases hascii : IsAscii c
    · rw [h.eq_of_mem_code hascii hb, hc]
    · rw [h.eq_false_of_mem_code hascii hb, Bool.not_false]
  rejected c hc b hb := by
    have hmem : b ∈ utf8.code c := List.mem_of_mem_head? hb
    have htest : test c = true := by simpa using hc
    rw [h.eq_of_mem_code (h.isAscii c htest) hmem, hc]

end AsciiTest

/-- The byte of an ASCII character stands for it. -/
theorem char?_byte {c : Char} (h : IsAscii c) :
    Element.char? (UInt8.ofNat c.toNat) = some c := by
  have hnat : (UInt8.ofNat c.toNat).toNat = c.toNat := toNat_byte (Nat.lt_trans h (by decide))
  show some (Char.ofNat (UInt8.ofNat c.toNat).toNat) = some c
  rw [hnat, Char.ofNat_toNat]

end Text

namespace TextClass

theorem isAscii_of_le {c d : Char} (h : c ≤ d) (hd : d.toNat < 0x80) : Text.IsAscii c :=
  Nat.lt_of_le_of_lt (UInt32.le_iff_toNat_le.mp h) hd

theorem isAscii_of_isAlphaChar {c : Char} (h : isAlphaChar c = true) : Text.IsAscii c := by
  simp only [isAlphaChar, Bool.or_eq_true, Bool.and_eq_true, decide_eq_true_eq] at h
  rcases h with h | h
  · exact isAscii_of_le h.2 (by decide)
  · exact isAscii_of_le h.2 (by decide)

theorem isAscii_of_isDigitChar {c : Char} (h : isDigitChar c = true) : Text.IsAscii c := by
  simp only [isDigitChar, Bool.and_eq_true, decide_eq_true_eq] at h
  exact isAscii_of_le h.2 (by decide)

theorem isAscii_of_isSpaceChar {c : Char} (h : isSpaceChar c = true) : Text.IsAscii c := by
  simp only [isSpaceChar, Bool.or_eq_true, beq_iff_eq] at h
  rcases h with rfl | rfl
  · exact isAscii_of_le (Char.le_refl _) (by decide)
  · exact isAscii_of_le (Char.le_refl _) (by decide)

theorem isAscii_of_isNewlineChar {c : Char} (h : isNewlineChar c = true) : Text.IsAscii c := by
  simp only [isNewlineChar, Bool.or_eq_true, beq_iff_eq] at h
  rcases h with rfl | rfl
  · exact isAscii_of_le (Char.le_refl _) (by decide)
  · exact isAscii_of_le (Char.le_refl _) (by decide)

/-- All classes are made of ASCII characters only. -/
theorem isAscii_of_holds {cls : TextClass} {c : Char} (h : cls.holds c = true) :
    Text.IsAscii c := by
  cases cls with
  | space => exact isAscii_of_isSpaceChar h
  | newline => exact isAscii_of_isNewlineChar h
  | spaceOrNewline =>
    rcases Bool.or_eq_true_iff.mp h with h | h
    · exact isAscii_of_isSpaceChar h
    · exact isAscii_of_isNewlineChar h
  | alpha => exact isAscii_of_isAlphaChar h
  | digit => exact isAscii_of_isDigitChar h
  | hexDigit =>
    simp only [holds, Bool.or_eq_true, Bool.and_eq_true, decide_eq_true_eq] at h
    rcases h with (h | h) | h
    · exact isAscii_of_isDigitChar h
    · exact isAscii_of_le h.2 (by decide)
    · exact isAscii_of_le h.2 (by decide)
  | alphaNum =>
    rcases Bool.or_eq_true_iff.mp h with h | h
    · exact isAscii_of_isAlphaChar h
    · exact isAscii_of_isDigitChar h

end TextClass

namespace Text

theorem asciiTest_textClass (cls : TextClass) :
    AsciiTest (cls.accepts : Char → Bool) (cls.accepts : UInt8 → Bool) where
  isAscii c h := TextClass.isAscii_of_holds h
  same c h := by
    rw [TextClass.accepts_of_char (char?_byte h)]
    rfl
  lt b h := by
    have hholds : cls.holds (Char.ofNat b.toNat) = true := h
    have hascii := TextClass.isAscii_of_holds hholds
    rwa [IsAscii, toNat_char_byte] at hascii

theorem mem_encode_iff {set : List Char} (hset : ∀ c ∈ set, IsAscii c) {b : UInt8} :
    b ∈ utf8.encode set ↔ ∃ c ∈ set, b = UInt8.ofNat c.toNat := by
  rw [Coding.encode, List.mem_flatMap]
  refine exists_congr fun c => and_congr_right fun hc => ?_
  rw [code_of_isAscii (hset c hc), List.mem_singleton]

theorem asciiTest_inSet {set : List Char} (hset : ∀ c ∈ set, IsAscii c) :
    AsciiTest (Parser.inSet set) (Parser.inSet (utf8.encode set)) where
  isAscii c h := hset c (List.contains_iff_mem.mp h)
  same c h := by
    rw [Parser.inSet, Parser.inSet, Bool.eq_iff_iff, List.contains_iff_mem, List.contains_iff_mem,
      mem_encode_iff hset]
    constructor
    · rintro ⟨d, hd, hbyte⟩
      have hsame : utf8.encode [c] = utf8.encode [d] := by
        rw [utf8.encode_singleton, utf8.encode_singleton, code_of_isAscii h,
          code_of_isAscii (hset d hd), hbyte]
      rwa [(List.cons.inj (Coding.encode_inj.mp hsame)).1]
    · exact fun hc => ⟨c, hc, rfl⟩
  lt b h := by
    obtain ⟨c, hc, rfl⟩ := (mem_encode_iff hset).mp (List.contains_iff_mem.mp h)
    have hascii : c.toNat < 0x80 := hset c hc
    rwa [toNat_byte (Nat.lt_trans hascii (by decide))]

theorem fits_notInSet {set : List Char} (hset : ∀ c ∈ set, IsAscii c) :
    utf8.Fits (Parser.notInSet set) (Parser.notInSet (utf8.encode set)) :=
  (asciiTest_inSet hset).fits_not

end Text

/-! ## Conversions -/

namespace Conversion

theorem toText_encode (cs : List Char) : toText (Text.utf8.encode cs) = toText cs := by
  show Except.ok (String.ofList (Text.decodeLossy (Text.utf8.encode cs))) =
    Except.ok (String.ofList cs)
  rw [Text.decodeLossy_encode]

theorem toInt_encode (type : Text.IntType) (cs : List Char) :
    toInt type (Text.utf8.encode cs) = toInt type cs := by
  rw [toInt, toInt, toText_encode]

theorem toFloat_encode (cs : List Char) : toFloat (Text.utf8.encode cs) = toFloat cs := by
  rw [toFloat, toFloat, toText_encode]

end Conversion

/-- What text may be converted to. -/
inductive TextTarget where
  | text
  | integer (type : Text.IntType)
  | fraction
  deriving DecidableEq, Repr

namespace TextTarget

section

variable {α : Type} [Element α]

/-- What some elements are converted to. -/
def value (target : TextTarget) (es : List α) : Except TextFault (Tree α κ) :=
  match target with
  | text => (Conversion.toText es).map .text
  | integer type => (Conversion.toInt type es).map .int
  | fraction => (Conversion.toFloat es).map .float

/-- The converter that takes an output for the elements in it. -/
def convert (target : TextTarget) (t : Tree α κ) : Except Fault (Tree α κ) :=
  match t.flatten with
  | some es => (target.value es).mapError TextFault.toFault
  | none => .error (.plain "no elements")

end

/-- Characters and their bytes are converted to the same value. -/
theorem agree_value (target : TextTarget) (cs : List Char) :
    Agree Eq (Tree.Coded Text.utf8) (target.value (κ := κ) cs)
      (target.value (κ := κ) (Text.utf8.encode cs)) := by
  cases target with
  | text => exact Agree.ok (by rw [Text.decodeLossy_encode]; exact Tree.Coded.text _)
  | integer type =>
    rw [value, value, Conversion.toInt_encode]
    cases Conversion.toInt type cs with
    | ok n => exact Agree.ok (Tree.Coded.int n)
    | error fault => exact Agree.error rfl
  | fraction =>
    rw [value, value, Conversion.toFloat_encode]
    cases Conversion.toFloat cs with
    | ok x => exact Agree.ok (Tree.Coded.float x)
    | error fault => exact Agree.error rfl

theorem agree_convert (target : TextTarget) {t : Tree Char κ} {t' : Tree UInt8 κ}
    (h : t.Coded Text.utf8 t') :
    Agree Eq (Tree.Coded Text.utf8) (target.convert t) (target.convert t') := by
  rw [convert, convert, h.flatten]
  cases t.flatten with
  | none => exact Agree.error rfl
  | some cs =>
    rw [Option.map_some]
    exact (target.agree_value cs).mapError fun _ _ => congrArg TextFault.toFault

end TextTarget

/-! ## Grammars of text -/

namespace Text

/-- Tests of one element: the classes of characters, and being in a set of ASCII characters. -/
inductive IsTest : (Char → Bool) → (UInt8 → Bool) → Prop
  | ofClass (cls : TextClass) : IsTest cls.accepts cls.accepts
  | inSet {set : List Char} : (∀ c ∈ set, IsAscii c) →
    IsTest (Parser.inSet set) (Parser.inSet (utf8.encode set))

/-- Tests of a run: the same, and being in no set of ASCII characters. -/
inductive IsRunTest : (Char → Bool) → (UInt8 → Bool) → Prop
  | ofTest {test : Char → Bool} {test' : UInt8 → Bool} : IsTest test test' → IsRunTest test test'
  | notInSet {set : List Char} : (∀ c ∈ set, IsAscii c) →
    IsRunTest (Parser.notInSet set) (Parser.notInSet (utf8.encode set))

/-- What may stand for each other in grammars of text over characters and over bytes. -/
def counterparts : Counterparts Char UInt8 κ κ where
  literal cs bs := bs = utf8.encode cs
  single := IsTest
  munch := IsRunTest
  output := Tree.Coded utf8
  converter f f' := ∃ target : TextTarget, f = target.convert ∧ f' = target.convert

theorem IsTest.fitsSingle {test : Char → Bool} {test' : UInt8 → Bool} (h : IsTest test test') :
    utf8.FitsSingle test test' := by
  cases h with
  | ofClass cls => exact (asciiTest_textClass cls).fitsSingle
  | inSet hset => exact (asciiTest_inSet hset).fitsSingle

theorem IsRunTest.fits {test : Char → Bool} {test' : UInt8 → Bool} (h : IsRunTest test test') :
    utf8.Fits test test' := by
  cases h with
  | ofTest h => exact h.fitsSingle.toFits
  | notInSet hset => exact fits_notInSet hset

theorem sound (cs : List Char) :
    (counterparts (κ := κ)).Sound (utf8.readings [] [] cs) (utf8.places [] [] cs) := by
  refine (utf8.sound [] [] cs).of_imp (fun _ _ => id) (fun _ _ => IsTest.fitsSingle)
    (fun _ _ => IsRunTest.fits) rfl ?_
  rintro _ _ ⟨target, rfl, rfl⟩ t t' ht
  exact target.agree_convert ht

/-- Optional parts of one form yield counterparts when they are absent. -/
theorem coded_fallback (shape : Shape) :
    (shape.fallback : Tree Char κ).Coded utf8 (shape.fallback : Tree UInt8 κ) := by
  cases shape with
  | span => exact Tree.Coded.span []
  | elem => exact Tree.Coded.elem rfl
  | list => exact Tree.Coded.list List.Forall₂.nil
  | pair => exact Tree.Coded.pair Tree.Coded.absent Tree.Coded.absent
  | unit => exact Tree.Coded.unit
  | unknown => exact Tree.Coded.absent

theorem alike_optional {g : Grammar Char κ ρ} {g' : Grammar UInt8 κ ρ}
    (h : g.Alike counterparts g') : g.optional.Alike counterparts g'.optional := by
  rw [Grammar.optional, Grammar.optional, ← h.shape_eq]
  exact Grammar.Alike.orDefault (coded_fallback g.shape) h

/-- A place in a string, counted in characters and counted in bytes. -/
structure SamePlace (s : String) (position position' : Nat) : Prop where
  le_length : position ≤ s.toList.length
  eq_byteOffset : position' = byteOffset s position

variable {s : String}

/-- Cursors that correspond stand at one place of the string. -/
theorem samePlace_of_readings {c : Cursor Char} {c' : Cursor UInt8}
    (h : (utf8.readings [] [] s.toList).cursor c c') : SamePlace s c.position c'.position := by
  obtain ⟨read, rest, htext, rfl, rfl⟩ := h
  rw [List.nil_append, List.nil_append, Cursor.position_between, Cursor.position_between]
  refine ⟨?_, ?_⟩
  · rw [← htext, List.length_append]
    exact Nat.le_add_right _ _
  · rw [byteOffset_eq, ← htext, List.take_left]

theorem samePlace_of_places {loc : Location Char} {loc' : Location UInt8}
    (h : utf8.places [] [] s.toList loc loc') : SamePlace s loc.position loc'.position := by
  obtain ⟨c, c', hc, rfl, rfl⟩ := h
  exact samePlace_of_readings hc

theorem readings_start (s : String) (index : Nat) :
    (utf8.readings [] [] s.toList).cursor ((Cursor.new s.toList).advance index)
      ((Cursor.new (bytes s)).advance (byteOffset s index)) := by
  have hsplit : bytes s =
      utf8.encode (s.toList.take index) ++ utf8.encode (s.toList.drop index) := by
    rw [bytes_eq_encode, ← utf8.encode_append, List.take_append_drop]
  refine ⟨s.toList.take index, s.toList.drop index, List.take_append_drop _ _, ?_, ?_⟩
  · rw [List.nil_append, Cursor.advance_new_eq_between]
  · rw [List.nil_append, Cursor.advance_new_eq_between, hsplit, byteOffset_eq, List.take_left,
      List.drop_left]

end Text

/-- **Bytes and characters of one text parse alike.**  Parse a string with a grammar of text over
its characters from one of them on, and with the same grammar over its bytes from the byte where
that character begins, at the same verbosity.  Then the second parse comes to a result if the first
does, and the results are of the same kind: the second output is the first one in bytes, with equal
values where converters made them; failures are of one kind with one name; and where outputs end
and where failures are said to be is the same place of the string. -/
theorem Rules.bytes_agree_with_chars (rules : Rules Char κ ρ) (rules' : Rules UInt8 κ ρ)
    (g : Grammar Char κ ρ) (g' : Grammar UInt8 κ ρ)
    (h : Rules.Alike Text.counterparts rules rules' g g') (s : String) (index : Nat)
    (v : Verbosity) (r : Except (ParseError Char) (Tree Char κ × Cursor Char))
    (hr : rules.Yields g v ((Cursor.new s.toList).advance index) r) :
    (∃ r', rules'.Yields g' v
        ((Cursor.new (Text.bytes s)).advance (Text.byteOffset s index)) r') ∧
      ∀ r', rules'.Yields g' v
          ((Cursor.new (Text.bytes s)).advance (Text.byteOffset s index)) r' →
        Agree (ParseError.Alike fun loc loc' => Text.SamePlace s loc.position loc'.position)
          (fun y y' => y.1.Coded Text.utf8 y'.1 ∧ Text.SamePlace s y.2.position y'.2.position)
          r r' := by
  have hsound := Text.sound (κ := κ) s.toList
  have hstart := Text.readings_start s index
  refine ⟨returns_of_alike hsound h not_false hstart hr, fun r' hr' => ?_⟩
  refine (agree_of_alike hsound h hstart hr hr').imp ?_ ?_
  · exact fun e e' he => he.imp fun _ _ => Text.samePlace_of_places
  · exact fun y y' hy => ⟨hy.1, Text.samePlace_of_readings hy.2⟩

/-! ## An example -/

section

variable {α : Type} [Element α]

/-- A value: a number, a word, or a list of values in brackets. -/
def Rules.values (write : List Char → List α) : Rules α Unit Unit := fun _ =>
  .choice [.convert (.textMulti .digit) (TextTarget.integer ⟨8, false⟩).convert,
    .noneOfRun "WORD" (write ['[', ',', ']']),
    .delimited (.tag "OPEN" (write ['[']))
      (.separated .any (.defer "VALUE" ()) (.tag "COMMA" (write [','])))
      (.tag "CLOSE" (write [']']))]

/-- A key with a value, perhaps with blanks between them. -/
def Grammar.setting (write : List Char → List α) : Grammar α Unit Unit :=
  .pair (.tag "KEY" (write ['é', '=']))
    (.pair (.optional (.textMulti .space)) (.defer "VALUE" ()))

end

/-- A text in which a setting begins at the second character, which is written in two bytes. -/
def Rules.settingText : String := String.ofList ['x', 'é', '=', '[', 'ß', ',', '1', '2', ']']

/-- The setting ends with the text, after nine characters and after eleven bytes. -/
theorem Rules.settingText_agrees :
    Rules.Alike Text.counterparts (values id) (values Text.utf8.encode) (.setting id)
        (.setting Text.utf8.encode) ∧
      (values id).Yields (.setting id) .verbose ((Cursor.new settingText.toList).advance 1)
        (.ok (.pair (.span ['é', '=']) (.pair (.span []) (.list [.span ['ß'], .int 12])),
          .endOfInput ['x', 'é', '=', '[', 'ß', ',', '1', '2', ']'])) ∧
      (values Text.utf8.encode).Yields (.setting Text.utf8.encode) .verbose
        ((Cursor.new (Text.bytes settingText)).advance (Text.byteOffset settingText 1))
        (.ok (.pair (.span [0xC3, 0xA9, 0x3D])
            (.pair (.span []) (.list [.span [0xC3, 0x9F], .int 12])),
          .endOfInput
            [0x78, 0xC3, 0xA9, 0x3D, 0x5B, 0xC3, 0x9F, 0x2C, 0x31, 0x32, 0x5D])) ∧
      Text.SamePlace settingText 9 11 := by
  have hvalues : ∀ rule,
      (values id rule).Alike Text.counterparts (values Text.utf8.encode rule) := by
    intro rule
    refine .choice (.cons ?number (.cons ?word (.cons ?list .nil)))
    case number => exact .convert (.munch _ (.ofTest (.ofClass .digit))) ⟨_, rfl, rfl⟩
    case word =>
      have hset : ∀ c ∈ ['[', ',', ']'], Text.IsAscii c := by simp [Text.IsAscii]
      exact .munch _ (.notInSet hset)
    case list =>
      exact .delimited (.tag _ rfl) (.separated _ (.defer _ _) (.tag _ rfl)) (.tag _ rfl)
  have hsetting : (Grammar.setting id).Alike (ρ := Unit) Text.counterparts
      (.setting Text.utf8.encode) :=
    .pair (.tag _ rfl) (.pair (Text.alike_optional (.munch _ (.ofTest (.ofClass .space))))
      (.defer _ _))
  have halike : Rules.Alike Text.counterparts (values id) (values Text.utf8.encode) (.setting id)
      (.setting Text.utf8.encode) := ⟨hsetting, fun _ rule _ => hvalues rule⟩
  have hbytes : Text.bytes settingText =
      [0x78, 0xC3, 0xA9, 0x3D, 0x5B, 0xC3, 0x9F, 0x2C, 0x31, 0x32, 0x5D] := by decide
  have hoffset : Text.byteOffset settingText 1 = 1 := by decide
  have hchars : (values id).Yields (.setting id) .verbose
      ((Cursor.new settingText.toList).advance 1)
      (.ok (.pair (.span ['é', '=']) (.pair (.span []) (.list [.span ['ß'], .int 12])),
        .endOfInput ['x', 'é', '=', '[', 'ß', ',', '1', '2', ']'])) := by
    rw [settingText, String.toList_ofList]
    exact ⟨3, rfl⟩
  have hcoded : (values Text.utf8.encode).Yields (.setting Text.utf8.encode) .verbose
      ((Cursor.new (Text.bytes settingText)).advance (Text.byteOffset settingText 1))
      (.ok (.pair (.span [0xC3, 0xA9, 0x3D])
          (.pair (.span []) (.list [.span [0xC3, 0x9F], .int 12])),
        .endOfInput [0x78, 0xC3, 0xA9, 0x3D, 0x5B, 0xC3, 0x9F, 0x2C, 0x31, 0x32, 0x5D])) := by
    rw [hbytes, hoffset]
    exact ⟨3, rfl⟩
  have hagree := (bytes_agree_with_chars _ _ _ _ halike settingText 1 .verbose _ hchars).2 _ hcoded
  cases hagree with
  | ok hsame => exact ⟨halike, hchars, hcoded, hsame.2⟩

end Descent
