import Descent.Conversion
import Descent.Proofs.Munch
import Descent.Proofs.Utf8
import Descent.TextClass
import Mathlib.Data.Nat.Digits.Defs

/-!
# Number literals

A number literal is the longest run of digits, converted to an integer of some type.  The reader of
integers goes through the digits from the left and fails at the first one that takes the number out
of the range.  It does not look at the digits behind that one, but they could only have made the
number greater, so it succeeds exactly with the numbers that are in the range
(`Text.readDigits_of_digits`).  No sign and no other character comes before it, because nothing of
the kind is in a run of digits, and the text of a run is the run itself, in characters and in bytes
(`AsciiCodes`).

* `numeral_exact`: a run of digits is read as its value in base ten, or it is too large for the
  type and says so at its start; where there is no digit, nothing is converted.
-/

namespace Descent

/-! ## Digits, read from the left -/

namespace Text

variable {cs : List Char} {limit start : Nat}

theorem le_toNat_iff {c d : Char} : c ≤ d ↔ c.toNat ≤ d.toNat := UInt32.le_iff_toNat_le

theorem isDigitChar_iff {c : Char} :
    TextClass.isDigitChar c = true ↔ '0'.toNat ≤ c.toNat ∧ c.toNat ≤ '9'.toNat := by
  rw [TextClass.isDigitChar, Bool.and_eq_true, decide_eq_true_eq, decide_eq_true_eq,
    le_toNat_iff, le_toNat_iff]

theorem digitValue?_of_isDigitChar {c : Char} (h : TextClass.isDigitChar c = true) :
    digitValue? 10 c = some (c.toNat - '0'.toNat) := by
  obtain ⟨hleast, hgreatest⟩ := isDigitChar_iff.mp h
  have hvalue : c.toNat - '0'.toNat < 10 :=
    Nat.lt_of_le_of_lt (Nat.sub_le_sub_right hgreatest _) (by decide)
  have hrange : '0' ≤ c ∧ c ≤ '9' := ⟨le_toNat_iff.mpr hleast, le_toNat_iff.mpr hgreatest⟩
  simp only [digitValue?, if_pos hrange, if_pos hvalue]

theorem numeral_cons (start : Nat) (c : Char) (cs : List Char) :
    Decimal.numeral start (c :: cs) =
      Decimal.numeral (start * 10 + (c.toNat - '0'.toNat)) cs := by
  rw [Decimal.numeral, Decimal.numeral, List.foldl_cons]

theorem le_numeral (start : Nat) (cs : List Char) : start ≤ Decimal.numeral start cs := by
  induction cs generalizing start with
  | nil => exact Nat.le_refl start
  | cons c cs ih =>
    have hstart : start ≤ start * 10 + (c.toNat - '0'.toNat) := by omega
    exact Nat.le_trans hstart (ih _)

/-- The number that digits denote, by their places. -/
theorem numeral_eq_ofDigits (start : Nat) (cs : List Char) :
    Decimal.numeral start cs =
      start * 10 ^ cs.length + Nat.ofDigits 10 (cs.map fun c => c.toNat - '0'.toNat).reverse := by
  induction cs generalizing start with
  | nil => simp [Decimal.numeral]
  | cons c cs ih =>
    rw [numeral_cons, ih, List.map_cons, Nat.ofDigits_reverse_cons, List.length_map,
      List.length_cons, pow_succ]
    ring

/-- **Digits are read as the number they denote, or it is beyond the limit.** -/
theorem readDigits_of_digits {beyond : NumeralFault}
    (hcs : ∀ c ∈ cs, TextClass.isDigitChar c = true) (hstart : start ≤ limit) :
    readDigits 10 limit beyond start cs =
      if Decimal.numeral start cs ≤ limit then .ok (Decimal.numeral start cs)
      else .error beyond := by
  induction cs generalizing start with
  | nil => exact (if_pos hstart).symm
  | cons c cs ih =>
    obtain ⟨hc, hcs⟩ := List.forall_mem_cons.mp hcs
    rw [readDigits, digitValue?_of_isDigitChar hc, numeral_cons]
    dsimp only
    by_cases hle : start * 10 + (c.toNat - '0'.toNat) ≤ limit
    · rw [if_pos hle, ih hcs hle]
    · -- what the other digits add does not bring the number back
      have hnumeral := le_numeral (start * 10 + (c.toNat - '0'.toNat)) cs
      rw [if_neg hle, if_neg fun h => hle (Nat.le_trans hnumeral h)]

/-- A numeral of digits has no sign. -/
theorem readInt_of_digits {type : IntType} (hne : cs ≠ [])
    (hcs : ∀ c ∈ cs, TextClass.isDigitChar c = true) :
    readInt type 10 cs =
      if Decimal.numeral 0 cs ≤ type.greatest then .ok (Decimal.numeral 0 cs)
      else .error .tooLarge := by
  have hsign : ∀ c, TextClass.isDigitChar c = false → c ∉ cs :=
    fun c hc hmem => absurd (hcs c hmem) (by simp [hc])
  have hplus : '+' ∉ cs := hsign '+' rfl
  have hminus : '-' ∉ cs := hsign '-' rfl
  unfold readInt
  split
  · exact absurd rfl hne
  · exact absurd List.mem_cons_self hplus
  · exact absurd List.mem_cons_self hminus
  · exact absurd List.mem_cons_self hplus
  · exact absurd List.mem_cons_self hminus
  · dsimp only
    rw [readDigits_of_digits hcs (Nat.zero_le _)]
    split
    · rfl
    · rfl

end Text

/-! ## Digits among the elements -/

section Elements

variable {α : Type} [Element α]

/-- The elements stand for the characters of their codes, and read as these if all are ASCII. -/
structure AsciiCodes (code : α → Nat) : Prop where
  char?_eq : ∀ e, Element.char? e = some (Char.ofNat (code e))
  toNat_char : ∀ e, (Char.ofNat (code e)).toNat = code e
  text?_eq : ∀ es, (∀ e ∈ es, code e < 0x80) →
    Element.text? es = some (String.ofList (es.map fun e => Char.ofNat (code e)))

theorem asciiCodes_char : AsciiCodes Char.toNat where
  char?_eq c := congrArg some (Char.ofNat_toNat c).symm
  toNat_char c := congrArg Char.toNat (Char.ofNat_toNat c)
  text?_eq cs _ := by
    simp only [Char.ofNat_toNat, List.map_id']
    rfl

/-- ASCII bytes are read one by one. -/
theorem Text.decodeLossy_of_ascii {bytes : List UInt8} (h : ∀ b ∈ bytes, b.toNat < 0x80) :
    Text.decodeLossy bytes = bytes.map fun b => Char.ofNat b.toNat := by
  induction bytes with
  | nil => rfl
  | cons b bytes ih =>
    obtain ⟨hb, hbytes⟩ := List.forall_mem_cons.mp h
    have hfirst := Text.decodeFrom_one hb bytes
    rw [UInt8.ofNat_toNat] at hfirst
    rw [List.map_cons, ← ih hbytes]
    exact hfirst

theorem asciiCodes_byte : AsciiCodes UInt8.toNat where
  char?_eq _ := rfl
  toNat_char := Text.toNat_char_byte
  text?_eq _ h := congrArg (fun cs => some (String.ofList cs)) (Text.decodeLossy_of_ascii h)

/-- The code is that of an ASCII digit. -/
def IsDigitCode (n : Nat) : Prop := '0'.toNat ≤ n ∧ n ≤ '9'.toNat

/-- The number that digits denote in base ten. -/
def denoted (code : α → Nat) (digits : List α) : Nat :=
  Nat.ofDigits 10 (digits.map fun e => code e - '0'.toNat).reverse

/-- The text that is written with elements of these codes. -/
def textOf (code : α → Nat) (es : List α) : String :=
  String.ofList (es.map fun e => Char.ofNat (code e))

namespace AsciiCodes

variable {code : α → Nat} {es : List α}

theorem accepts_digit_iff (h : AsciiCodes code) {e : α} :
    TextClass.digit.accepts e = true ↔ IsDigitCode (code e) := by
  have hdigit := Text.isDigitChar_iff (c := Char.ofNat (code e))
  rw [h.toNat_char] at hdigit
  rw [TextClass.accepts_of_char (h.char?_eq e)]
  exact hdigit

theorem toText_of_digits (h : AsciiCodes code) (hes : ∀ e ∈ es, IsDigitCode (code e)) :
    Conversion.toText es = .ok (textOf code es) := by
  have hascii : ∀ e ∈ es, code e < 0x80 := fun e he => Nat.lt_of_le_of_lt (hes e he).2 (by decide)
  rw [Conversion.toText, h.text?_eq es hascii, textOf]

theorem numeral_eq_denoted (h : AsciiCodes code) :
    Text.Decimal.numeral 0 (es.map fun e => Char.ofNat (code e)) = denoted code es := by
  rw [Text.numeral_eq_ofDigits, Nat.zero_mul, Nat.zero_add, List.map_map, denoted]
  simp only [Function.comp_def, h.toNat_char]

/-- **A run of digits is converted to what it denotes, or it is too large.** -/
theorem toInt_of_digits (h : AsciiCodes code) {type : Text.IntType} (hne : es ≠ [])
    (hes : ∀ e ∈ es, IsDigitCode (code e)) :
    Conversion.toInt type es =
      if denoted code es ≤ type.greatest then .ok (denoted code es : Int)
      else .error (.notInteger (textOf code es) .tooLarge) := by
  have hchars : ∀ x ∈ es.map fun e => Char.ofNat (code e), TextClass.isDigitChar x = true := by
    refine List.forall_mem_map.mpr fun e he => Text.isDigitChar_iff.mpr ?_
    rw [h.toNat_char]
    exact hes e he
  have hread : Text.readInt type 10 (es.map fun e => Char.ofNat (code e)) = _ :=
    Text.readInt_of_digits (mt List.map_eq_nil_iff.mp hne) hchars
  rw [h.numeral_eq_denoted] at hread
  calc Conversion.toInt type es
      = (Text.readInt type 10 (textOf code es).toList).mapError
          (.notInteger (textOf code es)) := by
        rw [Conversion.toInt, h.toText_of_digits hes]
        rfl
    _ = _ := by
        rw [textOf, String.toList_ofList, hread]
        split
        · rfl
        · rfl

end AsciiCodes

/-! ## The parser -/

namespace Parser

/-- Digits, converted to an integer of a type. -/
def numeral (type : Text.IntType) : Parser α Int :=
  TextClass.digit.multi.convert fun es => (Conversion.toInt type es).mapError TextFault.toFault

/-- What the parser of numerals does at a cursor where the longest run of digits is this one. -/
structure ReadsNumeral (code : α → Nat) (type : Text.IntType) (v : Verbosity) (c : Cursor α)
    (run : List α) : Prop where
  /-- It succeeds with the value of the run, right behind it, if there is a run and the value is in
  the range. -/
  accepts_iff : ∀ n next, ((numeral type).run v).Accepts c n next ↔
    run ≠ [] ∧ denoted code run ≤ type.greatest ∧ n = denoted code run ∧
      next = c.advance run.length
  /-- It fails where there is no run, as the parser of runs does, and where the value is not in the
  range, with the text of the run. -/
  rejects_iff : ∀ e, ((numeral type).run v).Rejects c e ↔
    run = [] ∧ e = .mismatch v "DIGIT" c ∨
      run ≠ [] ∧ type.greatest < denoted code run ∧
        e = .conversion "DIGIT" c.loc (TextFault.notInteger (textOf code run) .tooLarge).toFault
  /-- Up to the place behind the run the run is read. -/
  consumed : (c.advance run.length).consumedSince c = run
  /-- Only where there is a run a conversion fails. -/
  isConversion_iff : ∀ e, ((numeral type).run v).Rejects c e → (e.isConversion = true ↔ run ≠ [])

variable {code : α → Nat} {type : Text.IntType} {v : Verbosity} {c next : Cursor α}
  {run xs : List α}

theorem converter_eq_ok_iff (h : AsciiCodes code) (hne : run ≠ [])
    (hrun : ∀ e ∈ run, IsDigitCode (code e)) {n : Int} :
    (Conversion.toInt type run).mapError TextFault.toFault = .ok n ↔
      denoted code run ≤ type.greatest ∧ n = denoted code run := by
  rw [h.toInt_of_digits hne hrun]
  split
  next hle =>
    rw [Run.mapError_ok, Except.ok.injEq, eq_comm]
    exact (and_iff_right hle).symm
  next hgt =>
    rw [Run.mapError_error]
    exact ⟨fun h => absurd h (by simp), fun h => absurd h.1 hgt⟩

theorem converter_eq_error_iff (h : AsciiCodes code) (hne : run ≠ [])
    (hrun : ∀ e ∈ run, IsDigitCode (code e)) {fault : Fault} :
    (Conversion.toInt type run).mapError TextFault.toFault = .error fault ↔
      type.greatest < denoted code run ∧
        fault = (TextFault.notInteger (textOf code run) .tooLarge).toFault := by
  rw [h.toInt_of_digits hne hrun]
  split
  next hle =>
    rw [Run.mapError_ok]
    exact ⟨fun h => absurd h (by simp), fun h => absurd hle (Nat.not_le_of_lt h.1)⟩
  next hgt =>
    rw [Run.mapError_error, Except.error.injEq, eq_comm]
    exact (and_iff_right (Nat.lt_of_not_le hgt)).symm

theorem accepts_digits_iff (h : AsciiCodes code)
    (hrun : IsLongestRun (fun e => IsDigitCode (code e)) c.remaining run) :
    (TextClass.digit.multi.run v).Accepts c xs next ↔
      xs = run ∧ run ≠ [] ∧ next = c.advance run.length := by
  have hmunch := (isLongestRun_takeWhile_iff fun e => h.accepts_digit_iff).mp hrun
  rw [TextClass.multi, accepts_takeWhile, ← hmunch]
  constructor
  · rintro ⟨rfl, hne, hnext⟩
    exact ⟨rfl, hne, hnext⟩
  · rintro ⟨rfl, hne, hnext⟩
    exact ⟨rfl, hne, hnext⟩

theorem rejects_digits_iff (h : AsciiCodes code) {e : ParseError α}
    (hrun : IsLongestRun (fun e => IsDigitCode (code e)) c.remaining run) :
    (TextClass.digit.multi.run v).Rejects c e ↔ run = [] ∧ e = .mismatch v "DIGIT" c := by
  have hmunch := (isLongestRun_takeWhile_iff fun e => h.accepts_digit_iff).mp hrun
  rw [TextClass.multi, rejects_takeWhile, ← hmunch]
  rfl

theorem accepts_numeral_iff (h : AsciiCodes code)
    (hrun : IsLongestRun (fun e => IsDigitCode (code e)) c.remaining run) {n : Int} :
    ((numeral type).run v).Accepts c n next ↔
      run ≠ [] ∧ denoted code run ≤ type.greatest ∧ n = denoted code run ∧
        next = c.advance run.length := by
  rw [numeral, accepts_convert]
  constructor
  · rintro ⟨xs, hxs, hn⟩
    obtain ⟨rfl, hne, hnext⟩ := (accepts_digits_iff h hrun).mp hxs
    obtain ⟨hle, hvalue⟩ := (converter_eq_ok_iff h hne hrun.qualifies).mp hn
    exact ⟨hne, hle, hvalue, hnext⟩
  · rintro ⟨hne, hle, hvalue, hnext⟩
    exact ⟨run, (accepts_digits_iff h hrun).mpr ⟨rfl, hne, hnext⟩,
      (converter_eq_ok_iff h hne hrun.qualifies).mpr ⟨hle, hvalue⟩⟩

theorem rejects_numeral_iff (h : AsciiCodes code) {e : ParseError α}
    (hrun : IsLongestRun (fun e => IsDigitCode (code e)) c.remaining run) :
    ((numeral type).run v).Rejects c e ↔
      run = [] ∧ e = .mismatch v "DIGIT" c ∨
        run ≠ [] ∧ type.greatest < denoted code run ∧
          e = .conversion "DIGIT" c.loc
            (TextFault.notInteger (textOf code run) .tooLarge).toFault := by
  rw [numeral, rejects_convert, rejects_digits_iff h hrun]
  refine or_congr Iff.rfl ⟨?_, ?_⟩
  · rintro ⟨xs, next, fault, hxs, hfails, rfl⟩
    obtain ⟨rfl, hne, -⟩ := (accepts_digits_iff h hrun).mp hxs
    obtain ⟨hgt, rfl⟩ := (converter_eq_error_iff h hne hrun.qualifies).mp hfails
    exact ⟨hne, hgt, rfl⟩
  · rintro ⟨hne, hgt, rfl⟩
    exact ⟨run, _, _, (accepts_digits_iff h hrun).mpr ⟨rfl, hne, rfl⟩,
      (converter_eq_error_iff h hne hrun.qualifies).mpr ⟨hgt, rfl⟩, rfl⟩

theorem exists_readsNumeral (h : AsciiCodes code) (type : Text.IntType) (v : Verbosity)
    (c : Cursor α) :
    ∃ run, IsLongestRun (fun e => IsDigitCode (code e)) c.remaining run ∧
      ReadsNumeral code type v c run := by
  have hrun := (isLongestRun_takeWhile_iff fun e => h.accepts_digit_iff (e := e)).mpr
    (rfl : c.remaining.takeWhile TextClass.digit.accepts = _)
  refine ⟨_, hrun, fun n next => accepts_numeral_iff h hrun, fun e => rejects_numeral_iff h hrun,
    ?_, fun e he => ?_⟩
  · rw [Cursor.consumedSince_advance]
    exact (List.prefix_iff_eq_take.mp hrun.isPrefix).symm
  · rcases (rejects_numeral_iff h hrun).mp he with ⟨hnil, rfl⟩ | ⟨hne, -, rfl⟩
    · cases v <;> simp [hnil, ParseError.isConversion]
    · exact iff_of_true rfl hne

/-- **Parsing a number literal is exact.**  For every type of integers, at every cursor in
characters or in bytes and at both verbosities, there is a longest run of ASCII digits, which may be
empty.  If it is not, and what it denotes in base ten is at most the greatest integer of the type,
then digits converted to an integer read this run and yield what it denotes, however many zeros it
begins with.  If it denotes more, they fail with a failed conversion of digits, at the start of the
run and with the text of the run.  If there is no run they fail as digits do that are not converted.
They do nothing else. -/
theorem numeral_exact (type : Text.IntType) (v : Verbosity) :
    (∀ c : Cursor Char, ∃ run,
        IsLongestRun (fun e => IsDigitCode e.toNat) c.remaining run ∧
          ReadsNumeral Char.toNat type v c run) ∧
      ∀ c : Cursor UInt8, ∃ run,
        IsLongestRun (fun e => IsDigitCode e.toNat) c.remaining run ∧
          ReadsNumeral UInt8.toNat type v c run :=
  ⟨exists_readsNumeral asciiCodes_char type v, exists_readsNumeral asciiCodes_byte type v⟩

/-- The greatest byte, with a zero in front. -/
example : ((numeral ⟨8, false⟩).run .terse).Accepts (Cursor.new ['0', '2', '5', '5', ';']) 255
    (.valid ['0', '2', '5', '5', ';'] 4) := rfl

/-- One more than the greatest byte. -/
example : ((numeral ⟨8, false⟩).run .terse).Rejects (Cursor.new ['2', '5', '6'])
    (.conversion "DIGIT" ⟨['2', '5', '6'], 0⟩ (TextFault.notInteger "256" .tooLarge).toFault) := rfl

end Parser

end Elements

end Descent
