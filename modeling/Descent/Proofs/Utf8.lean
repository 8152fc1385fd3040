import Descent.Text.Lossy
import Descent.Proofs.Coding
import Mathlib.Tactic.IntervalCases

/-!
# Text in bytes

A character is written in UTF-8 as one to four bytes: a first byte that tells how many there are,
and bytes that hold six bits each.  The reader of bytes gives back the character that was written,
whatever bytes stand behind it (`Text.decodeFrom_utf8EncodeChar`).  So no character's bytes begin
those of another, UTF-8 is a code (`Text.utf8`), and text written in bytes reads as itself
(`Text.decodeLossy_encode`).

An ASCII character is written as the byte of its number, and any other one as bytes none of which is
the number of an ASCII character (`Text.code_of_isAscii`, `Text.le_of_mem_code`).
-/

namespace Descent.Text

/-! ## The reader, byte by byte -/

namespace Pending

/-- A character of three bytes, `n` being the number in the first.  The second byte is bounded below
where the number would fit in two bytes, and above where it would be a surrogate. -/
def three (n : Nat) : Pending where
  value := n
  owed := 1
  least := if n = 0 then 0xA0 else 0x80
  greatest := if n = 13 then 0x9F else 0xBF

/-- A character of four bytes, `n` being the number in the first.  The second byte is bounded below
where the number would fit in three bytes, and above where it would be beyond the last character. -/
def four (n : Nat) : Pending where
  value := n
  owed := 2
  least := if n = 0 then 0x90 else 0x80
  greatest := if n = 4 then 0x8F else 0xBF

@[simp] theorem value_three (n : Nat) : (three n).value = n := rfl

@[simp] theorem value_four (n : Nat) : (four n).value = n := rfl

end Pending

theorem toNat_byte {n : Nat} (h : n < 256) : (UInt8.ofNat n).toNat = n :=
  UInt8.toNat_ofNat_of_lt' h

theorem toNat_char_byte (b : UInt8) : (Char.ofNat b.toNat).toNat = b.toNat := by
  have hvalid : b.toNat.isValidChar := Or.inl (Nat.lt_trans b.toNat_lt (by decide))
  rw [Char.ofNat, dif_pos hvalid]
  rfl

theorem readFirst_two {n : Nat} (hleast : 2 ≤ n) (h : n < 32) :
    readFirst (UInt8.ofNat (n + 0xC0)) = ([], .inside (.begun n 0)) := by
  rw [readFirst, toNat_byte (by omega)]
  dsimp only
  rw [if_neg (by omega), if_neg (by omega), if_pos (by omega), Nat.add_sub_cancel]

theorem readFirst_three {n : Nat} (h : n < 16) :
    readFirst (UInt8.ofNat (n + 0xE0)) = ([], .inside (.three n)) := by
  interval_cases n <;> rfl

theorem readFirst_four {n : Nat} (h : n < 5) :
    readFirst (UInt8.ofNat (n + 0xF0)) = ([], .inside (.four n)) := by
  interval_cases n <;> rfl

theorem decodeFrom_one {n : Nat} (h : n < 0x80) (bytes : List UInt8) :
    decodeFrom .between (UInt8.ofNat n :: bytes) = Char.ofNat n :: decodeFrom .between bytes := by
  have hread : readFirst (UInt8.ofNat n) = ([Char.ofNat n], .between) := by
    rw [readFirst, toNat_byte (by omega), if_pos h]
  rw [decodeFrom_cons, Reading.read, hread]
  rfl

/-- A first byte of several begins a character. -/
theorem decodeFrom_first {b : UInt8} {p : Pending} (h : readFirst b = ([], .inside p))
    (bytes : List UInt8) : decodeFrom .between (b :: bytes) = decodeFrom (.inside p) bytes := by
  rw [decodeFrom_cons, Reading.read, h]
  rfl

section Inside

variable {p : Pending} {n : Nat} (h : n < 64)

include h

/-- A byte with six bits, where the reader stands inside a character that it may belong to. -/
theorem read_inside (hleast : p.least ≤ n + 0x80) (hgreatest : n + 0x80 ≤ p.greatest) :
    (Reading.inside p).read (UInt8.ofNat (n + 0x80)) =
      if p.owed = 0 then ([Char.ofNat (p.value * 64 + n)], .between)
      else ([], .inside (.begun (p.value * 64 + n) (p.owed - 1))) := by
  have hbyte : (UInt8.ofNat (n + 0x80)).toNat = n + 0x80 := toNat_byte (by omega)
  have haccepts : p.accepts (UInt8.ofNat (n + 0x80)) = true := by
    simp only [Pending.accepts, hbyte, hleast, hgreatest, decide_true, Bool.and_self]
  have hextended : p.extended (UInt8.ofNat (n + 0x80)) = p.value * 64 + n := by
    unfold Pending.extended
    omega
  rw [Reading.read, if_pos haccepts, hextended]
  cases p.owed with
  | zero => rfl
  | succ owed => rfl

theorem decodeFrom_more (howed : p.owed ≠ 0) (hleast : p.least ≤ n + 0x80)
    (hgreatest : n + 0x80 ≤ p.greatest) (bytes : List UInt8) :
    decodeFrom (.inside p) (UInt8.ofNat (n + 0x80) :: bytes) =
      decodeFrom (.inside (.begun (p.value * 64 + n) (p.owed - 1))) bytes := by
  rw [decodeFrom_cons, read_inside h hleast hgreatest, if_neg howed]
  rfl

theorem decodeFrom_begun (value owed : Nat) (bytes : List UInt8) :
    decodeFrom (.inside (.begun value (owed + 1))) (UInt8.ofNat (n + 0x80) :: bytes) =
      decodeFrom (.inside (.begun (value * 64 + n) owed)) bytes :=
  decodeFrom_more h (Nat.succ_ne_zero owed) (Nat.le_add_left _ _)
    (Nat.add_le_add_right (Nat.le_of_lt_succ h) _) bytes

theorem decodeFrom_last (value : Nat) (bytes : List UInt8) :
    decodeFrom (.inside (.begun value 0)) (UInt8.ofNat (n + 0x80) :: bytes) =
      Char.ofNat (value * 64 + n) :: decodeFrom .between bytes := by
  have hread := read_inside (p := .begun value 0) h (Nat.le_add_left _ _)
    (Nat.add_le_add_right (Nat.le_of_lt_succ h) _)
  rw [decodeFrom_cons, hread]
  rfl

end Inside

/-! ## A character's bytes -/

/-- The number of a character is no surrogate and not beyond the last. -/
theorem char_toNat_range (c : Char) :
    c.toNat < 0xD800 ∨ 0xDFFF < c.toNat ∧ c.toNat < 0x110000 :=
  c.valid

theorem utf8EncodeChar_one {c : Char} (h : c.toNat < 0x80) :
    String.utf8EncodeChar c = [UInt8.ofNat c.toNat] := by
  unfold String.utf8EncodeChar
  exact if_pos (Nat.le_of_lt_succ h)

theorem utf8EncodeChar_two {c : Char} (hleast : 0x80 ≤ c.toNat) (h : c.toNat < 0x800) :
    String.utf8EncodeChar c =
      [UInt8.ofNat (c.toNat / 64 + 0xC0), UInt8.ofNat (c.toNat % 64 + 0x80)] := by
  have hfirst : c.toNat / 64 % 32 = c.toNat / 64 := Nat.mod_eq_of_lt (by omega)
  rw [← hfirst]
  unfold String.utf8EncodeChar
  exact (if_neg (Nat.not_le.mpr hleast)).trans (if_pos (Nat.le_of_lt_succ h))

theorem utf8EncodeChar_three {c : Char} (hleast : 0x800 ≤ c.toNat) (h : c.toNat < 0x10000) :
    String.utf8EncodeChar c =
      [UInt8.ofNat (c.toNat / 4096 + 0xE0), UInt8.ofNat (c.toNat / 64 % 64 + 0x80),
        UInt8.ofNat (c.toNat % 64 + 0x80)] := by
  have hfirst : c.toNat / 4096 % 16 = c.toNat / 4096 := Nat.mod_eq_of_lt (by omega)
  have hone : 0x80 ≤ c.toNat := by omega
  rw [← hfirst]
  unfold String.utf8EncodeChar
  refine (if_neg (Nat.not_le.mpr hone)).trans ?_
  exact (if_neg (Nat.not_le.mpr hleast)).trans (if_pos (Nat.le_of_lt_succ h))

theorem utf8EncodeChar_four {c : Char} (hleast : 0x10000 ≤ c.toNat) :
    String.utf8EncodeChar c =
      [UInt8.ofNat (c.toNat / 262144 + 0xF0), UInt8.ofNat (c.toNat / 4096 % 64 + 0x80),
        UInt8.ofNat (c.toNat / 64 % 64 + 0x80), UInt8.ofNat (c.toNat % 64 + 0x80)] := by
  have hrange := char_toNat_range c
  have hfirst : c.toNat / 262144 % 8 = c.toNat / 262144 := Nat.mod_eq_of_lt (by omega)
  have hone : 0x80 ≤ c.toNat := by omega
  have htwo : 0x800 ≤ c.toNat := by omega
  rw [← hfirst]
  unfold String.utf8EncodeChar
  refine (if_neg (Nat.not_le.mpr hone)).trans ?_
  exact (if_neg (Nat.not_le.mpr htwo)).trans (if_neg (Nat.not_le.mpr hleast))

/-- A character of three bytes has a second byte that the reader takes for one. -/
theorem three_bounds {c : Char} (h : 0x800 ≤ c.toNat) :
    (Pending.three (c.toNat / 4096)).least ≤ c.toNat / 64 % 64 + 0x80 ∧
      c.toNat / 64 % 64 + 0x80 ≤ (Pending.three (c.toNat / 4096)).greatest := by
  have hrange := char_toNat_range c
  unfold Pending.three
  dsimp only
  constructor
  · split <;> omega
  · split <;> omega

/-- A character of four bytes has a second byte that the reader takes for one. -/
theorem four_bounds {c : Char} (h : 0x10000 ≤ c.toNat) :
    (Pending.four (c.toNat / 262144)).least ≤ c.toNat / 4096 % 64 + 0x80 ∧
      c.toNat / 4096 % 64 + 0x80 ≤ (Pending.four (c.toNat / 262144)).greatest := by
  have hrange := char_toNat_range c
  unfold Pending.four
  dsimp only
  constructor
  · split <;> omega
  · split <;> omega

/-- **A character's bytes read as the character**, whatever stands behind them. -/
theorem decodeFrom_utf8EncodeChar (c : Char) (bytes : List UInt8) :
    decodeFrom .between (String.utf8EncodeChar c ++ bytes) = c :: decodeFrom .between bytes := by
  have hrange := char_toNat_range c
  -- the reader puts the number together again; what is left of each case is arithmetic on it
  have hnumber : ∀ n, n = c.toNat → Char.ofNat n = c := by
    rintro n rfl
    exact Char.ofNat_toNat c
  have hlow : c.toNat % 64 < 64 := Nat.mod_lt _ (by decide)
  have hmid : c.toNat / 64 % 64 < 64 := Nat.mod_lt _ (by decide)
  have hhigh : c.toNat / 4096 % 64 < 64 := Nat.mod_lt _ (by decide)
  rcases Nat.lt_or_ge c.toNat 0x80 with hone | hone
  · rw [utf8EncodeChar_one hone, List.singleton_append, decodeFrom_one hone, hnumber _ rfl]
  rcases Nat.lt_or_ge c.toNat 0x800 with htwo | htwo
  · have hfirst := readFirst_two (n := c.toNat / 64) (by omega) (by omega)
    rw [utf8EncodeChar_two hone htwo, List.cons_append, List.singleton_append,
      decodeFrom_first hfirst, decodeFrom_last hlow, hnumber _ (by omega)]
  rcases Nat.lt_or_ge c.toNat 0x10000 with hthree | hthree
  · have hfirst := readFirst_three (n := c.toNat / 4096) (by omega)
    obtain ⟨hleast, hgreatest⟩ := three_bounds htwo
    rw [utf8EncodeChar_three htwo hthree, List.cons_append, List.cons_append,
      List.singleton_append, decodeFrom_first hfirst,
      decodeFrom_more hmid (Nat.succ_ne_zero 0) hleast hgreatest]
    refine (decodeFrom_last hlow _ _).trans ?_
    rw [Pending.value_three, hnumber _ (by omega)]
  · have hfirst := readFirst_four (n := c.toNat / 262144) (by omega)
    obtain ⟨hleast, hgreatest⟩ := four_bounds hthree
    rw [utf8EncodeChar_four hthree, List.cons_append, List.cons_append, List.cons_append,
      List.singleton_append, decodeFrom_first hfirst,
      decodeFrom_more hhigh (Nat.succ_ne_zero 1) hleast hgreatest]
    refine (decodeFrom_begun hmid _ 0 _).trans ?_
    rw [decodeFrom_last hlow, Pending.value_four, hnumber _ (by omega)]

/-! ## Text -/

/-- Characters written in UTF-8. -/
def utf8 : Coding Char UInt8 where
  code := String.utf8EncodeChar
  code_ne_nil _ := String.utf8EncodeChar_ne_nil
  eq_of_append_eq {c d es fs} h := by
    have hread := congrArg (decodeFrom .between) h
    rw [decodeFrom_utf8EncodeChar, decodeFrom_utf8EncodeChar] at hread
    exact (List.cons.inj hread).1

/-- Text written in bytes reads as itself, whatever stands behind it. -/
theorem decodeFrom_encode (cs : List Char) (bytes : List UInt8) :
    decodeFrom .between (utf8.encode cs ++ bytes) = cs ++ decodeFrom .between bytes := by
  induction cs with
  | nil => rfl
  | cons c cs ih =>
    rw [utf8.encode_cons, List.append_assoc, List.cons_append, ← ih]
    exact decodeFrom_utf8EncodeChar c _

@[simp] theorem decodeLossy_encode (cs : List Char) : decodeLossy (utf8.encode cs) = cs := by
  have hread := decodeFrom_encode cs []
  rw [List.append_nil] at hread
  rw [decodeLossy, hread, decodeFrom_nil, Reading.atEnd, List.append_nil]

/-- The bytes of a string. -/
def bytes (s : String) : List UInt8 := s.toByteArray.data.toList

/-- The number of bytes before a character of a string. -/
def byteOffset (s : String) (index : Nat) : Nat :=
  (bytes (String.ofList (s.toList.take index))).length

theorem bytes_eq_encode (s : String) : bytes s = utf8.encode s.toList := by
  rw [bytes, ← String.utf8Encode_toList, List.utf8Encode, List.toList_data_toByteArray]
  rfl

theorem byteOffset_eq (s : String) (index : Nat) :
    byteOffset s index = (utf8.encode (s.toList.take index)).length := by
  rw [byteOffset, bytes_eq_encode, String.toList_ofList]

theorem decodeLossy_bytes (s : String) : decodeLossy (bytes s) = s.toList := by
  rw [bytes_eq_encode, decodeLossy_encode]

/-! ## ASCII -/

/-- Whether a character is one of the first 128. -/
def IsAscii (c : Char) : Prop := c.toNat < 0x80

instance (c : Char) : Decidable (IsAscii c) := inferInstanceAs (Decidable (c.toNat < 0x80))

theorem code_of_isAscii {c : Char} (h : IsAscii c) : utf8.code c = [UInt8.ofNat c.toNat] :=
  utf8EncodeChar_one h

/-- No byte of a character that is not ASCII is the number of an ASCII character. -/
theorem le_of_mem_code {c : Char} (h : ¬ IsAscii c) {b : UInt8} (hb : b ∈ utf8.code c) :
    0x80 ≤ b.toNat := by
  have hrange := char_toNat_range c
  have hword : utf8.code c = String.utf8EncodeChar c := rfl
  have hone : 0x80 ≤ c.toNat := Nat.not_lt.mp h
  have hbyte : ∀ {n : Nat}, 0x80 ≤ n → n < 256 → 0x80 ≤ (UInt8.ofNat n).toNat := by
    intro n hleast hn
    rwa [toNat_byte hn]
  rw [hword] at hb
  rcases Nat.lt_or_ge c.toNat 0x800 with htwo | htwo
  · rw [utf8EncodeChar_two hone htwo] at hb
    simp only [List.mem_cons, List.not_mem_nil, or_false] at hb
    rcases hb with rfl | rfl <;> exact hbyte (by omega) (by omega)
  rcases Nat.lt_or_ge c.toNat 0x10000 with hthree | hthree
  · rw [utf8EncodeChar_three htwo hthree] at hb
    simp only [List.mem_cons, List.not_mem_nil, or_false] at hb
    rcases hb with rfl | rfl | rfl <;> exact hbyte (by omega) (by omega)
  · rw [utf8EncodeChar_four hthree] at hb
    simp only [List.mem_cons, List.not_mem_nil, or_false] at hb
    rcases hb with rfl | rfl | rfl | rfl <;> exact hbyte (by omega) (by omega)

end Descent.Text
