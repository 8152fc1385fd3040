import Descent.Proofs.Utf8
import Mathlib.Tactic.SplitIfs

/-!
# Text in place of bytes

Bytes have a text, whatever they are, and where they are none of their own it has replacement
characters.  Written in bytes again, the text may be longer than they were, but it is never shorter
(`Text.length_le_length_encode_decodeLossy`).

A replacement character takes three bytes, and it stands for at most three, because four bytes that
begin a character complete it.  What has to be shown is that a character which the reader completes
takes as many bytes as were read for it.  The first byte already decides how many that will be.  It
is the range of the second byte that keeps the number from being one that fits in fewer bytes, so
the reader's state has to be known with the numbers that it can still come to (`Pending.Reaches`).
-/

namespace Descent.Text

/-! ## Numbers and their sizes -/

/-- The least number of a character that is written in so many bytes. -/
def leastOfSize (size : Nat) : Nat :=
  if size < 2 then 0 else if size = 2 then 0x80 else if size = 3 then 0x800 else 0x10000

theorem leastOfSize_le {size size' : Nat} (h : size ≤ size') :
    leastOfSize size ≤ leastOfSize size' := by
  unfold leastOfSize
  split_ifs <;> omega

theorem toNat_ofNat {n : Nat} (h : n.isValidChar) : (Char.ofNat n).toNat = n := by
  rw [Char.ofNat, dif_pos h]
  rfl

theorem length_code (c : Char) : (utf8.code c).length = c.utf8Size :=
  String.length_utf8EncodeChar c

/-- A character with a number too large for fewer bytes takes so many. -/
theorem le_length_code {n size : Nat} (hvalid : n.isValidChar) (hsize : size ≤ 4)
    (h : leastOfSize size ≤ n) : size ≤ (utf8.code (Char.ofNat n)).length := by
  have hcode : utf8.code (Char.ofNat n) = String.utf8EncodeChar (Char.ofNat n) := rfl
  have hbelow : ∀ most, n < leastOfSize (most + 1) → size ≤ most := by
    intro most hn
    by_contra hlt
    have hle := leastOfSize_le (Nat.not_le.mp hlt)
    rw [Nat.succ_eq_add_one] at hle
    omega
  rw [hcode]
  rcases Nat.lt_or_ge n 0x80 with htwo | htwo
  · rw [utf8EncodeChar_one (by rwa [toNat_ofNat hvalid])]
    exact hbelow 1 htwo
  rcases Nat.lt_or_ge n 0x800 with hthree | hthree
  · rw [utf8EncodeChar_two (by rwa [toNat_ofNat hvalid]) (by rwa [toNat_ofNat hvalid])]
    exact hbelow 2 hthree
  rcases Nat.lt_or_ge n 0x10000 with hfour | hfour
  · rw [utf8EncodeChar_three (by rwa [toNat_ofNat hvalid]) (by rwa [toNat_ofNat hvalid])]
    exact hbelow 3 hfour
  · rw [utf8EncodeChar_four (by rwa [toNat_ofNat hvalid])]
    exact hsize

/-! ## The reader inside a character -/

namespace Pending

/-- The numbers that a character can still come to. -/
def Reaches (p : Pending) (n : Nat) : Prop :=
  (p.value * 64 + (p.least - 0x80)) * 64 ^ p.owed ≤ n ∧
    n < (p.value * 64 + (p.greatest - 0x80) + 1) * 64 ^ p.owed

/-- So many bytes of the character have been read, and whatever it comes to will be a character that
takes as many bytes as will have been read. -/
structure Holds (p : Pending) (count : Nat) : Prop where
  total_le : count + p.owed + 1 ≤ 4
  valid : ∀ n, p.Reaches n → n.isValidChar ∧ leastOfSize (count + p.owed + 1) ≤ n

variable {p : Pending} {count : Nat} {b : UInt8}

theorem reaches_begun {value owed n : Nat} : (begun value owed).Reaches n ↔
    value * 64 ^ (owed + 1) ≤ n ∧ n < (value + 1) * 64 ^ (owed + 1) := by
  have hmost : value * 64 + 63 + 1 = (value + 1) * 64 := by omega
  rw [Nat.pow_succ', ← Nat.mul_assoc, ← Nat.mul_assoc, ← hmost]
  simp only [Reaches, begun, Nat.reduceSub, Nat.add_zero]

theorem bounds_of_accepts (h : p.accepts b = true) :
    p.value * 64 + (p.least - 0x80) ≤ p.extended b ∧
      p.extended b ≤ p.value * 64 + (p.greatest - 0x80) := by
  simp only [accepts, Bool.and_eq_true, decide_eq_true_eq] at h
  unfold extended
  omega

/-- The last byte completes a character of as many bytes as were read. -/
theorem Holds.last (h : p.Holds count) (howed : p.owed = 0) (hb : p.accepts b = true) :
    count + 1 ≤ (utf8.code (Char.ofNat (p.extended b))).length := by
  have hbounds := bounds_of_accepts hb
  have hreaches : p.Reaches (p.extended b) := by
    rw [Reaches, howed]
    omega
  have htotal := h.total_le
  obtain ⟨hvalid, hleast⟩ := h.valid _ hreaches
  rw [howed] at htotal hleast
  exact le_length_code hvalid htotal hleast

/-- Any other byte leaves fewer numbers to come to. -/
theorem Holds.more (h : p.Holds count) {owed : Nat} (howed : p.owed = owed + 1)
    (hb : p.accepts b = true) : (begun (p.extended b) owed).Holds (count + 1) := by
  have hbounds := bounds_of_accepts hb
  have htotal : count + 1 + owed + 1 = count + p.owed + 1 := by omega
  refine ⟨?_, fun n hn => ?_⟩
  · show count + 1 + owed + 1 ≤ 4
    rw [htotal]
    exact h.total_le
  · show n.isValidChar ∧ leastOfSize (count + 1 + owed + 1) ≤ n
    rw [htotal]
    rw [reaches_begun, ← howed] at hn
    refine h.valid n ⟨?_, ?_⟩
    · exact Nat.le_trans (Nat.mul_le_mul_right _ hbounds.1) hn.1
    · exact Nat.lt_of_lt_of_le hn.2 (Nat.mul_le_mul_right _ (Nat.succ_le_succ hbounds.2))

end Pending

/-! ## The reader at work -/

/-- How many bytes of a character the reader has read. -/
inductive Reading.Held : Reading → Nat → Prop
  | between : Held .between 0
  | inside {p : Pending} {count : Nat} : p.Holds count → Held (.inside p) count

/-- So many bytes are in the characters that the reader gave and in the one that it holds. -/
def Accounts (count : Nat) (given : List Char × Reading) : Prop :=
  ∃ held, given.2.Held held ∧ count ≤ (utf8.encode given.1).length + held

theorem accounts_char {count : Nat} {c : Char} (h : count ≤ (utf8.code c).length) :
    Accounts count ([c], .between) :=
  ⟨0, .between, by rwa [utf8.encode_singleton]⟩

theorem accounts_inside {count : Nat} {p : Pending} (h : p.Holds count) :
    Accounts count ([], .inside p) :=
  ⟨count, .inside h, Nat.le_add_left _ _⟩

theorem length_code_replacementChar : (utf8.code replacementChar).length = 3 := by
  have hcode : utf8.code replacementChar = String.utf8EncodeChar replacementChar := rfl
  have hnumber : replacementChar.toNat = 0xFFFD := rfl
  rw [hcode, utf8EncodeChar_three (by rw [hnumber]; decide) (by rw [hnumber]; decide)]
  rfl

/-- A first byte is a character, or it is none, or it begins one. -/
theorem accounts_readFirst (b : UInt8) : Accounts 1 (readFirst b) := by
  have hchar : ∀ c, Accounts 1 ([c], .between) := by
    intro c
    refine accounts_char ?_
    rw [length_code]
    exact Char.utf8Size_pos c
  have hinside : ∀ p : Pending, p.owed ≤ 2 →
      (∀ n, p.Reaches n → n.isValidChar ∧ leastOfSize (1 + p.owed + 1) ≤ n) →
      Accounts 1 ([], .inside p) :=
    fun p howed hvalid => accounts_inside ⟨by omega, hvalid⟩
  unfold readFirst
  dsimp only
  -- where the first byte alone leaves too many numbers, the range of the second one is narrower
  repeat' split
  all_goals first
    | exact hchar _
    | refine hinside _ (by simp [Pending.begun]) fun n hn => ?_
      simp only [Pending.Reaches, Pending.begun, Nat.reduceSub, Nat.reducePow] at hn
      simp only [Pending.begun, leastOfSize, Nat.reduceAdd, Nat.reduceLT, Nat.reduceEqDiff,
        if_true, if_false, Nat.isValidChar]
      omega

/-- One more byte makes the text longer by as much, or it is held. -/
theorem Reading.Held.read {state : Reading} {held : Nat} (h : state.Held held) (b : UInt8) :
    Accounts (held + 1) (state.read b) := by
  cases h with
  | between =>
    rw [Nat.zero_add]
    exact accounts_readFirst b
  | @inside p _ hp =>
    rw [Reading.read]
    split
    next hb =>
      split
      next howed => exact accounts_char (hp.last howed hb)
      next owed howed => exact accounts_inside (hp.more howed hb)
    next =>
      obtain ⟨held', hheld, hle⟩ := accounts_readFirst b
      have htotal := hp.total_le
      refine ⟨held', hheld, ?_⟩
      dsimp only
      rw [utf8.encode_cons, List.length_append, length_code_replacementChar]
      omega

/-- The text of bytes, written in bytes, is no shorter than they are. -/
theorem Reading.Held.length_le {state : Reading} {held : Nat} (h : state.Held held)
    (bytes : List UInt8) :
    bytes.length + held ≤ (utf8.encode (decodeFrom state bytes)).length := by
  induction bytes generalizing state held with
  | nil =>
    rw [decodeFrom_nil, List.length_nil, Nat.zero_add]
    cases h with
    | between => exact Nat.zero_le _
    | inside hp =>
      have htotal := hp.total_le
      rw [Reading.atEnd, utf8.encode_singleton, length_code_replacementChar]
      omega
  | cons b bytes ih =>
    obtain ⟨held', hheld, hle⟩ := h.read b
    have hrest := ih hheld
    rw [decodeFrom_cons, utf8.encode_append, List.length_append, List.length_cons]
    omega

theorem length_le_length_encode_decodeLossy (bytes : List UInt8) :
    bytes.length ≤ (utf8.encode (decodeLossy bytes)).length :=
  Reading.Held.between.length_le bytes

/-! ## Strings -/

theorem utf8ByteSize_eq (s : String) : s.utf8ByteSize = (utf8.encode s.toList).length := by
  rw [← bytes_eq_encode, bytes, Array.length_toList]
  rfl

theorem length_le_utf8ByteSize_ofList (cs : List Char) :
    cs.length ≤ (String.ofList cs).utf8ByteSize := by
  rw [utf8ByteSize_eq, String.toList_ofList]
  exact utf8.length_le_length_encode cs

theorem length_le_utf8ByteSize (s : String) : s.length ≤ s.utf8ByteSize := by
  have h := length_le_utf8ByteSize_ofList s.toList
  rwa [String.ofList_toList, String.length_toList] at h

theorem length_le_utf8ByteSize_decodeLossy (bytes : List UInt8) :
    bytes.length ≤ (String.ofList (decodeLossy bytes)).utf8ByteSize := by
  rw [utf8ByteSize_eq, String.toList_ofList]
  exact length_le_length_encode_decodeLossy bytes

end Descent.Text
