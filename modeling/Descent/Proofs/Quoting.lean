import Descent.Proofs.Coding

/-!
# Quoted text can be read back

A message shows text between quotes, with escapes for some characters.  A character is written as
itself, as a backslash and a letter, or as a backslash and its number between braces
(`Text.Spelled`).  Which of these it is shows in the first two characters, a letter belongs to one
character, and a number ends where its brace closes.  So no character's spelling begins that of
another, and escaping is a code (`Text.escaping`).

No spelling begins with a quote either.  So the closing quote is where quoted text ends, whatever
stands behind it (`Text.quote_append_inj`), and the dots behind a preview that was cut short are not
taken for dots of the input.

* `previews_unambiguous`: two previews of characters are the same exactly where they show the same
  characters and were both cut short or both not.
-/

namespace Descent

/-! ## Words before a mark -/

namespace Coding

variable {α α' : Type} {E : Coding α α'} {mark : α'} {es fs : List α} {xs ys : List α'}

/-- A mark that begins no word ends what is encoded. -/
theorem encode_append_cons_inj (hmark : ∀ e, (E.code e).head? ≠ some mark) :
    E.encode es ++ mark :: xs = E.encode fs ++ mark :: ys ↔ es = fs ∧ xs = ys := by
  have hword : ∀ e (rest behind : List α'), mark :: behind ≠ E.code e ++ rest := by
    intro e rest behind h
    obtain ⟨b, bs, hcode⟩ := List.exists_cons_of_ne_nil (E.code_ne_nil e)
    rw [hcode, List.cons_append] at h
    refine hmark e ?_
    rw [hcode, List.head?_cons, (List.cons.inj h).1]
  refine ⟨fun h => ?_, fun ⟨hes, hxs⟩ => by rw [hes, hxs]⟩
  induction es generalizing fs with
  | nil =>
    cases fs with
    | nil => exact ⟨rfl, (List.cons.inj h).2⟩
    | cons f fs =>
      rw [encode_nil, List.nil_append, encode_cons, List.append_assoc] at h
      exact absurd h (hword f _ _)
  | cons e es ih =>
    rw [encode_cons, List.append_assoc] at h
    cases fs with
    | nil =>
      rw [encode_nil, List.nil_append] at h
      exact absurd h.symm (hword e _ _)
    | cons f fs =>
      rw [encode_cons, List.append_assoc] at h
      obtain rfl := E.eq_of_append_eq h
      obtain ⟨rfl, hbehind⟩ := ih (List.append_cancel_left h)
      exact ⟨rfl, hbehind⟩

end Coding

namespace Text

/-! ## Numbers in hexadecimal -/

theorem digitChar_inj : ∀ m < 16, ∀ n < 16, m.digitChar = n.digitChar → m = n := by
  decide

/-- A number is written as its sixteenth is, if there is one, and a digit. -/
theorem toDigits_eq_concat (n : Nat) : Nat.toDigits 16 n =
    (if n < 16 then [] else Nat.toDigits 16 (n / 16)) ++ [(n % 16).digitChar] := by
  rw [Nat.toDigits_eq_if (by decide)]
  split
  next h => rw [Nat.mod_eq_of_lt h, List.nil_append]
  next => rfl

/-- Digits tell the number. -/
theorem eq_of_toDigits_eq {m n : Nat} (h : Nat.toDigits 16 m = Nat.toDigits 16 n) : m = n := by
  induction m using Nat.strongRecOn generalizing n with
  | ind m ih =>
    rw [toDigits_eq_concat m, toDigits_eq_concat n, List.append_singleton_inj] at h
    obtain ⟨hsixteenth, hdigit⟩ := h
    have hlow : m % 16 = n % 16 :=
      digitChar_inj _ (Nat.mod_lt _ (by decide)) _ (Nat.mod_lt _ (by decide)) hdigit
    have hhigh : m / 16 = n / 16 := by
      split at hsixteenth
      next hm =>
        split at hsixteenth
        next hn => omega
        next => exact absurd hsixteenth.symm Nat.toDigits_ne_nil
      next hm =>
        split at hsixteenth
        next => exact absurd hsixteenth Nat.toDigits_ne_nil
        next => exact ih (m / 16) (by omega) hsixteenth
    omega

/-- No digit is a brace. -/
theorem brace_notMem_toDigits (n : Nat) : '\x7d' ∉ Nat.toDigits 16 n := by
  induction n using Nat.strongRecOn with
  | ind n ih =>
    rw [toDigits_eq_concat, List.mem_append, List.mem_singleton, not_or]
    refine ⟨?_, (Nat.digitChar_ne '\x7d' (by decide)).symm⟩
    split
    · exact List.not_mem_nil
    · exact ih (n / 16) (by omega)

/-- A number ends where its brace closes. -/
theorem takeWhile_toDigits (n : Nat) (cs : List Char) :
    (Nat.toDigits 16 n ++ '\x7d' :: cs).takeWhile (· != '\x7d') = Nat.toDigits 16 n := by
  rw [List.takeWhile_append_of_pos fun c hc => ?_, List.takeWhile_cons_of_neg (by decide),
    List.append_nil]
  exact bne_iff_ne.mpr fun hbrace => brace_notMem_toDigits n (hbrace ▸ hc)

/-! ## Spellings of a character -/

/-- The letter that stands behind a backslash for a character, if it has one. -/
def letter? : Char → Option Char
  | '\x00' => some '0'
  | '\t' => some 't'
  | '\r' => some 'r'
  | '\n' => some 'n'
  | '\\' => some '\\'
  | '"' => some '"'
  | _ => none

/-- The three ways in which a character is written. -/
inductive Spelled (c : Char) : List Char → Prop
  | lettered {letter : Char} : letter? c = some letter → Spelled c ['\\', letter]
  | numbered : letter? c = none → Spelled c (numbered c)
  | itself : letter? c = none → Spelled c [c]

theorem spelled_escape (c : Char) : Spelled c (escape c) := by
  unfold escape
  split
  case h_7 =>
    have hletter : letter? c = none := by
      unfold letter?
      split <;> first | contradiction | rfl
    split
    · exact Spelled.numbered hletter
    · exact Spelled.itself hletter
  all_goals exact Spelled.lettered rfl

/-- A letter belongs to one character. -/
theorem letter?_inj {c d letter : Char} (hc : letter? c = some letter)
    (hd : letter? d = some letter) : c = d := by
  unfold letter? at hc hd
  split at hc <;> cases hc <;> split at hd <;> cases hd <;> rfl

/-- The letter before a number is none of the others. -/
theorem letter?_ne_u (c : Char) : letter? c ≠ some 'u' := by
  unfold letter?
  split <;> decide

theorem ne_backslash_of_letter? {c : Char} (h : letter? c = none) : c ≠ '\\' := by
  rintro rfl
  exact absurd h (by decide)

/-- No spelling is empty or begins with a quote. -/
theorem Spelled.exists_eq_cons {c : Char} {word : List Char} (h : Spelled c word) :
    ∃ first behind, word = first :: behind ∧ first ≠ '"' := by
  cases h with
  | lettered => exact ⟨_, _, rfl, by decide⟩
  | numbered => exact ⟨_, _, rfl, by decide⟩
  | itself hletter =>
    refine ⟨c, [], rfl, ?_⟩
    rintro rfl
    exact absurd hletter (by decide)

theorem numbered_append (c : Char) (cs : List Char) :
    numbered c ++ cs = '\\' :: 'u' :: '\x7b' :: (Nat.toDigits 16 c.toNat ++ '\x7d' :: cs) := by
  rw [numbered, List.cons_append, List.cons_append, List.cons_append, List.append_assoc,
    List.singleton_append]

theorem eq_of_numbered_append_eq {c d : Char} {cs ds : List Char}
    (h : numbered c ++ cs = numbered d ++ ds) : c = d := by
  rw [numbered_append, numbered_append] at h
  have hdigits := (List.cons.inj (List.cons.inj (List.cons.inj h).2).2).2
  have hread := congrArg (List.takeWhile (· != '\x7d')) hdigits
  rw [takeWhile_toDigits, takeWhile_toDigits] at hread
  exact Char.toNat_inj.mp (eq_of_toDigits_eq hread)

/-- **Spellings tell characters apart,** whatever stands behind them. -/
theorem Spelled.eq_of_append_eq {c d : Char} {word word' cs ds : List Char} (hc : Spelled c word)
    (hd : Spelled d word') (h : word ++ cs = word' ++ ds) : c = d := by
  cases hc with
  | lettered hletter =>
    cases hd with
    | lettered hletter' =>
      obtain rfl := (List.cons.inj (List.cons.inj h).2).1
      exact letter?_inj hletter hletter'
    | numbered =>
      rw [numbered_append] at h
      obtain rfl := (List.cons.inj (List.cons.inj h).2).1
      exact absurd hletter (letter?_ne_u c)
    | itself hletter' => exact absurd (List.cons.inj h).1.symm (ne_backslash_of_letter? hletter')
  | numbered =>
    cases hd with
    | lettered hletter' =>
      rw [numbered_append] at h
      obtain rfl := (List.cons.inj (List.cons.inj h).2).1
      exact absurd hletter' (letter?_ne_u d)
    | numbered => exact eq_of_numbered_append_eq h
    | itself hletter' =>
      rw [numbered_append] at h
      exact absurd (List.cons.inj h).1.symm (ne_backslash_of_letter? hletter')
  | itself hletter =>
    cases hd with
    | lettered => exact absurd (List.cons.inj h).1 (ne_backslash_of_letter? hletter)
    | numbered =>
      rw [numbered_append] at h
      exact absurd (List.cons.inj h).1 (ne_backslash_of_letter? hletter)
    | itself => exact (List.cons.inj h).1

/-- Characters as they are written between quotes. -/
def escaping : Coding Char Char where
  code := escape
  code_ne_nil c := by
    obtain ⟨first, behind, hword, -⟩ := (spelled_escape c).exists_eq_cons
    rw [hword]
    exact List.cons_ne_nil _ _
  eq_of_append_eq := (spelled_escape _).eq_of_append_eq (spelled_escape _)

/-! ## Between quotes -/

theorem quote_append (text behind : List Char) :
    quote text ++ behind = '"' :: (escaping.encode text ++ '"' :: behind) := by
  rw [quote_eq, List.cons_append, List.append_assoc, List.singleton_append]
  rfl

theorem head?_escaping_ne_quote (c : Char) : (escaping.code c).head? ≠ some '"' := by
  obtain ⟨first, behind, hword, hfirst⟩ := (spelled_escape c).exists_eq_cons
  have hcode : escaping.code c = first :: behind := hword
  rwa [hcode, List.head?_cons, ne_eq, Option.some_inj]

/-- Quoted text ends where its quote closes. -/
theorem quote_append_inj {text text' behind behind' : List Char} :
    quote text ++ behind = quote text' ++ behind' ↔ text = text' ∧ behind = behind' := by
  rw [quote_append, quote_append, List.cons_inj_right,
    Coding.encode_append_cons_inj head?_escaping_ne_quote]

end Text

/-! ## Previews of characters -/

namespace Location

/-- A preview shows the first characters that are left, and dots behind them if there are more. -/
theorem toList_preview (loc : Location Char) : loc.preview.toList =
    Text.quote (loc.rest.take previewLength) ++
      if previewLength < loc.rest.length then "...".toList else [] := by
  have hformat : ∀ cs : List Char, (Element.format cs).toList = Text.quote cs := by
    intro cs
    have htext : Element.text? cs = some (String.ofList cs) := rfl
    rw [Element.format_of_text htext, Text.quoted, String.toList_ofList, String.toList_ofList]
  rw [preview]
  split
  next h =>
    have hboundary : Element.previewBoundary loc.rest previewLength = previewLength :=
      Nat.min_eq_left (Nat.le_of_lt h)
    rw [String.toList_append, hformat, hboundary]
  next h => rw [hformat, List.take_of_length_le (Nat.le_of_not_lt h), List.append_nil]

/-- Dots are the same where both previews have them or both have none. -/
theorem dots_inj {P Q : Prop} [Decidable P] [Decidable Q] :
    ((if P then "...".toList else []) = if Q then "...".toList else []) ↔ (P ↔ Q) := by
  have hdots : "...".toList ≠ [] := by decide
  by_cases hP : P
  · by_cases hQ : Q
    · simp only [hP, hQ]
    · simp only [hP, hQ, if_true, if_false, hdots, iff_false, not_true]
  · by_cases hQ : Q
    · simp only [hP, hQ, if_true, if_false, hdots.symm, false_iff, not_true]
    · simp only [hP, hQ]

end Location

/-- **Previews of characters are unambiguous.**  At two locations, of one input or of two, they are
the same text exactly if as many characters are the same as a preview shows, and what is left of the
inputs is either the same and was shown whole, or both times more than was shown. -/
theorem previews_unambiguous (loc loc' : Location Char) :
    loc.preview = loc'.preview ↔
      loc.rest.take previewLength = loc'.rest.take previewLength ∧
        (loc.rest.length ≤ previewLength ∧ loc'.rest.length ≤ previewLength ∧
            loc.rest = loc'.rest ∨
          previewLength < loc.rest.length ∧ previewLength < loc'.rest.length) := by
  rw [← String.toList_inj, loc.toList_preview, loc'.toList_preview, Text.quote_append_inj,
    Location.dots_inj]
  refine and_congr_right fun hshown => ?_
  constructor
  · intro hcut
    by_cases h : previewLength < loc.rest.length
    · exact Or.inr ⟨h, hcut.mp h⟩
    · have hle := Nat.le_of_not_lt h
      have hle' := Nat.le_of_not_lt fun h' => h (hcut.mpr h')
      rw [List.take_of_length_le hle, List.take_of_length_le hle'] at hshown
      exact Or.inl ⟨hle, hle', hshown⟩
  · rintro (⟨hle, hle', -⟩ | ⟨h, h'⟩)
    · exact iff_of_false (Nat.not_lt.mpr hle) (Nat.not_lt.mpr hle')
    · exact iff_of_true h h'

end Descent
