import Descent.Proofs.Bytes
import Descent.Proofs.Excerpts

/-!
# Markers of characters and of bytes

A text may be kept as characters or as bytes, and a place in it has an excerpt either way.  Reading
the bytes of a character does to the lines in bytes what reading the character does to the lines
(`LinesRead.foldl_after_code`), since no byte of another character is the one that ends lines.  So
both excerpts have the same numbered lines, and the same one is marked.

The marker is indented by the offset, and the offset counts elements of the input: characters in one
excerpt and bytes in the other.  The line above it is shown in characters both times.  So the marker
of the bytes is too far to the right by as many bytes as the characters before the place take beyond
the first of each (`Text.furtherBytes`), and it is in its place only behind ASCII characters.

* `excerpts_differ_by_marker`: how both excerpts compare.
* `marker_of_bytes_is_misplaced`: they are not the same.
-/

namespace Descent

/-! ## Lines in bytes -/

namespace Text

theorem ofBytes_encode (cs : List Char) : ofBytes (utf8.encode cs) = String.ofList cs := by
  rw [ofBytes, decodeLossy_encode]

/-- Lines end in bytes where they end in characters. -/
theorem asciiTest_isNewline :
    AsciiTest (Element.isNewline : Char → Bool) (Element.isNewline : UInt8 → Bool) where
  isAscii c h := by
    obtain rfl : c = '\n' := beq_iff_eq.mp h
    decide
  same c h := by
    have hbyte : (UInt8.ofNat c.toNat).toNat = c.toNat := toNat_byte (Nat.lt_trans h (by decide))
    show (UInt8.ofNat c.toNat == 10) = (c == '\n')
    rw [Bool.eq_iff_iff, beq_iff_eq, beq_iff_eq, ← UInt8.toNat_inj, hbyte, ← Char.toNat_inj]
    rfl
  lt b h := by
    obtain rfl : b = 10 := beq_iff_eq.mp h
    decide

/-- The number of bytes that characters take beyond the first of each. -/
def furtherBytes (cs : List Char) : Nat := (cs.map fun c => (utf8.code c).length - 1).sum

theorem length_encode (cs : List Char) : (utf8.encode cs).length = cs.length + furtherBytes cs := by
  induction cs with
  | nil => rfl
  | cons c cs ih =>
    have hword : 0 < (utf8.code c).length := List.length_pos_iff.mpr (utf8.code_ne_nil c)
    rw [utf8.encode_cons, List.length_append, ih, furtherBytes, furtherBytes, List.map_cons,
      List.sum_cons, List.length_cons]
    omega

theorem isAscii_iff_length_code (c : Char) : IsAscii c ↔ (utf8.code c).length = 1 := by
  rw [length_code, Char.utf8Size_eq_one_iff, UInt32.le_iff_toNat_le]
  exact Nat.lt_succ_iff

/-- Only ASCII characters take no further bytes. -/
theorem furtherBytes_eq_zero_iff (cs : List Char) :
    furtherBytes cs = 0 ↔ ∀ c ∈ cs, IsAscii c := by
  rw [furtherBytes, List.sum_eq_zero_iff_forall_eq_nat, List.forall_mem_map]
  refine forall₂_congr fun c _ => ?_
  have hword : 0 < (utf8.code c).length := List.length_pos_iff.mpr (utf8.code_ne_nil c)
  rw [isAscii_iff_length_code]
  omega

end Text

namespace LinesRead

/-- What has been read, in bytes. -/
def encoded (read : LinesRead Char) : LinesRead UInt8 :=
  ⟨read.above.map Text.utf8.encode, Text.utf8.encode read.before⟩

theorem foldl_after_of_other {α : Type} [Element α] {es : List α}
    (h : ∀ e ∈ es, Element.isNewline e = false) (read : LinesRead α) :
    es.foldl after read = ⟨read.above, read.before ++ es⟩ := by
  induction es generalizing read with
  | nil => rw [List.foldl_nil, List.append_nil]
  | cons e es ih =>
    rw [List.foldl_cons, ih fun f hf => h f (List.mem_cons_of_mem _ hf),
      after_other (h e List.mem_cons_self), List.append_assoc, List.singleton_append]

/-- Reading the bytes of a character reads the character, in bytes. -/
theorem foldl_after_code (read : LinesRead Char) (c : Char) :
    (Text.utf8.code c).foldl after read.encoded = (read.after c).encoded := by
  cases h : Element.isNewline c with
  | true =>
    have hascii := Text.asciiTest_isNewline.isAscii c h
    have hbyte := Text.asciiTest_isNewline.same c hascii
    rw [Text.code_of_isAscii hascii, List.foldl_cons, List.foldl_nil,
      after_newline (hbyte.trans h), after_newline h, encoded, encoded, List.map_append,
      List.map_cons, List.map_nil, Text.utf8.encode_nil]
  | false =>
    have hother : ∀ b ∈ Text.utf8.code c, Element.isNewline b = false := by
      intro b hb
      have hnot := Text.asciiTest_isNewline.fits_not.accepted c (by rw [h]; rfl) b hb
      rwa [Bool.not_eq_eq_eq_not] at hnot
    rw [foldl_after_of_other hother, after_other h, encoded, encoded, Text.utf8.encode_append,
      Text.utf8.encode_singleton]

theorem of_encode (cs : List Char) : of (Text.utf8.encode cs) = (of cs).encoded := by
  induction cs using List.reverseRecOn with
  | nil => rfl
  | append_singleton cs c ih =>
    rw [Text.utf8.encode_append, Text.utf8.encode_singleton, of_append, ih, foldl_after_code,
      of_concat]

end LinesRead

theorem splitLines_encode (cs : List Char) :
    splitLines (Text.utf8.encode cs) = (splitLines cs).map Text.utf8.encode := by
  rw [LinesRead.splitLines_eq, LinesRead.splitLines_eq, LinesRead.of_encode, LinesRead.encoded,
    List.map_append, List.map_cons, List.map_nil]

theorem lineNumbered_encode (cs : List Char) (number : Nat) :
    lineNumbered (Text.utf8.encode cs) number = Text.utf8.encode (lineNumbered cs number) := by
  rw [lineNumbered, lineNumbered, splitLines_encode, List.getD_eq_getElem?_getD,
    List.getD_eq_getElem?_getD, List.getElem?_map]
  cases (splitLines cs)[number - 1]? <;> rfl

/-! ## One place, in characters and in bytes -/

namespace ExcerptLine

/-- The excerpt line with its marker further to the right by so much. -/
def shifted (further : Nat) : ExcerptLine → ExcerptLine
  | code number marked text => code number marked text
  | marker indent => marker (indent + further)

theorem shifted_zero (line : ExcerptLine) : line.shifted 0 = line := by
  cases line <;> rfl

theorem length_written_marker (indent : Nat) :
    (marker indent).written.length = indent + "^--- here".length := by
  rw [written, String.length_append, String.length_ofList, List.length_replicate]

end ExcerptLine

namespace Location

/-- The location of a character of a string. -/
def ofChars (s : String) (index : Nat) : Location Char := ⟨s.toList, index⟩

/-- The location of the first byte of a character of a string. -/
def ofBytes (s : String) (index : Nat) : Location UInt8 := ⟨Text.bytes s, Text.byteOffset s index⟩

variable (s : String) (index : Nat)

theorem source_ofBytes : (ofBytes s index).source = Text.utf8.encode (ofChars s index).source :=
  Text.bytes_eq_encode s

theorem position_ofBytes :
    (ofBytes s index).position = (Text.utf8.encode (s.toList.take index)).length :=
  Text.byteOffset_eq s index

theorem source_ofBytes_eq_append : (ofBytes s index).source =
    Text.utf8.encode (s.toList.take index) ++ Text.utf8.encode (s.toList.drop index) := by
  rw [source_ofBytes, ← Text.utf8.encode_append, List.take_append_drop, ofChars]

theorem position_ofBytes_le : (ofBytes s index).position ≤ (ofBytes s index).source.length := by
  rw [position_ofBytes, source_ofBytes_eq_append, List.length_append]
  exact Nat.le_add_right _ _

/-- What has been read before the place is the same, in bytes. -/
theorem lead_ofBytes : (ofBytes s index).lead = (ofChars s index).lead.encoded := by
  rw [lead, position_ofBytes, source_ofBytes_eq_append, List.take_left, LinesRead.of_encode, lead,
    ofChars]

theorem line_ofBytes : (ofBytes s index).readable.line = (ofChars s index).readable.line := by
  rw [readable_eq, readable_eq, lead_ofBytes, LinesRead.encoded, List.length_map]

theorem firstShown_ofBytes : (ofBytes s index).firstShown = (ofChars s index).firstShown := by
  rw [firstShown, firstShown, line_ofBytes]

theorem lastShown_ofBytes : (ofBytes s index).lastShown = (ofChars s index).lastShown := by
  rw [lastShown, lastShown, line_ofBytes, source_ofBytes, splitLines_encode, List.length_map]

theorem plainLines_ofBytes (first count : Nat) :
    (ofBytes s index).plainLines Text.ofBytes first count =
      (ofChars s index).plainLines String.ofList first count := by
  refine List.map_congr_left fun number _ => ?_
  rw [source_ofBytes, lineNumbered_encode, Text.ofBytes_encode]

theorem markedLine_ofBytes :
    (ofBytes s index).markedLine Text.ofBytes = (ofChars s index).markedLine String.ofList := by
  rw [markedLine, markedLine, line_ofBytes, source_ofBytes, lineNumbered_encode,
    Text.ofBytes_encode]

variable {s index}

/-- In the input, the marker of the bytes is too far to the right by the further bytes of the
characters before it in its line. -/
theorem indent_ofBytes (h : index ≤ s.length) : (ofBytes s index).indent =
    (ofChars s index).indent + Text.furtherBytes (ofChars s index).lead.before := by
  have hoffset : (ofBytes s index).readable.offset =
      (ofChars s index).readable.offset + Text.furtherBytes (ofChars s index).lead.before := by
    have hposition : (ofChars s index).position ≤ (ofChars s index).source.length := by
      rwa [ofChars, String.length_toList]
    rw [readable_of_le (position_ofBytes_le s index), readable_of_le hposition, lead_ofBytes]
    exact Text.length_encode _
  rw [indent, indent, line_ofBytes, hoffset, Nat.add_assoc]

theorem map_shifted_plainLines {α : Type} [Element α] (loc : Location α) (text : List α → String)
    (further first count : Nat) :
    (loc.plainLines text first count).map (ExcerptLine.shifted further) =
      loc.plainLines text first count := by
  rw [plainLines, List.map_map]
  rfl

theorem excerpt_ofBytes (h : index ≤ s.length) : (ofBytes s index).excerpt =
    (ofChars s index).excerpt.map
      (.shifted (Text.furtherBytes (ofChars s index).lead.before)) := by
  rw [excerpt_eq (ofBytes s index) Text.text?_bytes,
    excerpt_eq (ofChars s index) Text.text?_chars, List.map_append,
    List.map_append, map_shifted_plainLines, map_shifted_plainLines, List.map_cons, List.map_cons,
    List.map_nil, plainLines_ofBytes, plainLines_ofBytes, markedLine_ofBytes, indent_ofBytes h,
    firstShown_ofBytes, lastShown_ofBytes, line_ofBytes]
  rfl

/-- A marker cannot be moved without being seen. -/
theorem eq_zero_of_written_shifted {loc : Location Char} {further : Nat}
    (h : (loc.excerpt.map (.shifted further)).map ExcerptLine.written =
      loc.excerpt.map ExcerptLine.written) : further = 0 := by
  have hmem : ExcerptLine.marker loc.indent ∈ loc.excerpt :=
    loc.marker_mem_excerpt Text.text?_chars
  rw [List.map_map, List.map_inj_left] at h
  have hlength := congrArg String.length (h _ hmem)
  rw [Function.comp_apply, ExcerptLine.shifted, ExcerptLine.length_written_marker,
    ExcerptLine.length_written_marker] at hlength
  omega

theorem written_ofBytes_eq_iff (h : index ≤ s.length) :
    (ofBytes s index).excerpt.map ExcerptLine.written =
        (ofChars s index).excerpt.map ExcerptLine.written ↔
      ∀ c ∈ (ofChars s index).lead.before, Text.IsAscii c := by
  rw [excerpt_ofBytes h, ← Text.furtherBytes_eq_zero_iff]
  refine ⟨eq_zero_of_written_shifted, fun hzero => ?_⟩
  rw [hzero, funext ExcerptLine.shifted_zero, List.map_id']

/-- How the excerpts of one place compare, in the characters of a string and in its bytes. -/
structure DifferByMarker (s : String) (index : Nat) : Prop where
  /-- They have the same numbered lines, and the same one is marked.  The marker of the bytes stands
  further to the right, by the further bytes of the characters before the place in its line. -/
  excerpt : (ofBytes s index).excerpt = (ofChars s index).excerpt.map
    (.shifted (Text.furtherBytes (ofChars s index).lead.before))
  /-- So they are the same behind ASCII characters only. -/
  excerpt_eq_iff : (ofBytes s index).excerpt = (ofChars s index).excerpt ↔
    ∀ c ∈ (ofChars s index).lead.before, Text.IsAscii c
  /-- Written out they are the same behind ASCII characters only as well, if there is room. -/
  contextLines_eq_iff : (ofBytes s index).indent ≤ maxTextLength →
    ((ofBytes s index).contextLines = (ofChars s index).contextLines ↔
      ∀ c ∈ (ofChars s index).lead.before, Text.IsAscii c)

end Location

/-- **The excerpt of a text in bytes is that of its characters but for the marker.** -/
theorem excerpts_differ_by_marker (s : String) (index : Nat) (h : index ≤ s.length) :
    Location.DifferByMarker s index where
  excerpt := Location.excerpt_ofBytes h
  excerpt_eq_iff := by
    refine ⟨fun hsame => ?_, fun hascii => ?_⟩
    · exact (Location.written_ofBytes_eq_iff h).mp (by rw [hsame])
    · rw [Location.excerpt_ofBytes h, (Text.furtherBytes_eq_zero_iff _).mpr hascii,
        funext ExcerptLine.shifted_zero, List.map_id']
  contextLines_eq_iff hroom := by
    have hroom' : (Location.ofChars s index).indent ≤ maxTextLength := by
      rw [Location.indent_ofBytes h] at hroom
      exact Nat.le_of_add_right_le hroom
    rw [Location.contextLines_eq _ Text.text?_bytes, if_pos hroom,
      Location.contextLines_eq _ Text.text?_chars, if_pos hroom',
      Option.some_inj]
    exact Location.written_ofBytes_eq_iff h

theorem excerpts_differ_behind_accent :
    1 ≤ "é=".length ∧ Location.DifferByMarker "é=" 1 :=
  ⟨by decide, excerpts_differ_by_marker "é=" 1 (by decide)⟩

/-- Behind one character of two bytes the markers stand in different places. -/
theorem marker_of_bytes_is_misplaced :
    ¬ ∀ (s : String) (index : Nat), index ≤ s.length →
      (Location.ofBytes s index).contextLines = (Location.ofChars s index).contextLines := by
  intro hsame
  have hbytes : (Location.ofBytes "é" 1).contextLines =
      some ["  > 1 | é", "          ^--- here"] := by decide
  have hchars : (Location.ofChars "é" 1).contextLines =
      some ["  > 1 | é", "         ^--- here"] := by decide
  have hlines := hsame "é" 1 (by decide)
  rw [hbytes, hchars] at hlines
  exact absurd hlines (by decide)

end Descent
