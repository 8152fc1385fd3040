import Descent.Proofs.Lines
import Descent.Proofs.Replacement

/-!
# Excerpts

An excerpt shows the line of a location, up to two lines before it and up to two lines after it, and
a marker.  Which of the lines is the one to mark is decided by number: the number that was found on
the way to the location must be the number of one of the lines that the input was split into, or
nothing would be marked.  It is (`Location.line_mem`), also for a location beyond the end of the
input, which is then in its last line.

So an excerpt is a run of numbered lines with the marked one and its marker in the midst
(`Location.excerpt_eq`).  Written out, only the marked line begins with the mark, and only the
marker is one, whatever the lines of the input hold (`ExcerptLine.carriesMark_written`,
`ExcerptLine.isMarkerText_written`).  The marker is the one line that there may be no room for
(`Location.contextLines_eq`).  In the input there always is, because the line above the marker
reaches at least as far (`Location.indent_le_utf8ByteSize`).

* `excerpts_show_window`: what the excerpts of characters, of bytes and of other elements show.
-/

namespace Descent

/-! ## Lines as they are written -/

namespace ExcerptLine

/-- Whether the line is the numbered line of the location. -/
def isMarked : ExcerptLine → Bool
  | code _ marked _ => marked
  | marker _ => false

/-- Whether the line is the marker. -/
def isMarker : ExcerptLine → Bool
  | code _ _ _ => false
  | marker _ => true

/-- The line as text, were there room for it. -/
def written : ExcerptLine → String
  | code number marked text => gutter number marked ++ text
  | marker indent => String.ofList (List.replicate indent ' ') ++ "^--- here"

/-- Whether there is room for the line. -/
def Fits : ExcerptLine → Prop
  | code _ _ _ => True
  | marker indent => indent ≤ maxTextLength

/-- Whether a text begins with the mark of a line. -/
def carriesMark (text : String) : Bool := "  > ".toList.isPrefixOf text.toList

/-- Whether a text is that of a marker. -/
def isMarkerText (text : String) : Bool := text.toList.dropWhile (· == ' ') == "^--- here".toList

theorem render?_of_fits {line : ExcerptLine} (h : line.Fits) : line.render? = some line.written := by
  cases line with
  | code number marked text => rfl
  | marker indent => exact if_pos h

theorem render?_of_not_fits {line : ExcerptLine} (h : ¬ line.Fits) : line.render? = none := by
  cases line with
  | code number marked text => exact absurd trivial h
  | marker indent => exact if_neg h

theorem mapM_render?_of_fits {lines : List ExcerptLine} (h : ∀ line ∈ lines, line.Fits) :
    lines.mapM render? = some (lines.map written) := by
  induction lines with
  | nil => rfl
  | cons line lines ih =>
    rw [List.mapM_cons, render?_of_fits (h line List.mem_cons_self),
      ih fun line hline => h line (List.mem_cons_of_mem _ hline)]
    rfl

theorem mapM_render?_of_not_fits {lines : List ExcerptLine} {line : ExcerptLine}
    (hmem : line ∈ lines) (h : ¬ line.Fits) : lines.mapM render? = none := by
  obtain ⟨before, behind, rfl⟩ := List.append_of_mem hmem
  rw [List.mapM_append, List.mapM_cons, render?_of_not_fits h]
  cases before.mapM render? <;> rfl

/-- A number is written as a digit and perhaps more of them. -/
theorem exists_toDigits_eq_cons (number : Nat) :
    ∃ digit digits, Nat.toDigits 10 number = digit :: digits ∧ digit.isDigit = true := by
  obtain ⟨digit, digits, hdigits⟩ := List.exists_cons_of_ne_nil
    (Nat.toDigits_ne_nil (n := number) (b := 10))
  have hmem : digit ∈ Nat.toDigits 10 number := by
    rw [hdigits]
    exact List.mem_cons_self
  exact ⟨digit, digits, hdigits, Nat.isDigit_of_mem_toDigits (by decide) (by decide) hmem⟩

theorem toList_gutter (number : Nat) (marked : Bool) :
    (gutter number marked).toList = (if marked then "  > " else "    ").toList ++
      Nat.toDigits 10 number ++ " | ".toList := by
  rw [gutter, String.toList_append, String.toList_append, Nat.toString_eq_ofList_toDigits,
    String.toList_ofList]

/-- Only the numbered line of the location begins with the mark. -/
theorem carriesMark_written (line : ExcerptLine) : carriesMark line.written = line.isMarked := by
  cases line with
  | code number marked text =>
    rw [carriesMark, written, String.toList_append, toList_gutter]
    cases marked with
    | true => rfl
    | false => rfl
  | marker indent =>
    have hblanks : (String.ofList (List.replicate indent ' ')).toList = List.replicate indent ' ' :=
      String.toList_ofList
    rw [carriesMark, written, String.toList_append, hblanks]
    rcases indent with _ | _ | _ | indent <;> rfl

/-- No numbered line looks like a marker: behind the blanks there is its mark or its number. -/
theorem isMarkerText_written (line : ExcerptLine) : isMarkerText line.written = line.isMarker := by
  cases line with
  | code number marked text =>
    obtain ⟨digit, digits, hdigits, hdigit⟩ := exists_toDigits_eq_cons number
    rw [isMarkerText, written, String.toList_append, toList_gutter, hdigits]
    cases marked with
    | true => rfl
    | false =>
      -- behind the blanks of an unmarked line there is a digit, where a marker has its arrow
      have hblank : (digit == ' ') = false := by
        rw [beq_eq_false_iff_ne]
        rintro rfl
        exact absurd hdigit (by decide)
      have hmarker : (digit == '^') = false := by
        rw [beq_eq_false_iff_ne]
        rintro rfl
        exact absurd hdigit (by decide)
      simp [hblank, hmarker, isMarker]
  | marker indent =>
    rw [isMarkerText, written, String.toList_append, String.toList_ofList,
      List.dropWhile_append_of_pos fun c hc => by rw [List.eq_of_mem_replicate hc]; rfl]
    rfl

end ExcerptLine

/-! ## The texts of elements -/

namespace Text

/-- The text of bytes. -/
def ofBytes (bytes : List UInt8) : String := String.ofList (decodeLossy bytes)

theorem text?_chars (cs : List Char) : Element.text? cs = some (String.ofList cs) := rfl

theorem text?_bytes (bytes : List UInt8) : Element.text? bytes = some (ofBytes bytes) := rfl

end Text

variable {α : Type}

/-! ## Lines by their numbers -/

section Numbers

theorem zipIdx_eq_map_range' (lines : List (List α)) :
    lines.zipIdx 1 =
      (List.range' 1 lines.length).map fun number => (lines.getD (number - 1) [], number) := by
  refine List.ext_getElem (by simp) fun i h _ => ?_
  have hi : i < lines.length := by simpa using h
  simp [List.getElem?_eq_getElem hi, Nat.add_comm]

/-- The numbers that pass a test, if those in an interval pass it and no others. -/
theorem filter_range' {test : Nat → Bool} {total first last : Nat} (hfirst : 1 ≤ first)
    (hle : first ≤ last) (hlast : last ≤ total)
    (htest : ∀ n, 1 ≤ n → n ≤ total → (test n = true ↔ first ≤ n ∧ n ≤ last)) :
    (List.range' 1 total).filter test = List.range' first (last + 1 - first) := by
  obtain ⟨before, rfl⟩ : ∃ before, first = 1 + before := ⟨first - 1, by omega⟩
  obtain ⟨shown, rfl⟩ : ∃ shown, last = before + shown := ⟨last - before, by omega⟩
  obtain ⟨behind, rfl⟩ : ∃ behind, total = before + shown + behind :=
    ⟨total - (before + shown), by omega⟩
  have hnone : ∀ n ∈ List.range' 1 before, ¬ test n = true := by
    intro n hn
    rw [List.mem_range'_1] at hn
    rw [htest n (by omega) (by omega)]
    omega
  have hall : ∀ n ∈ List.range' (1 + before) shown, test n = true := by
    intro n hn
    rw [List.mem_range'_1] at hn
    rw [htest n (by omega) (by omega)]
    omega
  have hnone' : ∀ n ∈ List.range' (1 + (before + shown)) behind, ¬ test n = true := by
    intro n hn
    rw [List.mem_range'_1] at hn
    rw [htest n (by omega) (by omega)]
    omega
  rw [← List.range'_append_1, ← List.range'_append_1, List.filter_append, List.filter_append,
    List.filter_eq_nil_iff.mpr hnone, List.filter_eq_self.mpr hall,
    List.filter_eq_nil_iff.mpr hnone', List.nil_append, List.append_nil]
  congr 1
  omega

/-- An interval of numbers, split at one of them. -/
theorem range'_eq_append_cons {first line last : Nat} (h : first ≤ line) (h' : line ≤ last) :
    List.range' first (last + 1 - first) =
      List.range' first (line - first) ++ line :: List.range' (line + 1) (last - line) := by
  have hline : first + (line - first) = line := by omega
  have hcount : last + 1 - first = (line - first) + (last - line + 1) := by omega
  rw [hcount, ← List.range'_append_1, hline, List.range'_succ]

end Numbers

variable [Element α]

/-- The line of an input that has this number. -/
def lineNumbered (source : List α) (number : Nat) : List α :=
  (splitLines source).getD (number - 1) []

namespace Location

/-- The first line number that an excerpt shows. -/
def firstShown (loc : Location α) : Nat := max 1 (loc.readable.line - 2)

/-- The last line number that an excerpt shows. -/
def lastShown (loc : Location α) : Nat :=
  min (splitLines loc.source).length (loc.readable.line + 2)

/-- How far the marker is indented: by what stands before the text of its line, and the offset. -/
def indent (loc : Location α) : Nat :=
  (ExcerptLine.gutter loc.readable.line true).length + loc.readable.offset

/-- Numbered lines without a mark, so many from this number on. -/
def plainLines (loc : Location α) (text : List α → String) (first count : Nat) :
    List ExcerptLine :=
  (List.range' first count).map fun number =>
    .code number false (text (lineNumbered loc.source number))

/-- The line of the location, marked. -/
def markedLine (loc : Location α) (text : List α → String) : ExcerptLine :=
  .code loc.readable.line true (text (lineNumbered loc.source loc.readable.line))

variable (loc : Location α)

theorem line_mem : 1 ≤ loc.readable.line ∧ loc.readable.line ≤ (splitLines loc.source).length := by
  obtain ⟨below, hbelow⟩ := loc.exists_splitLines_source
  rw [hbelow, readable_eq, List.length_append, List.length_cons]
  dsimp only
  omega

/-- The line of the location is what the location cuts in two. -/
theorem lineNumbered_line :
    lineNumbered loc.source loc.readable.line =
      loc.lead.before ++ loc.rest.takeWhile fun e => !Element.isNewline e := by
  rw [lineNumbered, List.getD_eq_getElem?_getD, getElem?_splitLines, Option.getD_some]

theorem one_le_firstShown : 1 ≤ loc.firstShown := Nat.le_max_left _ _

theorem lastShown_le : loc.lastShown ≤ (splitLines loc.source).length := Nat.min_le_left _ _

theorem firstShown_le : loc.firstShown ≤ loc.readable.line := by
  have hmem := loc.line_mem
  unfold firstShown
  omega

theorem le_lastShown : loc.readable.line ≤ loc.lastShown := by
  have hmem := loc.line_mem
  unfold lastShown
  omega

theorem window_eq : window loc.source loc.readable.line =
    (List.range' loc.firstShown (loc.lastShown + 1 - loc.firstShown)).map fun number =>
      (lineNumbered loc.source number, number) := by
  have hle := Nat.le_trans loc.firstShown_le loc.le_lastShown
  rw [window, zipIdx_eq_map_range', List.filter_map,
    filter_range' loc.one_le_firstShown hle loc.lastShown_le]
  · rfl
  · intro number hone htotal
    simp only [Function.comp_apply, Bool.and_eq_true, decide_eq_true_eq, lastShown, firstShown]
    omega

/-! ## Excerpts of text -/

theorem flatMap_excerptAt {place : LinePosition} {text : Nat → String} {numbers : List Nat}
    (h : ∀ number ∈ numbers, number ≠ place.line) :
    numbers.flatMap (fun number => excerptAt place (text number) number) =
      numbers.map fun number => .code number false (text number) := by
  induction numbers with
  | nil => rfl
  | cons number numbers ih =>
    rw [List.flatMap_cons, ih fun n hn => h n (List.mem_cons_of_mem _ hn), excerptAt,
      if_neg (h number List.mem_cons_self), List.singleton_append, List.map_cons]

section Text

variable {text : List α → String} (htext : ∀ es : List α, Element.text? es = some (text es))

include htext

theorem excerpt_eq_flatMap : loc.excerpt =
    (window loc.source loc.readable.line).flatMap fun row =>
      excerptAt loc.readable (text row.1) row.2 := by
  have hrows : (window loc.source loc.readable.line).mapM
        (fun row => (Element.text? row.1).map (·, row.2)) =
      some ((window loc.source loc.readable.line).map fun row => (text row.1, row.2)) := by
    simp only [htext, Option.map_some]
    exact List.mapM_pure
  unfold excerpt
  dsimp only
  rw [hrows]
  exact List.flatMap_map _ _ _

/-- **An excerpt is a run of numbered lines, with the marker below the one of the location.** -/
theorem excerpt_eq : loc.excerpt =
    loc.plainLines text loc.firstShown (loc.readable.line - loc.firstShown) ++
      [loc.markedLine text, .marker loc.indent] ++
      loc.plainLines text (loc.readable.line + 1) (loc.lastShown - loc.readable.line) := by
  rw [loc.excerpt_eq_flatMap htext, window_eq, List.flatMap_map,
    range'_eq_append_cons loc.firstShown_le loc.le_lastShown, List.flatMap_append,
    List.flatMap_cons]
  rw [flatMap_excerptAt, flatMap_excerptAt, excerptAt, if_pos rfl, List.append_assoc]
  · rfl
  all_goals
    intro number hnumber
    rw [List.mem_range'_1] at hnumber
    omega

theorem marker_mem_excerpt : ExcerptLine.marker loc.indent ∈ loc.excerpt := by
  rw [loc.excerpt_eq htext]
  simp

/-- An excerpt can be written out if there is room for its marker. -/
theorem contextLines_eq : loc.contextLines =
    if loc.indent ≤ maxTextLength then some (loc.excerpt.map ExcerptLine.written) else none := by
  have hplain : ∀ first count, ∀ line ∈ loc.plainLines text first count, line.Fits := by
    intro first count line hline
    obtain ⟨number, -, rfl⟩ := List.mem_map.mp hline
    trivial
  split
  next hroom =>
    refine ExcerptLine.mapM_render?_of_fits fun line hline => ?_
    rw [loc.excerpt_eq htext, List.mem_append, List.mem_append, List.mem_cons,
      List.mem_singleton] at hline
    rcases hline with (hline | rfl | rfl) | hline
    · exact hplain _ _ line hline
    · trivial
    · exact hroom
    · exact hplain _ _ line hline
  next hroom => exact ExcerptLine.mapM_render?_of_not_fits (loc.marker_mem_excerpt htext) hroom

end Text

theorem excerpt_of_no_text (hnone : ∀ es : List α, Element.text? es = none) :
    loc.excerpt = [] := by
  unfold excerpt
  dsimp only
  simp only [hnone, Option.map_none]
  cases window loc.source loc.readable.line <;> rfl

theorem contextLines_of_no_text (hnone : ∀ es : List α, Element.text? es = none) :
    loc.contextLines = some [] := by
  rw [contextLines, loc.excerpt_of_no_text hnone]
  rfl

/-! ## One mark and one marker -/

/-- What holds of no unmarked line can be counted on the marked line and the marker. -/
theorem countP_excerpt {text : List α → String}
    (htext : ∀ es : List α, Element.text? es = some (text es)) {test : ExcerptLine → Bool}
    (htest : ∀ number line, test (.code number false line) = false) :
    loc.excerpt.countP test = [loc.markedLine text, .marker loc.indent].countP test := by
  have hplain : ∀ first count, (loc.plainLines text first count).countP test = 0 := by
    intro first count
    rw [List.countP_eq_zero]
    intro line hline
    obtain ⟨number, -, rfl⟩ := List.mem_map.mp hline
    rw [htest]
    exact Bool.false_ne_true
  rw [loc.excerpt_eq htext, List.countP_append, List.countP_append, hplain, hplain, Nat.zero_add,
    Nat.add_zero]

/-! ## Room for the marker -/

/-- In the input the marker is indented by no more bytes than the line above it takes. -/
theorem indent_le_utf8ByteSize {text : List α → String}
    (hsize : ∀ es : List α, es.length ≤ (text es).utf8ByteSize)
    (h : loc.position ≤ loc.source.length) :
    loc.indent ≤ (loc.markedLine text).written.utf8ByteSize := by
  have hline := hsize (lineNumbered loc.source loc.readable.line)
  have hgutter := Text.length_le_utf8ByteSize (ExcerptLine.gutter loc.readable.line true)
  have hoffset : loc.readable.offset ≤ (lineNumbered loc.source loc.readable.line).length := by
    rw [lineNumbered_line, readable_of_le h, List.length_append]
    exact Nat.le_add_right _ _
  rw [markedLine, ExcerptLine.written, String.utf8ByteSize_append, indent]
  omega

/-! ## What the marker stands below -/

/-- The marker of a location stands below its character in the line shown, or one past the end of
that line if there is no character of the line at the location. -/
inductive MarksPlace (loc : Location Char) (shown : List Char) : Prop
  | below (c : Char) : loc.source[loc.position]? = some c → c ≠ '\n' →
    shown[loc.indent]? = some c → MarksPlace loc shown
  | behind : (∀ c, loc.source[loc.position]? = some c → c = '\n') →
    loc.indent = shown.length → MarksPlace loc shown

theorem marksPlace {loc : Location Char} (h : loc.position ≤ loc.source.length) :
    loc.MarksPlace (loc.markedLine String.ofList).written.toList := by
  have hindent : loc.indent = ((ExcerptLine.gutter loc.readable.line true).toList ++
      loc.lead.before).length := by
    rw [indent, List.length_append, String.length_toList, readable_of_le h]
    rfl
  have hshown : (loc.markedLine String.ofList).written.toList =
      (ExcerptLine.gutter loc.readable.line true).toList ++ loc.lead.before ++
        loc.rest.takeWhile fun c => !Element.isNewline c := by
    rw [markedLine, ExcerptLine.written, String.toList_append, String.toList_ofList,
      lineNumbered_line, List.append_assoc]
  have hhere : loc.source[loc.position]? = loc.rest.head? := by
    rw [rest, List.head?_drop]
  -- behind the beginning of its line stands what the rest of the input begins with
  rw [hshown]
  cases hrest : loc.rest with
  | nil =>
    rw [hrest] at hhere
    refine .behind (fun c hc => ?_) (by rw [hindent, List.takeWhile_nil, List.append_nil])
    rw [hhere] at hc
    exact absurd hc (by simp)
  | cons c cs =>
    rw [hrest, List.head?_cons] at hhere
    by_cases hc : c = '\n'
    · have hnewline : Element.isNewline c = true := beq_iff_eq.mpr hc
      refine .behind (fun d hd => ?_) ?_
      · rw [hhere, Option.some.injEq] at hd
        rw [← hd, hc]
      · rw [hindent, List.takeWhile_cons_of_neg (by simp [hnewline]), List.append_nil]
    · have hother : Element.isNewline c = false := beq_eq_false_iff_ne.mpr hc
      refine .below c hhere hc ?_
      rw [hindent, List.takeWhile_cons_of_pos (by simp [hother]),
        List.getElem?_append_right (Nat.le_refl _), Nat.sub_self, List.getElem?_cons_zero]

/-- What an excerpt shows, for elements with this text. -/
structure ShowsWindow (loc : Location α) (text : List α → String) : Prop where
  /-- The line of the location is one of the input. -/
  line_mem : 1 ≤ loc.readable.line ∧ loc.readable.line ≤ (splitLines loc.source).length
  /-- The lines from two before to two after, as far as there are any, with their numbers, and below
  the line of the location a marker. -/
  excerpt : loc.excerpt =
    loc.plainLines text (max 1 (loc.readable.line - 2))
        (loc.readable.line - max 1 (loc.readable.line - 2)) ++
      [loc.markedLine text, .marker loc.indent] ++
      loc.plainLines text (loc.readable.line + 1)
        (min (splitLines loc.source).length (loc.readable.line + 2) - loc.readable.line)
  /-- They are written out if there is room for the marker. -/
  contextLines : loc.contextLines =
    if loc.indent ≤ maxTextLength then some (loc.excerpt.map ExcerptLine.written) else none
  /-- In the input there is, since the line above the marker is a text. -/
  room : loc.position ≤ loc.source.length →
    loc.indent ≤ (loc.markedLine text).written.utf8ByteSize
  /-- One line begins with the mark. -/
  mark : (loc.excerpt.map ExcerptLine.written).countP ExcerptLine.carriesMark = 1
  /-- One line is a marker. -/
  marker : (loc.excerpt.map ExcerptLine.written).countP ExcerptLine.isMarkerText = 1

theorem showsWindow {text : List α → String}
    (htext : ∀ es : List α, Element.text? es = some (text es))
    (hsize : ∀ es : List α, es.length ≤ (text es).utf8ByteSize) : loc.ShowsWindow text where
  line_mem := loc.line_mem
  excerpt := loc.excerpt_eq htext
  contextLines := loc.contextLines_eq htext
  room := loc.indent_le_utf8ByteSize hsize
  mark := by
    have hmark : ExcerptLine.carriesMark ∘ ExcerptLine.written = ExcerptLine.isMarked :=
      funext ExcerptLine.carriesMark_written
    rw [List.countP_map, hmark, loc.countP_excerpt htext fun _ _ => rfl]
    rfl
  marker := by
    have hmarker : ExcerptLine.isMarkerText ∘ ExcerptLine.written = ExcerptLine.isMarker :=
      funext ExcerptLine.isMarkerText_written
    rw [List.countP_map, hmarker, loc.countP_excerpt htext fun _ _ => rfl]
    rfl

end Location

/-- **Excerpts show the lines around a location and one marker.**  Of characters and of bytes they
are up to two lines before, the line of the location with the marker below it, and up to two lines
after.  Of characters the marker stands below the one at the location, or one past the end of its
line.  Elements without text have empty excerpts. -/
theorem excerpts_show_window :
    (∀ loc : Location Char, loc.ShowsWindow String.ofList ∧
      (loc.position ≤ loc.source.length →
        loc.MarksPlace (loc.markedLine String.ofList).written.toList)) ∧
    (∀ loc : Location UInt8, loc.ShowsWindow Text.ofBytes) ∧
    ∀ (α : Type) [Element α], (∀ es : List α, Element.text? es = none) →
      ∀ loc : Location α, loc.contextLines = some [] :=
  ⟨fun loc => ⟨loc.showsWindow Text.text?_chars Text.length_le_utf8ByteSize_ofList,
      Location.marksPlace⟩,
    fun loc => loc.showsWindow Text.text?_bytes Text.length_le_utf8ByteSize_decodeLossy,
    fun _ _ hnone loc => loc.contextLines_of_no_text hnone⟩

/-- At the end of a text that ends a line, the marker stands in a line of its own. -/
example : (Location.mk ['a', 'b', '\n'] 3).contextLines =
    some ["    1 | ab", "  > 2 | ", "        ^--- here"] := by
  decide

end Descent
