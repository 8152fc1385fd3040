import Descent.Proofs.Quoting
import Descent.Proofs.Rendering
import Mathlib.Order.Bounds.Basic

/-!
# Where bytes are cut

A preview of bytes stops before a byte that continues no character, or at the start.  The reader
that turns bytes into text goes on inside a character only with bytes that continue one
(`Text.Reading.IsRegular`).  So where a preview stops the reader stands between characters, or would
give up the one it is in, with the same replacement character that it gives at the end of the bytes.
The text of all bytes is the text of those before the stop and the text of those behind it
(`Text.decodeLossy_eq_append`).

In text the places where bytes can be cut are those between characters (`Text.isCut_bytes_iff`), and
none of its places is further than three bytes behind one of these, since no character takes more
than four.  Other bytes may continue characters without end, and the search for a place to stop
goes through all of them.

* `previews_stop_at_cuts`: previews of bytes quote what begins the text of the bytes.
* `truncation_hides_continuations`: what they leave out before the limit are bytes that continue
  characters, and these can be all.
-/

namespace Descent

namespace Text

/-! ## Bytes that continue a character -/

theorem isContinuation_iff {b : UInt8} :
    isContinuation b = true ↔ 0x80 ≤ b.toNat ∧ b.toNat ≤ 0xBF := by
  have hall : ∀ n : Fin 256,
      isContinuation (UInt8.ofFin n) = true ↔ 0x80 ≤ n.val ∧ n.val ≤ 0xBF := by
    decide +kernel
  exact hall b.toFin

namespace Reading

/-- Inside a character the reader accepts only bytes that continue one. -/
def IsRegular : Reading → Prop
  | .between => True
  | .inside p => 0x80 ≤ p.least ∧ p.greatest ≤ 0xBF

theorem isRegular_begun (value owed : Nat) : (inside (.begun value owed)).IsRegular :=
  ⟨Nat.le_refl _, Nat.le_refl _⟩

theorem isRegular_ite {P : Prop} [Decidable P] {r r' : List Char × Reading}
    (h : r.2.IsRegular) (h' : r'.2.IsRegular) : (if P then r else r').2.IsRegular := by
  split
  · exact h
  · exact h'

theorem isRegular_readFirst (b : UInt8) : (readFirst b).2.IsRegular := by
  unfold readFirst
  dsimp only
  repeat' refine isRegular_ite ?_ ?_
  any_goals exact trivial
  any_goals exact isRegular_begun _ _
  -- the first bytes with a narrower range for the second one
  all_goals exact ⟨by decide, by decide⟩

variable {state : Reading}

theorem IsRegular.read (h : state.IsRegular) (b : UInt8) : (state.read b).2.IsRegular := by
  cases state with
  | between => exact isRegular_readFirst b
  | inside p =>
    rw [Reading.read]
    split
    · split
      · exact trivial
      · exact isRegular_begun _ _
    · exact isRegular_readFirst b

/-- A byte that continues no character is read as if the bytes before it had ended. -/
theorem IsRegular.read_of_not_continuation (h : state.IsRegular) {b : UInt8}
    (hb : isContinuation b = false) :
    state.read b = (state.atEnd ++ (readFirst b).1, (readFirst b).2) := by
  cases state with
  | between => rfl
  | inside p =>
    have hrejects : ¬ p.accepts b = true := by
      intro haccepts
      simp only [Pending.accepts, Bool.and_eq_true, decide_eq_true_eq] at haccepts
      have hcontinues : isContinuation b = true := isContinuation_iff.mpr
        ⟨Nat.le_trans h.1 haccepts.1, Nat.le_trans haccepts.2 h.2⟩
      exact absurd (hb.symm.trans hcontinues) (by decide)
    rw [Reading.read, if_neg hrejects]
    rfl

/-- The reader can be stopped before a byte that continues no character, and started again. -/
theorem IsRegular.decodeFrom_append_cons (h : state.IsRegular) (before behind : List UInt8)
    {b : UInt8} (hb : isContinuation b = false) :
    decodeFrom state (before ++ b :: behind) =
      decodeFrom state before ++ decodeLossy (b :: behind) := by
  induction before generalizing state with
  | nil =>
    rw [List.nil_append, decodeFrom_cons, h.read_of_not_continuation hb, decodeFrom_nil,
      List.append_assoc]
    rfl
  | cons first before ih =>
    rw [List.cons_append, decodeFrom_cons, ih (h.read first), decodeFrom_cons, List.append_assoc]

end Reading

/-! ## Cuts -/

/-- A place where bytes can be cut: at their start, or before a byte that continues no character, or
behind all of them. -/
def IsCut (bytes : List UInt8) (place : Nat) : Prop :=
  place = 0 ∨ ∀ b ∈ bytes[place]?, isContinuation b = false

variable {bytes : List UInt8} {place stop : Nat}

/-- **Cutting bytes cuts their text.** -/
theorem decodeLossy_eq_append (h : IsCut bytes place) :
    decodeLossy bytes = decodeLossy (bytes.take place) ++ decodeLossy (bytes.drop place) := by
  rcases h with rfl | h
  · rfl
  · rcases Nat.lt_or_ge place bytes.length with hlt | hle
    · have hb := h _ (List.getElem?_eq_getElem hlt)
      have hregular : Reading.between.IsRegular := trivial
      have hread := hregular.decodeFrom_append_cons (bytes.take place) (bytes.drop (place + 1)) hb
      rw [← List.drop_eq_getElem_cons hlt, List.take_append_drop] at hread
      exact hread
    · rw [List.take_of_length_le hle, List.drop_eq_nil_of_le hle, decodeLossy_nil, List.append_nil]

theorem isCut_boundaryBefore (bytes : List UInt8) (stop : Nat) :
    IsCut bytes (boundaryBefore bytes stop) := by
  induction stop with
  | zero => exact Or.inl (boundaryBefore_zero bytes)
  | succ stop ih =>
    by_cases h : stop + 1 < bytes.length
    · rw [boundaryBefore_succ h]
      split
      next => exact ih
      next hb =>
        refine Or.inr fun b hmem => ?_
        rw [List.getElem?_eq_getElem h, Option.mem_some_iff] at hmem
        rw [← hmem]
        exact Bool.eq_false_iff.mpr hb
    · refine Or.inr fun b hmem => ?_
      rw [boundaryBefore, if_neg h, List.getElem?_eq_none (Nat.le_of_not_lt h)] at hmem
      exact absurd hmem (Option.not_mem_none b)

theorem le_boundaryBefore (h : IsCut bytes place) (hle : place ≤ stop) :
    place ≤ boundaryBefore bytes stop := by
  induction stop with
  | zero =>
    rw [boundaryBefore_zero]
    exact hle
  | succ stop ih =>
    by_cases hlt : stop + 1 < bytes.length
    · rw [boundaryBefore_succ hlt]
      split
      next hb =>
        have hne : place ≠ stop + 1 := by
          rintro rfl
          rcases h with h | h
          · exact absurd h (Nat.succ_ne_zero stop)
          · have hnot := h _ (List.getElem?_eq_getElem hlt)
            exact absurd (hb.symm.trans hnot) (by decide)
        exact ih (by omega)
      next => exact hle
    · rw [boundaryBefore, if_neg hlt]
      exact hle

/-- **Backing up stops at the last cut.** -/
theorem isGreatest_boundaryBefore (bytes : List UInt8) (stop : Nat) :
    IsGreatest {place | IsCut bytes place ∧ place ≤ stop} (boundaryBefore bytes stop) :=
  ⟨⟨isCut_boundaryBefore bytes stop, boundaryBefore_le bytes stop⟩,
    fun _ h => le_boundaryBefore h.1 h.2⟩

/-! ## Cuts in text -/

theorem isContinuation_ofNat {n : Nat} (h : n < 256) :
    isContinuation (UInt8.ofNat n) = true ↔ 0x80 ≤ n ∧ n ≤ 0xBF := by
  rw [isContinuation_iff, toNat_byte h]

/-- The first byte of a character continues none, and the others do.  There are no more than three
of these. -/
theorem exists_code_eq_cons (c : Char) : ∃ first more, utf8.code c = first :: more ∧
    isContinuation first = false ∧ (∀ b ∈ more, isContinuation b = true) ∧ more.length ≤ 3 := by
  have hrange := char_toNat_range c
  have hcode : utf8.code c = String.utf8EncodeChar c := rfl
  have hfirst : ∀ n < 256, n < 0x80 ∨ 0xC0 ≤ n → isContinuation (UInt8.ofNat n) = false := by
    intro n hn hout
    rw [Bool.eq_false_iff, ne_eq, isContinuation_ofNat hn]
    omega
  rw [hcode]
  have hlow : ∀ n, isContinuation (UInt8.ofNat (n % 64 + 0x80)) = true := fun n =>
    (isContinuation_ofNat (by omega)).mpr (by omega)
  rcases Nat.lt_or_ge c.toNat 0x80 with hone | hone
  · refine ⟨_, _, utf8EncodeChar_one hone, hfirst _ (by omega) (by omega), ?_, by simp⟩
    exact fun b hb => absurd hb List.not_mem_nil
  rcases Nat.lt_or_ge c.toNat 0x800 with htwo | htwo
  · refine ⟨_, _, utf8EncodeChar_two hone htwo, hfirst _ (by omega) (by omega), ?_, by simp⟩
    exact List.forall_mem_singleton.mpr (hlow _)
  rcases Nat.lt_or_ge c.toNat 0x10000 with hthree | hthree
  · refine ⟨_, _, utf8EncodeChar_three htwo hthree, hfirst _ (by omega) (by omega), ?_, by simp⟩
    exact List.forall_mem_cons.mpr ⟨hlow _, List.forall_mem_singleton.mpr (hlow _)⟩
  · refine ⟨_, _, utf8EncodeChar_four hthree, hfirst _ (by omega) (by omega), ?_, by simp⟩
    exact List.forall_mem_cons.mpr ⟨hlow _,
      List.forall_mem_cons.mpr ⟨hlow _, List.forall_mem_singleton.mpr (hlow _)⟩⟩

/-- Text can be cut between characters. -/
theorem isCut_encode_append (read rest : List Char) :
    IsCut (utf8.encode (read ++ rest)) (utf8.encode read).length := by
  refine Or.inr fun b hb => ?_
  rw [utf8.encode_append, List.getElem?_append_right (Nat.le_refl _), Nat.sub_self] at hb
  cases rest with
  | nil => exact absurd hb (Option.not_mem_none b)
  | cons c rest =>
    obtain ⟨first, more, hcode, hfirst, -, -⟩ := exists_code_eq_cons c
    rw [utf8.encode_cons, hcode] at hb
    obtain rfl := Option.some.inj hb
    exact hfirst

/-- Every place in text is between two characters, or no more than three bytes behind, at a byte
that continues the character there. -/
theorem exists_encode_le {cs : List Char} (h : place ≤ (utf8.encode cs).length) :
    ∃ read rest, read ++ rest = cs ∧ (utf8.encode read).length ≤ place ∧
      place ≤ (utf8.encode read).length + 3 ∧
      ((utf8.encode read).length < place →
        ∃ b, (utf8.encode cs)[place]? = some b ∧ isContinuation b = true) := by
  induction cs generalizing place with
  | nil =>
    obtain rfl := Nat.le_zero.mp h
    exact ⟨[], [], rfl, Nat.le_refl 0, Nat.zero_le _, fun hlt => absurd hlt (Nat.lt_irrefl 0)⟩
  | cons c cs ih =>
    obtain ⟨first, more, hcode, -, hmore, hlength⟩ := exists_code_eq_cons c
    have hword : (utf8.code c).length = more.length + 1 := by rw [hcode, List.length_cons]
    rw [utf8.encode_cons, List.length_append] at h
    rcases Nat.lt_or_ge place (utf8.code c).length with hlt | hge
    · refine ⟨[], c :: cs, rfl, Nat.zero_le _, ?_, fun hpos => ?_⟩
      · rw [utf8.encode_nil, List.length_nil]
        omega
      · obtain ⟨before, rfl⟩ := Nat.exists_eq_succ_of_ne_zero (Nat.ne_of_gt hpos)
        have hbefore : before < more.length := by omega
        refine ⟨more[before], ?_, hmore _ (List.getElem_mem hbefore)⟩
        rw [utf8.encode_cons, List.getElem?_append_left hlt, hcode, List.getElem?_cons_succ,
          List.getElem?_eq_getElem hbefore]
    · have hbehind : place - (utf8.code c).length ≤ (utf8.encode cs).length := by omega
      obtain ⟨read, rest, rfl, hle, hnear, hinside⟩ := ih hbehind
      refine ⟨c :: read, rest, rfl, ?_, ?_, fun hlt => ?_⟩
      · rw [utf8.encode_cons, List.length_append]
        omega
      · rw [utf8.encode_cons, List.length_append]
        omega
      · rw [utf8.encode_cons, List.length_append] at hlt
        rw [utf8.encode_cons, List.getElem?_append_right hge]
        exact hinside (by omega)

/-- **Text is cut between characters,** and nowhere else. -/
theorem isCut_encode_iff {cs : List Char} (h : place ≤ (utf8.encode cs).length) :
    IsCut (utf8.encode cs) place ↔
      ∃ read rest, read ++ rest = cs ∧ place = (utf8.encode read).length := by
  constructor
  · intro hcut
    obtain ⟨read, rest, hcs, hle, -, hinside⟩ := exists_encode_le h
    refine ⟨read, rest, hcs, ?_⟩
    by_contra hne
    have hlt : (utf8.encode read).length < place := by omega
    obtain ⟨b, hb, hcontinues⟩ := hinside hlt
    rcases hcut with rfl | hcut
    · exact absurd hlt (Nat.not_lt_zero _)
    · exact absurd (hcontinues.symm.trans (hcut b hb)) (by decide)
  · rintro ⟨read, rest, rfl, rfl⟩
    exact isCut_encode_append read rest

/-- No place in text is far behind a cut. -/
theorem exists_isCut_encode {cs : List Char} (h : place ≤ (utf8.encode cs).length) :
    ∃ cut, IsCut (utf8.encode cs) cut ∧ cut ≤ place ∧ place ≤ cut + 3 := by
  obtain ⟨read, rest, rfl, hle, hnear, -⟩ := exists_encode_le h
  exact ⟨_, isCut_encode_append read rest, hle, hnear⟩

/-- The places where the bytes of a string can be cut are those before its characters and behind the
last one. -/
theorem isCut_bytes_iff {s : String} (h : place ≤ (Text.bytes s).length) :
    IsCut (Text.bytes s) place ↔ ∃ index ≤ s.length, place = byteOffset s index := by
  rw [bytes_eq_encode] at h ⊢
  rw [isCut_encode_iff h]
  constructor
  · rintro ⟨read, rest, hs, rfl⟩
    refine ⟨read.length, ?_, ?_⟩
    · rw [← String.length_toList, ← hs, List.length_append]
      exact Nat.le_add_right _ _
    · rw [byteOffset_eq, ← hs, List.take_left]
  · rintro ⟨index, -, rfl⟩
    have hparts := List.take_append_drop index s.toList
    exact ⟨s.toList.take index, s.toList.drop index, hparts, byteOffset_eq s index⟩

/-- Cuts stay cuts when bytes before them are left out. -/
theorem isCut_drop {start : Nat} (h : IsCut bytes place) :
    IsCut (bytes.drop start) (place - start) := by
  rcases Nat.le_total place start with hle | hle
  · exact Or.inl (Nat.sub_eq_zero_of_le hle)
  · rcases h with rfl | h
    · exact Or.inl (Nat.zero_sub start)
    · refine Or.inr fun b hb => h b ?_
      rwa [List.getElem?_drop, Nat.add_sub_cancel' hle] at hb

/-- Neither is a place far behind a cut in what is left of text, wherever that begins. -/
theorem exists_isCut_drop {s : String} {start : Nat}
    (h : place ≤ ((Text.bytes s).drop start).length) :
    ∃ cut, IsCut ((Text.bytes s).drop start) cut ∧ cut ≤ place ∧ place ≤ cut + 3 := by
  rw [List.length_drop] at h
  by_cases hplace : place = 0
  · exact ⟨0, Or.inl rfl, Nat.zero_le _, by omega⟩
  · have hwhole : start + place ≤ (utf8.encode s.toList).length := by
      rw [← bytes_eq_encode]
      omega
    obtain ⟨cut, hcut, hle, hnear⟩ := exists_isCut_encode hwhole
    rw [← bytes_eq_encode] at hcut
    exact ⟨cut - start, isCut_drop hcut, by omega, by omega⟩

end Text

/-! ## Where previews stop -/

section Previews

variable {bytes : List UInt8} {limit : Nat}

theorem isGreatest_previewBoundary (bytes : List UInt8) (limit : Nat) :
    IsGreatest {place | Text.IsCut bytes place ∧ place ≤ min limit bytes.length}
      (Element.previewBoundary bytes limit) :=
  Text.isGreatest_boundaryBefore bytes (min limit bytes.length)

/-- The place where a preview of bytes stops. -/
structure StopsAtCut (bytes : List UInt8) (limit : Nat) : Prop where
  le_limit : Element.previewBoundary bytes limit ≤ limit
  le_length : Element.previewBoundary bytes limit ≤ bytes.length
  /-- The text of the bytes is that of the bytes before the place and that of those behind it. -/
  text : ∃ shown hidden,
    Element.text? (bytes.take (Element.previewBoundary bytes limit)) = some shown ∧
      Element.text? (bytes.drop (Element.previewBoundary bytes limit)) = some hidden ∧
      Element.text? bytes = some (shown ++ hidden)
  /-- If the bytes are those of a string, the place is the last one between two of its characters
  that is within the limit. -/
  between : ∀ s, bytes = Text.bytes s →
    IsGreatest {place | (∃ index ≤ s.length, place = Text.byteOffset s index) ∧
      place ≤ min limit bytes.length} (Element.previewBoundary bytes limit)

theorem stopsAtCut (bytes : List UInt8) (limit : Nat) : StopsAtCut bytes limit := by
  have hgreatest := isGreatest_previewBoundary bytes limit
  obtain ⟨hcut, hle⟩ := hgreatest.1
  refine ⟨Nat.le_trans hle (Nat.min_le_left _ _), Nat.le_trans hle (Nat.min_le_right _ _), ?_, ?_⟩
  · refine ⟨_, _, rfl, rfl, ?_⟩
    rw [Text.text?_bytes, Text.ofBytes, Text.decodeLossy_eq_append hcut, String.ofList_append]
  · rintro s rfl
    have hplaces : {place | (∃ index ≤ s.length, place = Text.byteOffset s index) ∧
        place ≤ min limit (Text.bytes s).length} =
          {place | Text.IsCut (Text.bytes s) place ∧ place ≤ min limit (Text.bytes s).length} := by
      ext place
      refine and_congr_left fun hplace => ?_
      exact (Text.isCut_bytes_iff (Nat.le_trans hplace (Nat.min_le_right _ _))).symm
    rw [hplaces]
    exact hgreatest

/-- A preview of bytes that is cut short quotes those before the place where it stops. -/
theorem preview_of_lt {loc : Location UInt8} (h : previewLength < loc.rest.length) :
    loc.preview =
      Text.quoted (Text.ofBytes (loc.rest.take (Element.previewBoundary loc.rest previewLength))) ++
        "..." := by
  rw [Location.preview, if_pos h, Element.format_of_text (Text.text?_bytes _)]

end Previews

/-- **Previews of bytes are cut where their text can be cut.**  The place to stop is within the
limit, and the text of the bytes is the text of those before it and of those behind it; in the bytes
of a string it is the last one between characters.  So a preview that is cut short quotes what
begins the text of all bytes that are left, and has no replacement character that this has not. -/
theorem previews_stop_at_cuts :
    (∀ (bytes : List UInt8) (limit : Nat), StopsAtCut bytes limit) ∧
      ∀ loc : Location UInt8, previewLength < loc.rest.length →
        ∃ shown hidden, Element.text? loc.rest = some (shown ++ hidden) ∧
          loc.preview = Text.quoted shown ++ "..." := by
  refine ⟨stopsAtCut, fun loc hloc => ?_⟩
  obtain ⟨shown, hidden, hshown, -, htext⟩ := (stopsAtCut loc.rest previewLength).text
  refine ⟨shown, hidden, htext, ?_⟩
  rw [preview_of_lt hloc, ← Option.some.inj hshown]
  rfl

/-- Where the last byte of the limit would be half a character, the preview stops before it. -/
theorem preview_stops_before_accent :
    previewLength < (Location.mk (List.replicate 31 0x61 ++ [0xC3, 0xA9, 0x20]) 0).rest.length ∧
      StopsAtCut (List.replicate 31 0x61 ++ [0xC3, 0xA9, 0x20]) previewLength ∧
      Element.previewBoundary (List.replicate 31 (0x61 : UInt8) ++ [0xC3, 0xA9, 0x20])
        previewLength = 31 ∧
      ∃ shown hidden,
        Element.text? (List.replicate 31 (0x61 : UInt8) ++ [0xC3, 0xA9, 0x20]) =
            some (shown ++ hidden) ∧
          (Location.mk (List.replicate 31 (0x61 : UInt8) ++ [0xC3, 0xA9, 0x20]) 0).preview =
            Text.quoted shown ++ "..." :=
  ⟨by decide, previews_stop_at_cuts.1 _ _, by decide,
    previews_stop_at_cuts.2 (Location.mk (List.replicate 31 0x61 ++ [0xC3, 0xA9, 0x20]) 0)
      (by decide)⟩

/-! ## What previews leave out -/

theorem Text.not_isCut_iff {bytes : List UInt8} {place : Nat} : ¬ Text.IsCut bytes place ↔
    0 < place ∧ ∃ b, bytes[place]? = some b ∧ isContinuation b = true := by
  simp only [Text.IsCut, not_or, Nat.pos_iff_ne_zero, Option.mem_def, not_forall,
    Bool.not_eq_false, exists_prop, ne_eq]

/-- Bytes have no text only if there are none. -/
theorem Text.decodeLossy_eq_nil_iff {bytes : List UInt8} :
    Text.decodeLossy bytes = [] ↔ bytes = [] := by
  refine ⟨fun h => ?_, fun h => by rw [h, Text.decodeLossy_nil]⟩
  have hlength := Text.length_le_length_encode_decodeLossy bytes
  rw [h, Text.utf8.encode_nil] at hlength
  exact List.length_eq_zero_iff.mp (Nat.le_zero.mp hlength)

/-- What a preview of bytes leaves out before the limit, if there are bytes behind it. -/
structure HidesContinuations (bytes : List UInt8) (limit : Nat) : Prop where
  /-- From the place where the preview stops to the limit there are only bytes that continue a
  character. -/
  hidden : ∀ place, Element.previewBoundary bytes limit < place → place ≤ limit →
    ∃ b, bytes[place]? = some b ∧ isContinuation b = true
  /-- These are no more than three exactly if one of the last places up to the limit is a cut. -/
  near_iff : limit - 3 ≤ Element.previewBoundary bytes limit ↔
    ∃ place, Text.IsCut bytes place ∧ limit - 3 ≤ place ∧ place ≤ limit
  /-- They always are in what is left of text. -/
  near_of_text : ∀ s start, bytes = (Text.bytes s).drop start →
    limit - 3 ≤ Element.previewBoundary bytes limit
  /-- They are all bytes up to the limit exactly if all but the first continue a character. -/
  eq_zero_iff : Element.previewBoundary bytes limit = 0 ↔
    ∀ place, 0 < place → place ≤ limit → ∃ b, bytes[place]? = some b ∧ isContinuation b = true

theorem hidesContinuations {bytes : List UInt8} {limit : Nat} (h : limit < bytes.length) :
    HidesContinuations bytes limit := by
  have hgreatest := isGreatest_previewBoundary bytes limit
  rw [Nat.min_eq_left (Nat.le_of_lt h)] at hgreatest
  obtain ⟨⟨hcut, hle⟩, hlast⟩ := hgreatest
  have hhidden : ∀ place, Element.previewBoundary bytes limit < place → place ≤ limit →
      ∃ b, bytes[place]? = some b ∧ isContinuation b = true := by
    intro place hplace hlimit
    have hnot : ¬ Text.IsCut bytes place :=
      fun hcut' => absurd (hlast ⟨hcut', hlimit⟩) (Nat.not_le.mpr hplace)
    exact (Text.not_isCut_iff.mp hnot).2
  have hnear : ∀ place, Text.IsCut bytes place → limit - 3 ≤ place → place ≤ limit →
      limit - 3 ≤ Element.previewBoundary bytes limit :=
    fun place hcut' hplace hlimit => Nat.le_trans hplace (hlast ⟨hcut', hlimit⟩)
  refine ⟨hhidden, ⟨fun hle' => ⟨_, hcut, hle', hle⟩, ?_⟩, ?_, ⟨fun hzero => ?_, fun hall => ?_⟩⟩
  · rintro ⟨place, hcut', hplace, hlimit⟩
    exact hnear place hcut' hplace hlimit
  · rintro s start rfl
    obtain ⟨place, hcut', hlimit, hplace⟩ := Text.exists_isCut_drop (Nat.le_of_lt h)
    exact hnear place hcut' (by omega) hlimit
  · rw [hzero] at hhidden
    exact hhidden
  · by_contra hne
    have hpos := Nat.pos_of_ne_zero hne
    exact Text.not_isCut_iff.mpr ⟨hpos, hall _ hpos hle⟩ hcut

theorem preview_eq_empty_iff {loc : Location UInt8} (h : previewLength < loc.rest.length) :
    loc.preview = "\"\"..." ↔ Element.previewBoundary loc.rest previewLength = 0 := by
  have hempty : "\"\"...".toList = Text.quote [] ++ "...".toList := by decide
  have hne : loc.rest ≠ [] := List.length_pos_iff.mp (Nat.zero_lt_of_lt h)
  rw [preview_of_lt h, ← String.toList_inj, String.toList_append, hempty, Text.quoted,
    String.toList_ofList, Text.quote_append_inj, Text.ofBytes, String.toList_ofList,
    Text.decodeLossy_eq_nil_iff, List.take_eq_nil_iff]
  simp only [hne, or_false, and_true]

/-- **Truncation hides the bytes that continue a character.**  Where there are bytes behind the
limit, those that a preview leaves out before it are such bytes, and no more than three exactly if
one of the last places up to the limit is a cut.  So it is in what is left of text.  A preview of
the bytes quotes nothing exactly if all of them up to the limit, but for the first, continue a
character. -/
theorem truncation_hides_continuations (bytes : List UInt8) (limit : Nat)
    (h : limit < bytes.length) :
    HidesContinuations bytes limit ∧
      ∀ loc : Location UInt8, loc.rest = bytes → limit = previewLength →
        loc.preview = Text.quoted (Text.ofBytes
            (bytes.take (Element.previewBoundary bytes limit))) ++ "..." ∧
          (loc.preview = "\"\"..." ↔ ∀ place, 0 < place → place ≤ limit →
            ∃ b, bytes[place]? = some b ∧ isContinuation b = true) := by
  refine ⟨hidesContinuations h, ?_⟩
  rintro loc rfl rfl
  refine ⟨preview_of_lt h, ?_⟩
  rw [preview_eq_empty_iff h]
  exact (hidesContinuations h).eq_zero_iff

/-- Bytes that continue no character before them leave nothing to quote. -/
theorem stray_continuations_leave_nothing :
    previewLength < (List.replicate 40 (0x80 : UInt8)).length ∧
      HidesContinuations (List.replicate 40 0x80) previewLength ∧
      (Location.mk (List.replicate 40 (0x80 : UInt8)) 0).preview = "\"\"..." := by
  have hlength : previewLength < (List.replicate 40 (0x80 : UInt8)).length := by decide
  obtain ⟨hhides, hpreview⟩ := truncation_hides_continuations _ _ hlength
  refine ⟨hlength, hhides, ?_⟩
  rw [(hpreview ⟨List.replicate 40 0x80, 0⟩ (Location.rest_mk _ 0) rfl).2]
  intro place _ hplace
  refine ⟨0x80, ?_, by decide⟩
  rw [List.getElem?_replicate, if_pos]
  exact Nat.lt_of_le_of_lt hplace (by decide)

/-- Although each of these bytes can be shown on its own, none is. -/
theorem stray_continuations_are_hidden :
    (¬ ∀ (bytes : List UInt8) (limit : Nat), 4 ≤ limit → limit < bytes.length →
        limit - 3 ≤ Element.previewBoundary bytes limit) ∧
      Text.decodeLossy (List.replicate 5 0x80) =
        Text.decodeLossy ((List.replicate 5 0x80).take 4) ++
          Text.decodeLossy ((List.replicate 5 0x80).drop 4) := by
  refine ⟨fun hnear => ?_, by decide⟩
  exact absurd (hnear (List.replicate 5 0x80) 4 (by decide) (by decide)) (by decide)

end Descent
