import Descent.Proofs.Consumption
import Descent.Proofs.Rows
import Descent.Proofs.Unfolding

/-!
# The span of a parse

A parser that yields only what it read cuts this span out of the input by two positions, and knows
nothing of the pieces which the parsers inside it read.  Still the span is these pieces put
together.  A piece and what remains behind it are what remained before it, and so are pieces one
behind the other (`Threads.flatten_append_remaining`); the whole span is determined by the same
equation.  So a span can be taken apart wherever a parse can be told as successes one behind the
other.  For a list these are the elements it collected with the delimiters between them
(`Chain.threads_matchOnly`); a delimiter without an element behind it and an iteration that was
dropped are not among them, because the list ends where its last element does.

* `matchOnly_span`: the span of a parser, of parsers with other outputs, of a sequence and of a
  list.
-/

namespace Descent

variable {α β γ δ : Type} {v : Verbosity}

/-! ## Cursors with a span between them -/

/-- The second cursor is in the same input as the first, at a position not before it. -/
structure Cursor.Spans (c next : Cursor α) : Prop where
  source_eq : next.source = c.source
  position_le : c.position ≤ next.position

theorem isPassage_spans : IsPassage (α := α) Cursor.Spans where
  refl _ := ⟨rfl, Nat.le_refl _⟩
  trans h h' := ⟨h'.source_eq.trans h.source_eq, Nat.le_trans h.position_le h'.position_le⟩
  advance c count := ⟨Cursor.source_advance c count, Cursor.position_advance_le c count⟩

/-- The span between two cursors is what has to stand before the rest. -/
theorem Cursor.Spans.eq_consumedSince_iff {c next : Cursor α} {xs : List α} (h : c.Spans next) :
    xs = next.consumedSince c ↔ xs ++ next.remaining = c.remaining := by
  rw [← Cursor.consumedSince_append_remaining h.source_eq h.position_le]
  exact (List.append_left_inj next.remaining).symm

/-- Every success of the step yields the input that it read. -/
def Step.YieldsSpan (s : Step α (List α)) : Prop :=
  ∀ c xs next, s.Accepts c xs next → xs ++ next.remaining = c.remaining

namespace Parser

section Outputs

variable {p : Parser α β} {c next : Cursor α} {xs : List α}

/-- A parser that yields its span succeeds with what it read. -/
theorem accepts_matchOnly_iff (hp : (p.run v).Keeps Cursor.Spans) :
    (p.matchOnly.run v).Accepts c xs next ↔
      (∃ x, (p.run v).Accepts c x next) ∧ xs ++ next.remaining = c.remaining := by
  rw [accepts_matchOnly]
  constructor
  · rintro ⟨x, hx, hspan⟩
    exact ⟨⟨x, hx⟩, (hp c x next hx).eq_consumedSince_iff.mp hspan⟩
  · rintro ⟨⟨x, hx⟩, hspan⟩
    exact ⟨x, hx, (hp c x next hx).eq_consumedSince_iff.mpr hspan⟩

theorem yieldsSpan_matchOnly (hp : (p.run v).Keeps Cursor.Spans) :
    (p.matchOnly.run v).YieldsSpan :=
  fun _ _ _ h => ((accepts_matchOnly_iff hp).mp h).2

/-! ## Outputs that are not looked at -/

theorem run_matchOnly_matchOnly (p : Parser α β) (v : Verbosity) :
    p.matchOnly.matchOnly.run v = p.matchOnly.run v := by
  funext c
  simp only [matchOnly, Run.bind_assoc, Run.pure_bind]

theorem run_replace_matchOnly (p : Parser α β) (value : γ) (v : Verbosity) :
    (p.replace value).matchOnly.run v = p.matchOnly.run v := by
  funext c
  simp only [matchOnly, replace, Run.bind_assoc, Run.pure_bind]

/-- A parser with a converter yields the span of the parser alone, where the converter accepts. -/
theorem accepts_convert_matchOnly {f : β → Except Fault γ} :
    ((p.convert f).matchOnly.run v).Accepts c xs next ↔
      (p.matchOnly.run v).Accepts c xs next ∧ ∃ x y, (p.run v).Accepts c x next ∧ f x = .ok y := by
  simp only [accepts_matchOnly, accepts_convert]
  constructor
  · rintro ⟨y, ⟨x, hx, hf⟩, hspan⟩
    exact ⟨⟨x, hx, hspan⟩, x, y, hx, hf⟩
  · rintro ⟨⟨-, -, hspan⟩, x, y, hx, hf⟩
    exact ⟨y, ⟨x, hx, hf⟩, hspan⟩

theorem accepts_named_matchOnly {label : String} :
    ((p.named label).matchOnly.run v).Accepts c xs next ↔
      (p.matchOnly.run v).Accepts c xs next := by
  simp only [accepts_matchOnly, accepts_named]

end Outputs

/-! ## Pieces one behind the other -/

/-- Pieces one behind the other, and what remains behind them, are what remained before them. -/
theorem Threads.flatten_append_remaining {qs : List (Parser α (List α))} {c next : Cursor α}
    {spans : List (List α)} (h : Threads v qs c spans next)
    (hqs : ∀ q ∈ qs, (q.run v).YieldsSpan) :
    spans.flatten ++ next.remaining = c.remaining := by
  induction h with
  | nil c => rfl
  | @cons q qs c mid next xs spans hq _ ih =>
    have hbehind := ih fun q hq => hqs q (List.mem_cons_of_mem _ hq)
    rw [List.flatten_cons, List.append_assoc, hbehind]
    exact hqs q List.mem_cons_self c xs mid hq

/-- **The span of a whole is that of its pieces.**  If the successes of a parser are those of
parsers of spans one behind the other, then its span is theirs put together. -/
theorem accepts_matchOnly_iff_threads {p : Parser α β} {c next : Cursor α} {text : List α}
    (qs : β → List (Parser α (List α))) (hp : (p.run v).Keeps Cursor.Spans)
    (hqs : ∀ x, ∀ q ∈ qs x, (q.run v).YieldsSpan)
    (hthreads : ∀ x, (p.run v).Accepts c x next → ∃ spans, Threads v (qs x) c spans next) :
    (p.matchOnly.run v).Accepts c text next ↔
      ∃ x spans, (p.run v).Accepts c x next ∧ Threads v (qs x) c spans next ∧
        text = spans.flatten := by
  rw [accepts_matchOnly_iff hp]
  constructor
  · rintro ⟨⟨x, hx⟩, htext⟩
    obtain ⟨spans, hspans⟩ := hthreads x hx
    have hpieces := hspans.flatten_append_remaining (hqs x)
    exact ⟨x, spans, hx, hspans, List.append_cancel_right (htext.trans hpieces.symm)⟩
  · rintro ⟨x, spans, hx, hspans, rfl⟩
    exact ⟨⟨x, hx⟩, hspans.flatten_append_remaining (hqs x)⟩

/-- Parsers succeed one behind the other, and so do the parsers of their spans. -/
theorem Threads.matchOnly {ps : List (Parser α β)} {c next : Cursor α} {xs : List β}
    (h : Threads v ps c xs next) :
    ∃ spans, Threads v (ps.map Parser.matchOnly) c spans next := by
  induction h with
  | nil c => exact ⟨[], Threads.nil c⟩
  | @cons p ps c mid next x xs hp _ ih =>
    obtain ⟨spans, hspans⟩ := ih
    exact ⟨_, Threads.cons (accepts_matchOnly.mpr ⟨x, hp, rfl⟩) hspans⟩

/-- What the parsers of spans succeed on, the parsers do. -/
theorem Threads.of_matchOnly {ps : List (Parser α β)} {c next : Cursor α} {spans : List (List α)}
    (h : Threads v (ps.map Parser.matchOnly) c spans next) : ∃ xs, Threads v ps c xs next := by
  induction ps generalizing c spans with
  | nil =>
    cases h
    exact ⟨[], Threads.nil _⟩
  | cons p ps ih =>
    cases h with
    | cons hp hspans =>
      obtain ⟨x, hx, -⟩ := accepts_matchOnly.mp hp
      obtain ⟨xs, hxs⟩ := ih hspans
      exact ⟨x :: xs, Threads.cons hx hxs⟩

/-- The span of a sequence is the spans of its parsers, run one behind the other. -/
theorem accepts_sequence_matchOnly_iff {ps : List (Parser α β)} {c next : Cursor α}
    {text : List α} (hps : ∀ p ∈ ps, (p.run v).Keeps Cursor.Spans) :
    ((sequence ps).matchOnly.run v).Accepts c text next ↔
      ∃ spans, Threads v (ps.map matchOnly) c spans next ∧ text = spans.flatten := by
  have hpieces : ∀ q ∈ ps.map matchOnly, (q.run v).YieldsSpan :=
    List.forall_mem_map.mpr fun p hp => yieldsSpan_matchOnly (hps p hp)
  rw [accepts_matchOnly_iff_threads (fun _ => ps.map matchOnly)
    (keeps_sequence isPassage_spans hps) (fun _ => hpieces)
    fun xs hxs => (accepts_sequence_iff_threads.mp hxs).matchOnly]
  constructor
  · rintro ⟨xs, spans, -, hspans, rfl⟩
    exact ⟨spans, hspans, rfl⟩
  · rintro ⟨spans, hspans, rfl⟩
    obtain ⟨xs, hxs⟩ := hspans.of_matchOnly
    exact ⟨xs, spans, accepts_sequence_iff_threads.mpr hxs, hspans, rfl⟩

end Parser

/-! ## Lists -/

namespace Repetition

open Descent.Parser

variable {p : Parser α β} {d : Parser α γ} {c next start : Cursor α} {x : β}
  {links : List (β × Cursor α)}

theorem mem_or_eq_of_mem_intersperse {sep y : δ} {ys : List δ} (h : y ∈ ys.intersperse sep) :
    y ∈ ys ∨ y = sep := by
  fun_induction List.intersperse sep ys with
  | case1 => exact absurd h List.not_mem_nil
  | case2 y' => exact Or.inl h
  | case3 y' ys hne ih =>
    rcases List.mem_cons.mp h with rfl | h
    · exact Or.inl List.mem_cons_self
    · rcases List.mem_cons.mp h with rfl | h
      · exact Or.inr rfl
      · exact (ih h).imp_left (List.mem_cons_of_mem _)

/-- Links behind an element are spans of elements with spans of delimiters between them. -/
theorem Follows.threads_matchOnly (h : Follows p d v c links) (hx : (p.run v).Accepts start x c) :
    ∃ spans, Threads v ((List.replicate (links.length + 1) p.matchOnly).intersperse d.matchOnly)
      start spans (endOf c links) := by
  induction h generalizing start x with
  | nil c => exact ⟨_, Threads.cons (accepts_matchOnly.mpr ⟨x, hx, rfl⟩) (Threads.nil c)⟩
  | cons hiter _ ih =>
    obtain ⟨y, mid, hd, hp⟩ := hiter
    obtain ⟨spans, hspans⟩ := ih hp
    have hbehind := Threads.cons (accepts_matchOnly.mpr ⟨y, hd, rfl⟩) hspans
    exact ⟨_, Threads.cons (accepts_matchOnly.mpr ⟨x, hx, rfl⟩) hbehind⟩

/-- **A list is its elements with the delimiters between them.**  A chain of links is as many spans
of elements, with a span of a delimiter between any two and none behind the last. -/
theorem Chain.threads_matchOnly (h : Chain p d v start links) :
    ∃ spans, Threads v ((List.replicate links.length p.matchOnly).intersperse d.matchOnly)
      start spans (endOf start links) := by
  cases h with
  | nil => exact ⟨[], Threads.nil start⟩
  | cons hx hfollows => exact hfollows.threads_matchOnly hx

/-- Without delimiters there is nothing between the elements. -/
theorem Follows.threads (h : Follows p nothing v c links) :
    Threads v (List.replicate links.length p) c (links.map Prod.fst) (endOf c links) := by
  induction h with
  | nil c => exact Threads.nil c
  | cons hiter _ ih => exact Threads.cons (iterates_nothing_iff.mp hiter) ih

theorem Chain.threads (h : Chain p nothing v start links) :
    Threads v (List.replicate links.length p) start (links.map Prod.fst) (endOf start links) := by
  cases h with
  | nil => exact Threads.nil start
  | cons hx hfollows => exact Threads.cons hx hfollows.threads

variable {name : String} {spare : Nat} {bounds : Bounds} {xs : List β}

theorem chain_of_accepts_listOf
    (h : ((listOf name spare bounds p d).run v).Accepts start xs next) :
    ∃ links, Chain p d v start links ∧ xs = links.map Prod.fst ∧ next = endOf start links := by
  obtain ⟨links, stop, hcollects, -, hxs, hnext⟩ := accepts_listOf h
  exact ⟨links, (collects_iff.mp hcollects).1, hxs, hnext⟩

/-- The span of a list is the spans of its elements with those of the delimiters between them. -/
theorem accepts_listOf_matchOnly_iff (hp : (p.run v).Keeps Cursor.Spans)
    (hd : (d.run v).Keeps Cursor.Spans) {text : List α} :
    ((listOf name spare bounds p d).matchOnly.run v).Accepts start text next ↔
      ∃ xs spans, ((listOf name spare bounds p d).run v).Accepts start xs next ∧
        Threads v ((List.replicate xs.length p.matchOnly).intersperse d.matchOnly)
          start spans next ∧
        text = spans.flatten := by
  refine accepts_matchOnly_iff_threads _ (keeps_listOf isPassage_spans hp hd) ?_ ?_
  · intro xs q hq
    rcases mem_or_eq_of_mem_intersperse hq with hq | rfl
    · obtain rfl := List.eq_of_mem_replicate hq
      exact yieldsSpan_matchOnly hp
    · exact yieldsSpan_matchOnly hd
  · intro xs h
    obtain ⟨links, hchain, rfl, rfl⟩ := chain_of_accepts_listOf h
    rw [List.length_map]
    exact hchain.threads_matchOnly

/-- The span of a list without delimiters is the spans of its elements. -/
theorem accepts_listOf_nothing_matchOnly_iff (hp : (p.run v).Keeps Cursor.Spans) {text : List α} :
    ((listOf name spare bounds p nothing).matchOnly.run v).Accepts start text next ↔
      ∃ xs spans, ((listOf name spare bounds p nothing).run v).Accepts start xs next ∧
        Threads v (List.replicate xs.length p.matchOnly) start spans next ∧
        text = spans.flatten := by
  refine accepts_matchOnly_iff_threads _
    (keeps_listOf isPassage_spans hp (keeps_nothing isPassage_spans)) ?_ ?_
  · intro xs q hq
    obtain rfl := List.eq_of_mem_replicate hq
    exact yieldsSpan_matchOnly hp
  · intro xs h
    obtain ⟨links, hchain, rfl, rfl⟩ := chain_of_accepts_listOf h
    have hspans := hchain.threads.matchOnly
    rw [List.map_replicate] at hspans
    rwa [List.length_map]

end Repetition

namespace Parser

/-- **Match-only yields the span that was consumed, and spans compose.**  If the successes of a
parser end in the same input at a position not before their start, then the parser of its span
succeeds where it does and with the same cursor behind it, and fails where it does and with the same
error, and the span with what remains behind it is what remained at the start.  The span does not
depend on the output: it is the same of the parser of spans itself, of the parser with a fixed
output, with a label, and with a converter that accepts what is read.  The span of a sequence is the
spans of its parsers put together, run one behind the other.  And under any bounds the span of a
list is the spans of the elements it collected put together, run one behind the other from its
start, with the spans of the delimiters between them, so that there is none in front of the first
and none behind the last. -/
theorem matchOnly_span (v : Verbosity) :
    (∀ p : Parser α β, (p.run v).Keeps Cursor.Spans → ∀ c,
        (∀ next, (∃ xs, (p.matchOnly.run v).Accepts c xs next) ↔
            ∃ x, (p.run v).Accepts c x next) ∧
          (∀ e, (p.matchOnly.run v).Rejects c e ↔ (p.run v).Rejects c e) ∧
          ∀ xs next, (p.matchOnly.run v).Accepts c xs next →
            xs ++ next.remaining = c.remaining) ∧
      (∀ (p : Parser α β) (f : β → Except Fault γ) (value : δ) (label : String),
        p.matchOnly.matchOnly.run v = p.matchOnly.run v ∧
          (p.replace value).matchOnly.run v = p.matchOnly.run v ∧
          ∀ c xs next,
            (((p.convert f).matchOnly.run v).Accepts c xs next ↔
                (p.matchOnly.run v).Accepts c xs next ∧
                  ∃ x y, (p.run v).Accepts c x next ∧ f x = .ok y) ∧
              (((p.named label).matchOnly.run v).Accepts c xs next ↔
                (p.matchOnly.run v).Accepts c xs next)) ∧
      (∀ ps : List (Parser α β), (∀ p ∈ ps, (p.run v).Keeps Cursor.Spans) → ∀ c text next,
        ((sequence ps).matchOnly.run v).Accepts c text next ↔
          ∃ spans, Threads v (ps.map matchOnly) c spans next ∧ text = spans.flatten) ∧
      ∀ (p : Parser α β) (d : Parser α γ), (p.run v).Keeps Cursor.Spans →
        ∀ (spare : Nat) (bounds : Bounds) (c : Cursor α) (text : List α) (next : Cursor α),
        (((repeated spare bounds p).matchOnly.run v).Accepts c text next ↔
            ∃ xs spans, ((repeated spare bounds p).run v).Accepts c xs next ∧
              Threads v (List.replicate xs.length p.matchOnly) c spans next ∧
              text = spans.flatten) ∧
          ((d.run v).Keeps Cursor.Spans →
            (((separated spare bounds p d).matchOnly.run v).Accepts c text next ↔
              ∃ xs spans, ((separated spare bounds p d).run v).Accepts c xs next ∧
                Threads v ((List.replicate xs.length p.matchOnly).intersperse d.matchOnly)
                  c spans next ∧
                text = spans.flatten)) := by
  refine ⟨fun p hp c => ⟨fun next => ?_, fun e => rejects_matchOnly, yieldsSpan_matchOnly hp c⟩,
    fun p f value label => ⟨run_matchOnly_matchOnly p v, run_replace_matchOnly p value v,
      fun c xs next => ⟨accepts_convert_matchOnly, accepts_named_matchOnly⟩⟩,
    fun ps hps c text next => accepts_sequence_matchOnly_iff hps,
    fun p d hp spare bounds c text next =>
      ⟨Repetition.accepts_listOf_nothing_matchOnly_iff hp,
        fun hd => Repetition.accepts_listOf_matchOnly_iff hp hd⟩⟩
  simp only [accepts_matchOnly]
  constructor
  · rintro ⟨xs, x, hx, -⟩
    exact ⟨x, hx⟩
  · rintro ⟨x, hx⟩
    exact ⟨_, x, hx, rfl⟩

open Repetition in
/-- The comma behind the second digit is no part of the list, nor of its span. -/
theorem digits_span :
    ((digit.run .verbose).Keeps Cursor.Spans ∧ (comma.run .verbose).Keeps Cursor.Spans) ∧
      ((separated 0 .any digit comma).matchOnly.run .verbose).Accepts
        (Cursor.new ['1', ',', '2', ',', ';']) ['1', ',', '2']
        (.valid ['1', ',', '2', ',', ';'] 3) ∧
      ['1', ',', '2'] ++ (Cursor.valid ['1', ',', '2', ',', ';'] 3).remaining =
        (Cursor.new ['1', ',', '2', ',', ';']).remaining ∧
      ((repeated 0 .any digit).matchOnly.run .verbose).Accepts
        (Cursor.new ['1', '2']) ['1', '2'] (.endOfInput ['1', '2']) ∧
      ((sequence [digit, digit]).matchOnly.run .verbose).Accepts
        (Cursor.new ['1', '2', '3']) ['1', '2'] (.valid ['1', '2', '3'] 2) := by
  have hdigit : (digit.run .verbose).Keeps Cursor.Spans := by
    rw [digit, oneOf_eq_takeSingle]
    exact keeps_takeSingle isPassage_spans _ _
  have hcomma : (comma.run .verbose).Keeps Cursor.Spans := keeps_tag isPassage_spans _ _
  have hlist : ((separated 0 .any digit comma).run .verbose).Keeps Cursor.Spans :=
    keeps_listOf isPassage_spans hdigit hcomma
  obtain ⟨-, -, hsequence, hlists⟩ :=
    matchOnly_span (α := Char) (β := Char) (γ := List Char) (δ := Unit) .verbose
  obtain ⟨hspan, -⟩ :=
    matchOnly_span (α := Char) (β := List Char) (γ := Unit) (δ := Unit) .verbose
  have hseparated : ((separated 0 .any digit comma).matchOnly.run .verbose).Accepts
      (Cursor.new ['1', ',', '2', ',', ';']) ['1', ',', '2']
      (.valid ['1', ',', '2', ',', ';'] 3) :=
    ((hlists digit comma hdigit 0 .any _ _ _).2 hcomma).mpr
      ⟨['1', '2'], [['1'], [','], ['2']], rfl,
        Threads.cons rfl (Threads.cons rfl (Threads.cons rfl (Threads.nil _))), rfl⟩
  refine ⟨⟨hdigit, hcomma⟩, hseparated, (hspan _ hlist _).2.2 _ _ hseparated, ?_, ?_⟩
  · refine (hlists digit comma hdigit 0 .any _ _ _).1.mpr ⟨['1', '2'], [['1'], ['2']], rfl, ?_, rfl⟩
    exact Threads.cons rfl (Threads.cons rfl (Threads.nil _))
  · refine (hsequence [digit, digit] (by simp [hdigit]) _ _ _).mpr ⟨[['1'], ['2']], ?_, rfl⟩
    exact Threads.cons rfl (Threads.cons rfl (Threads.nil _))

end Parser

end Descent
