import Descent.Proofs.Simulation

/-!
# References to any depth

A grammar over rules is run with references nesting a number of levels deep.  The number is only a
place to cut a run off: a run that comes to its end at some level comes to the same end, with the
same events, at every higher one (`Rules.run_eq_of_le`).  So what a grammar yields at a cursor can
be said without levels (`Rules.Yields`), and it is unique.

`Rules.induct` is the induction that most statements about whole grammars need, on the levels and
at each level on the grammar, with a reference standing one level above its rule.
-/

namespace Descent

variable {α κ ρ : Type}

/-- Induction on levels and grammars.  A reference at level zero is cut off; above, it has the
hypothesis for its rule at the level below. -/
@[elab_as_elim]
theorem Rules.induct (rules : Rules α κ ρ) {motive : Nat → Grammar α κ ρ → Prop}
    (tag : ∀ levels name literal, motive levels (.tag name literal))
    (single : ∀ levels name cls, motive levels (.single name cls))
    (munch : ∀ levels name cls, motive levels (.munch name cls))
    (nothing : ∀ levels, motive levels .nothing)
    (sequence : ∀ levels parts, (∀ g ∈ parts, motive levels g) → motive levels (.sequence parts))
    (choice : ∀ levels alternatives, (∀ g ∈ alternatives, motive levels g) →
      motive levels (.choice alternatives))
    (pair : ∀ levels first second, motive levels first → motive levels second →
      motive levels (.pair first second))
    (delimited : ∀ levels before body behind, motive levels before → motive levels body →
      motive levels behind → motive levels (.delimited before body behind))
    (orDefault : ∀ levels fallback body, motive levels body →
      motive levels (.orDefault fallback body))
    (repeated : ∀ levels bounds body, motive levels body → motive levels (.repeated bounds body))
    (separated : ∀ levels bounds body delimiter, motive levels body → motive levels delimiter →
      motive levels (.separated bounds body delimiter))
    (named : ∀ levels label body, motive levels body → motive levels (.named label body))
    (convert : ∀ levels body f, motive levels body → motive levels (.convert body f))
    (mapEach : ∀ levels body f, motive levels body → motive levels (.mapEach body f))
    (replace : ∀ levels value body, motive levels body → motive levels (.replace value body))
    (matchOnly : ∀ levels body, motive levels body → motive levels (.matchOnly body))
    (cutOff : ∀ label rule, motive 0 (.defer label rule))
    (defer : ∀ levels label rule, motive levels (rules rule) →
      motive (levels + 1) (.defer label rule))
    (func : ∀ levels run, motive levels (.func run)) :
    ∀ levels g, motive levels g := by
  intro levels
  induction levels with
  | zero =>
    exact Grammar.induct (tag 0) (single 0) (munch 0) (nothing 0) (sequence 0) (choice 0) (pair 0)
      (delimited 0) (orDefault 0) (repeated 0) (separated 0) (named 0) (convert 0) (mapEach 0)
      (replace 0) (matchOnly 0) cutOff (func 0)
  | succ n ih =>
    exact Grammar.induct (tag _) (single _) (munch _) (nothing _) (sequence _) (choice _) (pair _)
      (delimited _) (orDefault _) (repeated _) (separated _) (named _) (convert _) (mapEach _)
      (replace _) (matchOnly _) (fun label rule => defer n label rule (ih (rules rule))) (func _)

theorem Tree.list_congr {xs ys : List (Tree α κ)} (h : List.Forall₂ Eq xs ys) :
    (Tree.list xs : Tree α κ) = Tree.list ys := by
  rw [List.forall₂_eq_eq_eq] at h
  rw [h]

/-- The comparison of a parse with one that is cut off later, if at all: everything is equal. -/
def furtherOn (α : Type) : Simulation α α where
  cursor := Eq
  events := Eq
  lossy := False
  events_nil := rfl
  events_append := fun h h' => by rw [h, h']
  still := Cursor.still_of_eq
  room := fun h => Or.inr (h ▸ Nat.le_refl _)

theorem furtherOn_refl {β : Type} (s : Step α β) : (furtherOn α).Steps Eq Eq s s := by
  rintro c _ rfl
  rcases s c with ⟨events, e | x⟩ | _
  · exact ⟨rfl, Agree.error rfl⟩
  · exact ⟨rfl, Agree.ok ⟨rfl, rfl⟩⟩
  · trivial

/-- What a run that comes to its end says of one that is compared with it. -/
theorem furtherOn_run {β : Type} {s s' : Step α β} (h : (furtherOn α).Steps Eq Eq s s')
    {c : Cursor α} {events : List Event} {r : Except (ParseError α) (β × Cursor α)}
    (hr : s c = .finished events r) : s' c = .finished events r := by
  have hc := h c c rfl
  rw [hr] at hc
  rcases hs' : s' c with ⟨events', r'⟩ | _
  · rw [hs'] at hc
    obtain ⟨hevents, hagree⟩ := hc
    have hevents' : events = events' := hevents
    rw [hevents']
    cases hagree with
    | ok hy => rw [Prod.ext hy.1 hy.2]
    | error he => rw [he]
  · rw [hs'] at hc
    exact hc.elim

variable [DecidableEq α]

/-! ## The parser of a grammar, part by part -/

namespace Rules

variable (rules : Rules α κ ρ) (levels : Nat)

theorem parser_tag (name : String) (literal : List α) :
    rules.parser levels (.tag name literal) = (Parser.tag name literal).map .span := rfl

theorem parser_single (name : String) (cls : ElementClass α) :
    rules.parser levels (.single name cls) =
      (Parser.takeSingle name cls.accepts).map .elem := rfl

theorem parser_munch (name : String) (cls : ElementClass α) :
    rules.parser levels (.munch name cls) =
      (Parser.takeWhile name cls.accepts).map .span := rfl

theorem parser_nothing :
    rules.parser levels .nothing = Parser.nothing.map fun _ => .unit := rfl

theorem parser_sequence (parts : List (Grammar α κ ρ)) :
    rules.parser levels (.sequence parts) =
      (Parser.sequence (parts.map (rules.parser levels))).map .list := by
  rw [parser, Grammar.parser, Grammar.parsers_eq_map]
  rfl

theorem parser_choice (alternatives : List (Grammar α κ ρ)) :
    rules.parser levels (.choice alternatives) =
      Parser.choice (alternatives.map (rules.parser levels)) := by
  rw [parser, Grammar.parser, Grammar.parsers_eq_map]
  rfl

theorem parser_pair (first second : Grammar α κ ρ) :
    rules.parser levels (.pair first second) =
      (Parser.pair (rules.parser levels first) (rules.parser levels second)).map
        fun (x, y) => .pair x y := rfl

theorem parser_delimited (before body behind : Grammar α κ ρ) :
    rules.parser levels (.delimited before body behind) =
      Parser.delimited (rules.parser levels before) (rules.parser levels body)
        (rules.parser levels behind) := rfl

theorem parser_orDefault (fallback : Tree α κ) (body : Grammar α κ ρ) :
    rules.parser levels (.orDefault fallback body) =
      (rules.parser levels body).orDefault fallback := rfl

theorem parser_repeated (bounds : Bounds) (body : Grammar α κ ρ) :
    rules.parser levels (.repeated bounds body) =
      (Parser.repeated levels bounds (rules.parser levels body)).map .list := rfl

theorem parser_separated (bounds : Bounds) (body delimiter : Grammar α κ ρ) :
    rules.parser levels (.separated bounds body delimiter) =
      (Parser.separated levels bounds (rules.parser levels body)
        (rules.parser levels delimiter)).map .list := rfl

theorem parser_named (label : String) (body : Grammar α κ ρ) :
    rules.parser levels (.named label body) = (rules.parser levels body).named label := rfl

theorem parser_convert (body : Grammar α κ ρ) (f : Tree α κ → Except Fault (Tree α κ)) :
    rules.parser levels (.convert body f) = (rules.parser levels body).convert f := rfl

theorem parser_mapEach (body : Grammar α κ ρ) (f : Tree α κ → Except Fault (Tree α κ)) :
    rules.parser levels (.mapEach body f) =
      (((rules.parser levels body).map Tree.entries).convert fun ts => ts.mapM f).map .list := rfl

theorem parser_replace (value : Tree α κ) (body : Grammar α κ ρ) :
    rules.parser levels (.replace value body) =
      (rules.parser levels body).map fun _ => value := rfl

theorem parser_matchOnly (body : Grammar α κ ρ) :
    rules.parser levels (.matchOnly body) = (rules.parser levels body).matchOnly.map .span := rfl

theorem parser_cutOff (label : String) (rule : ρ) :
    rules.parser 0 (.defer label rule) = ⟨label, fun _ _ => .unfinished⟩ := rfl

theorem parser_defer_succ (label : String) (rule : ρ) :
    rules.parser (levels + 1) (.defer label rule) =
      ⟨label, (rules.parser levels (rules rule)).run⟩ := rfl

theorem parser_func (run : Verbosity → Step α (Tree α κ)) :
    rules.parser levels (.func run) = Parser.ofFunction run := rfl

end Rules

/-! ## More levels change nothing -/

/-- A name says nothing of what rules do. -/
theorem Grammar.name_parser (g : Grammar α κ ρ) (spare spare' : Nat)
    (call call' : ρ → Verbosity → Step α (Tree α κ)) :
    (g.parser spare call).name = (g.parser spare' call').name := by
  have hlist : ∀ gs : List (Grammar α κ ρ),
      (∀ g ∈ gs, (g.parser spare call).name = (g.parser spare' call').name) →
      (gs.map (Grammar.parser spare call)).map Parser.name =
        (gs.map (Grammar.parser spare' call')).map Parser.name := by
    intro gs h
    rw [List.map_map, List.map_map]
    exact List.map_congr_left h
  induction g using Grammar.induct with
  | tag => rfl
  | single => rfl
  | munch => rfl
  | nothing => rfl
  | sequence parts ih =>
    rw [Grammar.parser, Grammar.parser, Grammar.parsers_eq_map, Grammar.parsers_eq_map]
    exact congrArg Parser.bracketed (hlist parts ih)
  | choice alternatives ih =>
    rw [Grammar.parser, Grammar.parser, Grammar.parsers_eq_map, Grammar.parsers_eq_map]
    exact congrArg Parser.alternatives (hlist alternatives ih)
  | pair first second ihFirst ihSecond =>
    show Parser.bracketed [_, _] = Parser.bracketed [_, _]
    rw [ihFirst, ihSecond]
  | delimited before body behind ihBefore ihBody ihBehind =>
    show _ ++ ", " ++ _ ++ ", " ++ _ = _ ++ ", " ++ _ ++ ", " ++ _
    rw [ihBefore, ihBody, ihBehind]
  | orDefault fallback body ih => exact ih
  | repeated bounds body ih =>
    show "multiple [" ++ _ ++ "]" = "multiple [" ++ _ ++ "]"
    rw [ih]
  | separated bounds body delimiter ihBody ihDelimiter =>
    show "multiple [" ++ _ ++ "] separated by [" ++ _ ++ "]" =
      "multiple [" ++ _ ++ "] separated by [" ++ _ ++ "]"
    rw [ihBody, ihDelimiter]
  | named => rfl
  | convert body f ih => exact ih
  | mapEach body f ih => exact ih
  | replace value body ih => exact ih
  | matchOnly body ih => exact ih
  | defer => rfl
  | func => rfl

/-- Where rules come to an end on more calls and loops have no fewer rounds, every grammar does
what it did, or comes to an end where it was cut off. -/
theorem Grammar.steps_furtherOn {spare spare' : Nat} (hspare : spare ≤ spare')
    {call call' : ρ → Verbosity → Step α (Tree α κ)}
    (hcall : ∀ rule v, (furtherOn α).Steps Eq Eq (call rule v) (call' rule v))
    (g : Grammar α κ ρ) (v : Verbosity) :
    (furtherOn α).Steps Eq Eq ((g.parser spare call).run v) ((g.parser spare' call').run v) := by
  have hname := fun g : Grammar α κ ρ => g.name_parser spare spare' call call'
  induction g using Grammar.induct generalizing v with
  | tag name literal => exact furtherOn_refl _
  | single name cls => exact furtherOn_refl _
  | munch name cls => exact furtherOn_refl _
  | nothing => exact furtherOn_refl _
  | sequence parts ih =>
    rw [Grammar.parser, Grammar.parser, Grammar.parsers_eq_map, Grammar.parsers_eq_map]
    exact Simulation.steps_map
      (Simulation.steps_sequence (forall₂_map_of_forall_mem fun g hg => ih g hg v))
      fun _ _ => Tree.list_congr
  | choice alternatives ih =>
    rw [Grammar.parser, Grammar.parser, Grammar.parsers_eq_map, Grammar.parsers_eq_map]
    refine Simulation.steps_choice (forall₂_map_of_forall_mem fun g hg => ih g hg .terse) ?_
    rintro c _ rfl
    have hnames : (alternatives.map (Grammar.parser spare call)).map Parser.name =
        (alternatives.map (Grammar.parser spare' call')).map Parser.name := by
      rw [List.map_map, List.map_map]
      exact List.map_congr_left fun g _ => hname g
    rw [Parser.exhausted_congr hnames]
    exact furtherOn_refl (Parser.exhausted _ v) c c rfl
  | pair first second ihFirst ihSecond =>
    exact Simulation.steps_map (Simulation.steps_pair (ihFirst v) (ihSecond v))
      fun _ _ h => by rw [Prod.ext h.1 h.2]
  | delimited before body behind ihBefore ihBody ihBehind =>
    exact Simulation.steps_delimited (ihBefore v) (ihBody v) (ihBehind v)
  | orDefault fallback body ih => exact Simulation.steps_orDefault (ih .terse) rfl
  | repeated bounds body ih =>
    refine Simulation.steps_map (Simulation.steps_listOf (ih v) (furtherOn_refl _)
      (Or.inr hspare) ?_ ?_) fun _ _ => Tree.list_congr
    · rintro c _ found rfl
      rw [hname body]
      rfl
    · rintro c _ rfl
      rw [hname body]
  | separated bounds body delimiter ihBody ihDelimiter =>
    refine Simulation.steps_map (Simulation.steps_listOf (ihBody v) (ihDelimiter v)
      (Or.inr hspare) ?_ ?_) fun _ _ => Tree.list_congr
    · rintro c _ found rfl
      rw [hname body, hname delimiter]
      rfl
    · rintro c _ rfl
      rw [hname body, hname delimiter]
  | named label body ih =>
    refine Simulation.steps_named (ih v) ?_
    rintro c _ e _ rfl rfl
    rfl
  | convert body f ih =>
    refine Simulation.steps_convert (ih v) ?_
    rintro c _ next _ x _ rfl rfl rfl
    rw [hname body]
    exact furtherOn_refl (fun c => Parser.converted _ c next (f x)) c c rfl
  | mapEach body f ih =>
    have hentry : (furtherOn α).Steps Eq Eq (((body.parser spare call).map Tree.entries).run v)
        (((body.parser spare' call').map Tree.entries).run v) := by
      refine Simulation.steps_map (ih v) ?_
      rintro x _ rfl
      rfl
    refine Simulation.steps_map (Simulation.steps_convert hentry ?_) fun _ _ => congrArg Tree.list
    rintro c _ next _ xs _ rfl rfl rfl
    rw [Parser.name_map, Parser.name_map, hname body]
    exact furtherOn_refl (fun c => Parser.converted _ c next (xs.mapM f)) c c rfl
  | replace value body ih => exact Simulation.steps_map (ih v) fun _ _ _ => rfl
  | matchOnly body ih =>
    refine Simulation.steps_map (Simulation.steps_matchOnly (ih v) ?_) fun _ _ => congrArg Tree.span
    rintro c _ next _ rfl rfl
    rfl
  | defer label rule => exact hcall rule v
  | func run => exact furtherOn_refl _

namespace Rules

variable {rules : Rules α κ ρ}

theorem steps_furtherOn {m n : Nat} (h : m ≤ n) (rule : ρ) (v : Verbosity) :
    (furtherOn α).Steps Eq Eq (rules.run m rule v) (rules.run n rule v) := by
  induction m generalizing n rule v with
  | zero => exact fun c c' _ => trivial
  | succ m ih =>
    obtain ⟨n, rfl⟩ := Nat.exists_eq_succ_of_ne_zero (Nat.ne_of_gt (Nat.zero_lt_of_lt h))
    have hle := Nat.le_of_succ_le_succ h
    exact (rules rule).steps_furtherOn hle (fun rule v => ih hle rule v) v

/-- **More levels change nothing.**  A run that comes to its end comes to the same end, with the
same events, with references nesting deeper. -/
theorem run_eq_of_le {m n : Nat} (h : m ≤ n) {g : Grammar α κ ρ} {v : Verbosity} {c : Cursor α}
    {events : List Event} {r : Except (ParseError α) (Tree α κ × Cursor α)}
    (hr : (rules.parser m g).run v c = .finished events r) :
    (rules.parser n g).run v c = .finished events r :=
  furtherOn_run (g.steps_furtherOn h (fun rule v => steps_furtherOn h rule v) v) hr

theorem result?_eq_of_le {m n : Nat} (h : m ≤ n) {g : Grammar α κ ρ} {v : Verbosity}
    {c : Cursor α} {r : Except (ParseError α) (Tree α κ × Cursor α)}
    (hr : ((rules.parser m g).run v c).result? = some r) :
    ((rules.parser n g).run v c).result? = some r := by
  rcases hrun : (rules.parser m g).run v c with ⟨events, r'⟩ | _
  · rw [hrun] at hr
    rw [run_eq_of_le h hrun]
    exact hr
  · rw [hrun] at hr
    exact absurd hr (by simp)

/-- With references nesting deep enough, the grammar comes to this result at the cursor. -/
def Yields (rules : Rules α κ ρ) (g : Grammar α κ ρ) (v : Verbosity) (c : Cursor α)
    (r : Except (ParseError α) (Tree α κ × Cursor α)) : Prop :=
  ∃ levels, ((rules.parser levels g).run v c).result? = some r

/-- Two parses that come to an end do so at a common number of levels. -/
theorem Yields.common {g g' : Grammar α κ ρ} {v v' : Verbosity} {c c' : Cursor α}
    {r r' : Except (ParseError α) (Tree α κ × Cursor α)} (h : rules.Yields g v c r)
    (h' : rules.Yields g' v' c' r') :
    ∃ levels, ((rules.parser levels g).run v c).result? = some r ∧
      ((rules.parser levels g').run v' c').result? = some r' := by
  obtain ⟨m, hm⟩ := h
  obtain ⟨n, hn⟩ := h'
  exact ⟨max m n, result?_eq_of_le (Nat.le_max_left m n) hm,
    result?_eq_of_le (Nat.le_max_right m n) hn⟩

theorem Yields.unique {g : Grammar α κ ρ} {v : Verbosity} {c : Cursor α}
    {r r' : Except (ParseError α) (Tree α κ × Cursor α)} (h : rules.Yields g v c r)
    (h' : rules.Yields g v c r') : r = r' := by
  obtain ⟨levels, hr, hr'⟩ := h.common h'
  exact Option.some.inj (hr.symm.trans hr')

end Rules

end Descent
