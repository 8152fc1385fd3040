import Descent.Proofs.Verbosity

/-!
# Names and labels

Names tell a reader what was expected; nothing in a parse looks at them.  So two grammars that
differ in the texts of names and labels do the same (`Rules.names_are_diagnostic`).  The same is
true of labelled wrappers and of references: a wrapper only rewords an error, and a reference does
what its rule does, so either may stand in one of the grammars and not in the other, at any place.

What a wrapper does change is the place of an expectation, which becomes that where the wrapper
started.  If wrappers stand at the same places in both grammars, the places of expectations are the
same too.

The comparison follows a derivation of `Grammar.Relabelled`, which passes references in one grammar
without passing any in the other.  The induction is therefore on the levels of the first parse and,
below that, on the derivation, and the second parse may have any number of levels.  Both parses are
at one verbosity here, but as nothing is said of reports, the comparison of terse with verbose
parses serves as it is.
-/

namespace Descent

variable {α β κ ρ ρ' : Type}

/-! ## Failures that differ in names -/

/-- Failures of one kind under any names.  Failed conversions are of one place and have one fault,
and the places of expectations compare as is said. -/
inductive ParseError.SameKind (At : Location α → Location α → Prop) :
    ParseError α → ParseError α → Prop
  | invalidInput : SameKind At .invalidInput .invalidInput
  | expected (name name' : String) {loc loc' : Location α} :
    At loc loc' → SameKind At (.expected name loc) (.expected name' loc')
  | conversion (name name' : String) (loc : Location α) (fault : Fault) :
    SameKind At (.conversion name loc fault) (.conversion name' loc fault)

namespace ParseError.SameKind

variable {At : Location α → Location α → Prop} {e e' : ParseError α}

theorem mismatch (v : Verbosity) (name name' : String) {c : Cursor α} (h : At c.loc c.loc) :
    SameKind At (.mismatch v name c) (.mismatch v name' c) := by
  cases v with
  | terse => exact invalidInput
  | verbose => exact expected name name' h

/-- Wrappers at one place keep the comparison. -/
theorem relabelled (he : SameKind At e e') (label label' : String) {c : Cursor α}
    (h : At c.loc c.loc) : SameKind At (e.relabelled label c) (e'.relabelled label' c) := by
  cases he with
  | invalidInput => exact invalidInput
  | expected name name' _ => exact expected label label' h
  | conversion name name' loc fault => exact conversion name name' loc fault

/-- A wrapper around one of two parsers moves the place of an expectation. -/
theorem relabelled_left (he : SameKind At e e') (label : String) (c : Cursor α)
    (h : ∀ loc loc', At loc loc') : SameKind At (e.relabelled label c) e' := by
  cases he with
  | invalidInput => exact invalidInput
  | expected name name' _ => exact expected label name' (h _ _)
  | conversion name name' loc fault => exact conversion name name' loc fault

theorem relabelled_right (he : SameKind At e e') (label : String) (c : Cursor α)
    (h : ∀ loc loc', At loc loc') : SameKind At e (e'.relabelled label c) := by
  cases he with
  | invalidInput => exact invalidInput
  | expected name name' _ => exact expected name label (h _ _)
  | conversion name name' loc fault => exact conversion name name' loc fault

end ParseError.SameKind

open ParseError (SameKind)

/-! ## Two parses from one cursor -/

variable {At : Location α → Location α → Prop} {v : Verbosity} {c : Cursor α}

/-- Any two names will do. -/
theorem beside_names (hAt : ∀ loc, At loc loc) (v : Verbosity) :
    (tiers α .any).Beside (SameKind At) (fun _ _ => True) v v where
  cursor := rfl
  mismatch _ c := SameKind.mismatch v _ _ (hAt c.loc)
  conversion _ loc fault := SameKind.conversion _ _ loc fault
  relabelled _ c _ _ he := he.relabelled _ _ (hAt c.loc)
  tooFew _ _ _ _ := trivial
  unconverted _ _ := trivial
  leftover _ _ _ := trivial

theorem runs_exhausted_names (hAt : ∀ loc, At loc loc) (ps ps' : List (Parser α β)) :
    (tiers α .any).Runs (SameKind At) ((tiers α .any).Output (Eq : β → β → Prop))
      (Parser.exhausted ps v c) (Parser.exhausted ps' v c) := by
  have hkind : SameKind At (.mismatch v (Parser.choice ps).name c)
      (.mismatch v (Parser.choice ps').name c) := SameKind.mismatch v _ _ (hAt c.loc)
  cases v with
  | terse => exact Simulation.runs_fail hkind
  | verbose => exact ⟨trivial, Agree.error hkind⟩

/-- Nothing is said of a parse that is cut off. -/
theorem runs_cutOff {Re : ParseError α → ParseError α → Prop} {Rx : β → β → Prop}
    (r : Run (ParseError α) β) : (tiers α .any).Runs Re Rx r .unfinished := by
  cases r with
  | finished events result => exact trivial
  | unfinished => exact trivial

section Wrappers

variable {β' : Type} {Re Se : ParseError α → ParseError α → Prop} {Rx : β → β' → Prop}
  {p : Parser α β} {p' : Parser α β'} {label : String}

theorem Run.mapError_id {ε : Type} (run : Run ε β) : run.mapError id = run := by
  rcases run with ⟨events, e | x⟩ | _
  · rfl
  · rfl
  · rfl

/-- A wrapper around the first of two parsers. -/
theorem steps_namedLeft (h : (tiers α .any).Steps Se Rx (p.run v) (p'.run v))
    (hlabel : ∀ c e e', Se e e' → Re (e.relabelled label c) e') :
    (tiers α .any).Steps Re Rx ((p.named label).run v) (p'.run v) := by
  rintro c _ rfl
  rw [← Run.mapError_id (p'.run v c)]
  exact (h c c rfl).mapError fun e e' he => hlabel c e e' he

/-- A wrapper around the second of two parsers. -/
theorem steps_namedRight (h : (tiers α .any).Steps Se Rx (p.run v) (p'.run v))
    (hlabel : ∀ c e e', Se e e' → Re e (e'.relabelled label c)) :
    (tiers α .any).Steps Re Rx (p.run v) ((p'.named label).run v) := by
  rintro c _ rfl
  rw [← Run.mapError_id (p.run v c)]
  exact (h c c rfl).mapError fun e e' he => hlabel c e e' he

end Wrappers

/-! ## Grammars that differ in names -/

section Relation

variable (free : Prop) (rules : Rules α κ ρ) (rules' : Rules α κ ρ') (same : ρ → ρ' → Prop)

/-- Grammars over two sets of rules that differ in the texts of names and labels, in references in
the place of rules, and, if wrappers are free, in labelled wrappers around parts.  Two references
may be compared by what is said of their rules. -/
inductive Grammar.Relabelled : Grammar α κ ρ → Grammar α κ ρ' → Prop
  | tag (name name' : String) (literal : List α) :
    Relabelled (.tag name literal) (.tag name' literal)
  | single (name name' : String) (cls : ElementClass α) :
    Relabelled (.single name cls) (.single name' cls)
  | munch (name name' : String) (cls : ElementClass α) :
    Relabelled (.munch name cls) (.munch name' cls)
  | nothing : Relabelled .nothing .nothing
  | sequence {parts : List (Grammar α κ ρ)} {parts' : List (Grammar α κ ρ')} :
    parts.length = parts'.length →
    (∀ {q : Grammar α κ ρ} {q' : Grammar α κ ρ'}, (q, q') ∈ parts.zip parts' → Relabelled q q') →
    Relabelled (.sequence parts) (.sequence parts')
  | choice {parts : List (Grammar α κ ρ)} {parts' : List (Grammar α κ ρ')} :
    parts.length = parts'.length →
    (∀ {q : Grammar α κ ρ} {q' : Grammar α κ ρ'}, (q, q') ∈ parts.zip parts' → Relabelled q q') →
    Relabelled (.choice parts) (.choice parts')
  | pair {first second : Grammar α κ ρ} {first' second' : Grammar α κ ρ'} :
    Relabelled first first' → Relabelled second second' →
    Relabelled (.pair first second) (.pair first' second')
  | delimited {before body behind : Grammar α κ ρ} {before' body' behind' : Grammar α κ ρ'} :
    Relabelled before before' → Relabelled body body' → Relabelled behind behind' →
    Relabelled (.delimited before body behind) (.delimited before' body' behind')
  | orDefault (fallback : Tree α κ) {body : Grammar α κ ρ} {body' : Grammar α κ ρ'} :
    Relabelled body body' → Relabelled (.orDefault fallback body) (.orDefault fallback body')
  | repeated (bounds : Bounds) {body : Grammar α κ ρ} {body' : Grammar α κ ρ'} :
    Relabelled body body' → Relabelled (.repeated bounds body) (.repeated bounds body')
  | separated (bounds : Bounds) {body delimiter : Grammar α κ ρ}
    {body' delimiter' : Grammar α κ ρ'} :
    Relabelled body body' → Relabelled delimiter delimiter' →
    Relabelled (.separated bounds body delimiter) (.separated bounds body' delimiter')
  | convert (f : Tree α κ → Except Fault (Tree α κ)) {body : Grammar α κ ρ}
    {body' : Grammar α κ ρ'} :
    Relabelled body body' → Relabelled (.convert body f) (.convert body' f)
  | mapEach (f : Tree α κ → Except Fault (Tree α κ)) {body : Grammar α κ ρ}
    {body' : Grammar α κ ρ'} :
    Relabelled body body' → Relabelled (.mapEach body f) (.mapEach body' f)
  | replace (value : Tree α κ) {body : Grammar α κ ρ} {body' : Grammar α κ ρ'} :
    Relabelled body body' → Relabelled (.replace value body) (.replace value body')
  | matchOnly {body : Grammar α κ ρ} {body' : Grammar α κ ρ'} :
    Relabelled body body' → Relabelled (.matchOnly body) (.matchOnly body')
  /-- Two wrappers under any labels. -/
  | named (label label' : String) {body : Grammar α κ ρ} {body' : Grammar α κ ρ'} :
    Relabelled body body' → Relabelled (.named label body) (.named label' body')
  /-- A wrapper in the first grammar only. -/
  | namedLeft (label : String) {body : Grammar α κ ρ} {g' : Grammar α κ ρ'} :
    free → Relabelled body g' → Relabelled (.named label body) g'
  /-- A wrapper in the second grammar only. -/
  | namedRight (label : String) {g : Grammar α κ ρ} {body' : Grammar α κ ρ'} :
    free → Relabelled g body' → Relabelled g (.named label body')
  /-- Two references to rules that are compared. -/
  | defer (label label' : String) {rule : ρ} {rule' : ρ'} :
    same rule rule' → Relabelled (.defer label rule) (.defer label' rule')
  /-- A reference in the first grammar, for a rule that the second has in its place. -/
  | deferLeft (label : String) {rule : ρ} {g' : Grammar α κ ρ'} :
    Relabelled (rules rule) g' → Relabelled (.defer label rule) g'
  /-- A reference in the second grammar, for a rule that the first has in its place. -/
  | deferRight (label : String) {g : Grammar α κ ρ} {rule' : ρ'} :
    Relabelled g (rules' rule') → Relabelled g (.defer label rule')

variable {free rules rules' same} in
theorem Grammar.Relabelled.choice_of_forall₂ {parts : List (Grammar α κ ρ)}
    {parts' : List (Grammar α κ ρ')}
    (h : List.Forall₂ (Grammar.Relabelled free rules rules' same) parts parts') :
    Grammar.Relabelled free rules rules' same (.choice parts) (.choice parts') := by
  obtain ⟨hlength, hparts⟩ := List.forall₂_iff_zip.mp h
  exact .choice hlength hparts

/-- The grammars differ in names, and so do all rules that have to be compared for it. -/
def Rules.Relabelled (g : Grammar α κ ρ) (g' : Grammar α κ ρ') : Prop :=
  ∃ same : ρ → ρ' → Prop,
    (∀ rule rule', same rule rule' →
      Grammar.Relabelled free rules rules' same (rules rule) (rules' rule')) ∧
    Grammar.Relabelled free rules rules' same g g'

end Relation

/-- The grammars differ in the texts of names and labels, in references in the place of rules, and
in labelled wrappers. -/
def Rules.DifferInLabels (rules : Rules α κ ρ) (rules' : Rules α κ ρ') :
    Grammar α κ ρ → Grammar α κ ρ' → Prop :=
  rules.Relabelled True rules'

/-- The grammars differ in the texts of names and labels and in references in the place of rules;
wrappers stand at the same places. -/
def Rules.DifferInTexts (rules : Rules α κ ρ) (rules' : Rules α κ ρ') :
    Grammar α κ ρ → Grammar α κ ρ' → Prop :=
  rules.Relabelled False rules'

/-! ## Their parses -/

variable [DecidableEq α] {free : Prop} {rules : Rules α κ ρ} {rules' : Rules α κ ρ'}
  {same : ρ → ρ' → Prop} {g : Grammar α κ ρ} {g' : Grammar α κ ρ'}

namespace Rules

/-- Lists of grammars that compare member by member have parsers that do. -/
theorem parsers_of_zip {R : Parser α (Tree α κ) → Parser α (Tree α κ) → Prop}
    {parts : List (Grammar α κ ρ)} {parts' : List (Grammar α κ ρ')} {m n : Nat}
    (hlength : parts.length = parts'.length)
    (h : ∀ {q : Grammar α κ ρ} {q' : Grammar α κ ρ'}, (q, q') ∈ parts.zip parts' →
      R (rules.parser m q) (rules'.parser n q')) :
    List.Forall₂ R (parts.map (rules.parser m)) (parts'.map (rules'.parser n)) := by
  rw [List.forall₂_map_left_iff, List.forall₂_map_right_iff, List.forall₂_iff_zip]
  exact ⟨hlength, h⟩

/-- **Names decide nothing.**  Where references to compared rules do the same, at fewer levels of
the first parse, so do grammars that differ in names.  A wrapper in one of them only is allowed if
the places of expectations are not compared. -/
theorem steps_of_relabelled (hAt : ∀ loc, At loc loc) (hfree : free → ∀ loc loc', At loc loc')
    (h : Grammar.Relabelled free rules rules' same g g') {m : Nat}
    (hrule : ∀ below, below < m → ∀ rule rule', same rule rule' → ∀ n v,
      (tiers α .any).Steps (SameKind At) Eq ((rules.parser below (rules rule)).run v)
        ((rules'.parser n (rules' rule')).run v))
    (n : Nat) (v : Verbosity) :
    (tiers α .any).Steps (SameKind At) Eq ((rules.parser m g).run v)
      ((rules'.parser n g').run v) := by
  have hbeside := beside_names hAt
  induction h generalizing m n v with
  | tag name name' literal =>
    rw [parser_tag, parser_tag]
    exact Simulation.steps_map ((hbeside v).steps_tag trivial literal)
      fun _ _ => congrArg Tree.span
  | single name name' cls =>
    rw [parser_single, parser_single]
    exact Simulation.steps_map ((hbeside v).steps_takeSingle trivial cls.accepts)
      fun _ _ => congrArg Tree.elem
  | munch name name' cls =>
    rw [parser_munch, parser_munch]
    exact Simulation.steps_map ((hbeside v).steps_takeWhile trivial cls.accepts)
      fun _ _ => congrArg Tree.span
  | nothing =>
    rw [parser_nothing, parser_nothing]
    exact Simulation.steps_map (hbeside v).steps_nothing fun _ _ _ => rfl
  | sequence hlength _ ih =>
    rw [parser_sequence, parser_sequence]
    have hparts := Simulation.steps_sequence
      (parsers_of_zip hlength fun hq => ih hq hrule n v)
    exact Simulation.steps_map hparts fun _ _ => Tree.list_congr
  | choice hlength _ ih =>
    rw [parser_choice, parser_choice]
    refine Simulation.steps_choice (parsers_of_zip hlength fun hq => ih hq hrule n .terse) ?_
    rintro c _ rfl
    exact runs_exhausted_names hAt _ _
  | pair _ _ ihFirst ihSecond =>
    rw [parser_pair, parser_pair]
    exact Simulation.steps_map (Simulation.steps_pair (ihFirst hrule n v) (ihSecond hrule n v))
      fun _ _ h => by rw [Prod.ext h.1 h.2]
  | delimited _ _ _ ihBefore ihBody ihBehind =>
    rw [parser_delimited, parser_delimited]
    exact Simulation.steps_delimited (ihBefore hrule n v) (ihBody hrule n v) (ihBehind hrule n v)
  | orDefault fallback _ ih =>
    rw [parser_orDefault, parser_orDefault]
    exact Simulation.steps_orDefault (ih hrule n .terse) rfl
  | repeated bounds _ ih =>
    rw [parser_repeated, parser_repeated]
    exact Simulation.steps_map ((hbeside v).steps_listOf trivial (ih hrule n v)
      (hbeside v).steps_nothing (Or.inl trivial) bounds) fun _ _ => Tree.list_congr
  | separated bounds _ _ ihBody ihDelimiter =>
    rw [parser_separated, parser_separated]
    exact Simulation.steps_map ((hbeside v).steps_listOf trivial (ihBody hrule n v)
      (ihDelimiter hrule n v) (Or.inl trivial) bounds) fun _ _ => Tree.list_congr
  | convert f _ ih =>
    rw [parser_convert, parser_convert]
    exact (hbeside v).steps_convert trivial f (ih hrule n v)
  | mapEach f _ ih =>
    rw [parser_mapEach, parser_mapEach]
    have hentries := Simulation.steps_map (ih hrule n v) fun _ _ => congrArg Tree.entries
    exact Simulation.steps_map ((hbeside v).steps_convert trivial _ hentries)
      fun _ _ => congrArg Tree.list
  | replace value _ ih =>
    rw [parser_replace, parser_replace]
    exact Simulation.steps_map (ih hrule n v) fun _ _ _ => rfl
  | matchOnly _ ih =>
    rw [parser_matchOnly, parser_matchOnly]
    exact Simulation.steps_map ((hbeside v).steps_matchOnly (ih hrule n v))
      fun _ _ => congrArg Tree.span
  | named label label' _ ih =>
    rw [parser_named, parser_named]
    exact (hbeside v).steps_named trivial (ih hrule n v)
  | namedLeft label hfree' _ ih =>
    rw [parser_named]
    exact steps_namedLeft (ih hrule n v) fun c e e' he =>
      he.relabelled_left label c (hfree hfree')
  | namedRight label hfree' _ ih =>
    rw [parser_named]
    exact steps_namedRight (ih hrule n v) fun c e e' he =>
      he.relabelled_right label c (hfree hfree')
  | defer label label' hsame =>
    -- the derivation ends here; what is known of the rules takes over, one level below
    rcases m with _ | below
    · exact fun c c' _ => trivial
    · rcases n with _ | n
      · exact fun c c' _ => runs_cutOff _
      · rw [parser_defer_succ, parser_defer_succ]
        exact hrule below (Nat.lt_succ_self below) _ _ hsame n v
  | deferLeft label _ ih =>
    -- only the first parse goes down a level, and the derivation gets shorter
    rcases m with _ | below
    · exact fun c c' _ => trivial
    · rw [parser_defer_succ]
      exact ih (fun below' hbelow => hrule below' (Nat.lt_succ_of_lt hbelow)) n v
  | deferRight label _ ih =>
    rcases n with _ | n
    · exact fun c c' _ => runs_cutOff _
    · rw [parser_defer_succ]
      exact ih hrule n v

theorem steps_of_compared (hAt : ∀ loc, At loc loc) (hfree : free → ∀ loc loc', At loc loc')
    (hrules : ∀ rule rule', same rule rule' →
      Grammar.Relabelled free rules rules' same (rules rule) (rules' rule'))
    (h : Grammar.Relabelled free rules rules' same g g') (m n : Nat) (v : Verbosity) :
    (tiers α .any).Steps (SameKind At) Eq ((rules.parser m g).run v)
      ((rules'.parser n g').run v) := by
  induction m using Nat.strongRecOn generalizing g g' n v with
  | ind m ih =>
    exact steps_of_relabelled hAt hfree h
      (fun below hbelow rule rule' hsame n v => ih below hbelow (hrules rule rule' hsame) n v) n v

theorem Relabelled.agree (hAt : ∀ loc, At loc loc) (hfree : free → ∀ loc loc', At loc loc')
    (h : Relabelled free rules rules' g g') {r r' : Except (ParseError α) (Tree α κ × Cursor α)}
    (hr : rules.Yields g v c r) (hr' : rules'.Yields g' v c r') :
    Agree (SameKind At) Eq r r' := by
  obtain ⟨same, hrules, hg⟩ := h
  obtain ⟨m, hm⟩ := hr
  obtain ⟨n, hn⟩ := hr'
  have hruns := steps_of_compared hAt hfree hrules hg m n v c c rfl
  exact (hruns.agree hm hn).imp (fun _ _ he => he) fun _ _ hy => Prod.ext hy.1 hy.2

/-- **Names are diagnostics only.**  Let two grammars without functions differ in the texts of names
and labels, in labelled wrappers, and in references in the place of rules.  Where both come to a
result at one cursor and one verbosity, both succeed with the same output and end, or both fail
with errors of one kind; failed conversions are of the same place and have the same fault.  If
wrappers stand at the same places, expectations are of the same place too. -/
theorem names_are_diagnostic (rules : Rules α κ ρ) (rules' : Rules α κ ρ') (g : Grammar α κ ρ)
    (g' : Grammar α κ ρ') (v : Verbosity) (c : Cursor α)
    (r r' : Except (ParseError α) (Tree α κ × Cursor α)) (hr : rules.Yields g v c r)
    (hr' : rules'.Yields g' v c r') :
    (rules.DifferInLabels rules' g g' → Agree (SameKind fun _ _ => True) Eq r r') ∧
      (rules.DifferInTexts rules' g g' → Agree (SameKind Eq) Eq r r') := by
  constructor
  · intro h
    exact Relabelled.agree (fun _ => trivial) (fun _ _ _ => trivial) h hr hr'
  · intro h
    exact Relabelled.agree (fun _ => rfl) False.elim h hr hr'

end Rules

/-! ## An example -/

/-- Runs of digits and lists of them in parentheses, under names that may be chosen. -/
def Rules.entries (digits list : String) : Rules Char Unit Unit := fun _ =>
  .choice [.takeWhile digits fun e => Nat.ble 48 e.toNat && Nat.ble e.toNat 57,
    .named list
      (.delimited (.tag list ['(']) (.repeated .any (.defer digits ())) (.tag list [')']))]

/-- The same behind a sign. -/
def Grammar.negated (sign : String) (body : Grammar Char Unit Unit) : Grammar Char Unit Unit :=
  .pair (.tag sign ['-']) body

/-- Of `-(1`, with other texts and the rule in the place of its reference, and with a wrapper around
the whole besides: that one moves the place of the expectation. -/
theorem Rules.entries_names :
    (entries "DIGITS" "LIST").DifferInTexts (entries "NUMBER" "GROUP")
        (.negated "MINUS" (.defer "ENTRY" ())) (.negated "SIGN" (entries "NUMBER" "GROUP" ())) ∧
      (entries "DIGITS" "LIST").DifferInLabels (entries "NUMBER" "GROUP")
        (.negated "MINUS" (.defer "ENTRY" ()))
        (.named "NEGATIVE" (.negated "SIGN" (entries "NUMBER" "GROUP" ()))) ∧
      (entries "DIGITS" "LIST").Yields (.negated "MINUS" (.defer "ENTRY" ())) .verbose
        (Cursor.new ['-', '(', '1'])
        (.error (.expected (Parser.alternatives ["DIGITS", "LIST"]) ⟨['-', '(', '1'], 1⟩)) ∧
      Agree (SameKind Eq) (Eq : Tree Char Unit × Cursor Char → _ → Prop)
        (.error (.expected (Parser.alternatives ["DIGITS", "LIST"]) ⟨['-', '(', '1'], 1⟩))
        (.error (.expected (Parser.alternatives ["NUMBER", "GROUP"]) ⟨['-', '(', '1'], 1⟩)) ∧
      Agree (SameKind fun _ _ => True) (Eq : Tree Char Unit × Cursor Char → _ → Prop)
        (.error (.expected (Parser.alternatives ["DIGITS", "LIST"]) ⟨['-', '(', '1'], 1⟩))
        (.error (.expected "NEGATIVE" ⟨['-', '(', '1'], 0⟩)) := by
  have hrule : ∀ free, Grammar.Relabelled free (entries "DIGITS" "LIST") (entries "NUMBER" "GROUP")
      (fun _ _ => True) (entries "DIGITS" "LIST" ()) (entries "NUMBER" "GROUP" ()) := by
    intro free
    refine .choice_of_forall₂ (.cons ?digits (.cons ?list .nil))
    case digits => exact .munch _ _ _
    case list =>
      exact .named _ _ (.delimited (.tag _ _ _) (.repeated _ (.defer _ _ trivial)) (.tag _ _ _))
  have hnegated : ∀ free, Grammar.Relabelled free (entries "DIGITS" "LIST")
      (entries "NUMBER" "GROUP") (fun _ _ => True) (.negated "MINUS" (.defer "ENTRY" ()))
      (.negated "SIGN" (entries "NUMBER" "GROUP" ())) :=
    fun free => .pair (.tag _ _ _) (.deferLeft _ (hrule free))
  have htexts : (entries "DIGITS" "LIST").DifferInTexts (entries "NUMBER" "GROUP")
      (.negated "MINUS" (.defer "ENTRY" ())) (.negated "SIGN" (entries "NUMBER" "GROUP" ())) :=
    ⟨_, fun _ _ _ => hrule False, hnegated False⟩
  have hlabels : (entries "DIGITS" "LIST").DifferInLabels (entries "NUMBER" "GROUP")
      (.negated "MINUS" (.defer "ENTRY" ()))
      (.named "NEGATIVE" (.negated "SIGN" (entries "NUMBER" "GROUP" ()))) :=
    ⟨_, fun _ _ _ => hrule True, .namedRight _ trivial (hnegated True)⟩
  have hyields : (entries "DIGITS" "LIST").Yields (.negated "MINUS" (.defer "ENTRY" ())) .verbose
      (Cursor.new ['-', '(', '1'])
      (.error (.expected (Parser.alternatives ["DIGITS", "LIST"]) ⟨['-', '(', '1'], 1⟩)) :=
    ⟨3, rfl⟩
  have htexts' : (entries "NUMBER" "GROUP").Yields
      (.negated "SIGN" (entries "NUMBER" "GROUP" ())) .verbose (Cursor.new ['-', '(', '1'])
      (.error (.expected (Parser.alternatives ["NUMBER", "GROUP"]) ⟨['-', '(', '1'], 1⟩)) :=
    ⟨3, rfl⟩
  have hlabels' : (entries "NUMBER" "GROUP").Yields
      (.named "NEGATIVE" (.negated "SIGN" (entries "NUMBER" "GROUP" ()))) .verbose
      (Cursor.new ['-', '(', '1']) (.error (.expected "NEGATIVE" ⟨['-', '(', '1'], 0⟩)) := ⟨3, rfl⟩
  have hsame := names_are_diagnostic _ _ _ _ _ _ _ _ hyields htexts'
  have hmoved := names_are_diagnostic _ _ _ _ _ _ _ _ hyields hlabels'
  exact ⟨htexts, hlabels, hyields, hsame.2 htexts, hmoved.1 hlabels⟩

end Descent
