import Descent.Grammar.Shape
import Descent.Proofs.Parts

/-!
# Grammars of one form

Two grammars, perhaps over different elements, are of one form if they are built by the same
constructors, under the same names, and differ at the leaves only: in literals, tests, fixed
outputs and converters.  Which leaves may stand for each other is a parameter (`Counterparts`).

If along a simulation counterparts do the same at corresponding cursors (`Counterparts.Sound`), then
so do grammars of one form over rules of one form (`Rules.steps_of_alike`): both succeed with
outputs that are counterparts, or both fail alike, under the same name and for the same reason, at
corresponding places.  There are no functions in such grammars, because nothing is known of them.
-/

namespace Descent

variable {α α' κ κ' ρ : Type}

/-- Failures that say the same of places that correspond. -/
inductive ParseError.Alike (At : Location α → Location α' → Prop) :
    ParseError α → ParseError α' → Prop
  | invalidInput : Alike At .invalidInput .invalidInput
  | expected (name : String) {loc : Location α} {loc' : Location α'} :
    At loc loc' → Alike At (.expected name loc) (.expected name loc')
  | conversion (name : String) {loc : Location α} {loc' : Location α'} (fault : Fault) :
    At loc loc' → Alike At (.conversion name loc fault) (.conversion name loc' fault)

namespace ParseError.Alike

variable {At : Location α → Location α' → Prop} {c : Cursor α} {c' : Cursor α'}

theorem mismatch (v : Verbosity) (name : String) (h : At c.loc c'.loc) :
    Alike At (.mismatch v name c) (.mismatch v name c') := by
  cases v with
  | terse => exact invalidInput
  | verbose => exact expected name h

theorem relabelled {e : ParseError α} {e' : ParseError α'} (he : Alike At e e') (label : String)
    (h : At c.loc c'.loc) : Alike At (e.relabelled label c) (e'.relabelled label c') := by
  cases he with
  | invalidInput => exact invalidInput
  | expected name _ => exact expected label h
  | conversion name fault hloc => exact conversion name fault hloc

theorem imp {At' : Location α → Location α' → Prop} {e : ParseError α} {e' : ParseError α'}
    (h : e.Alike At e') (hAt : ∀ loc loc', At loc loc' → At' loc loc') : e.Alike At' e' := by
  cases h with
  | invalidInput => exact invalidInput
  | expected name hloc => exact expected name (hAt _ _ hloc)
  | conversion name fault hloc => exact conversion name fault (hAt _ _ hloc)

end ParseError.Alike

/-- What leaves of two grammars of one form may stand for each other. -/
structure Counterparts (α α' κ κ' : Type) where
  literal : List α → List α' → Prop
  /-- Tests of one element. -/
  single : (α → Bool) → (α' → Bool) → Prop
  /-- Tests of the elements of a run. -/
  munch : (α → Bool) → (α' → Bool) → Prop
  output : Tree α κ → Tree α' κ' → Prop
  converter : (Tree α κ → Except Fault (Tree α κ)) →
    (Tree α' κ' → Except Fault (Tree α' κ')) → Prop

/-! ## Along a simulation -/

variable {S : Simulation α α'} {β β' : Type}

/-- Counterparts do the same at corresponding cursors, and what is made of counterparts are
counterparts. -/
structure Counterparts.Sound (M : Counterparts α α' κ κ') (S : Simulation α α')
    (At : Location α → Location α' → Prop) : Prop where
  /-- Nothing is asked of events. -/
  events : ∀ events events', S.events events events'
  loc : ∀ {c c'}, S.cursor c c' → At c.loc c'.loc
  /-- A literal stands at one cursor if its counterpart stands at the other. -/
  literal : ∀ {es es' c c'}, M.literal es es' → S.cursor c c' →
    (es <+: c.remaining ↔ es' <+: c'.remaining) ∧
      (es <+: c.remaining → M.output (.span es) (.span es') ∧
        S.cursor (c.advance es.length) (c'.advance es'.length))
  /-- A test accepts the element at one cursor if its counterpart does so at the other. -/
  single : ∀ {test test' c c'}, M.single test test' → S.cursor c c' →
    Option.Rel (fun e e' => M.output (.elem e) (.elem e') ∧ S.cursor c.next c'.next)
      (c.value.filter test) (c'.value.filter test')
  /-- Tests find runs at corresponding cursors that end at corresponding cursors. -/
  munch : ∀ {test test' c c'}, M.munch test test' → S.cursor c c' →
    (c.remaining.takeWhile test = [] ↔ c'.remaining.takeWhile test' = []) ∧
      M.output (.span (c.remaining.takeWhile test)) (.span (c'.remaining.takeWhile test')) ∧
      S.cursor (c.advance (c.remaining.takeWhile test).length)
        (c'.advance (c'.remaining.takeWhile test').length)
  /-- Spans between corresponding cursors are counterparts. -/
  span : ∀ {c c' next next'}, S.cursor c c' → S.cursor next next' →
    M.output (.span (next.consumedSince c)) (.span (next'.consumedSince c'))
  unit : M.output .unit .unit
  list : ∀ {ts ts'}, List.Forall₂ M.output ts ts' → M.output (.list ts) (.list ts')
  pair : ∀ {first first' second second'}, M.output first first' → M.output second second' →
    M.output (.pair first second) (.pair first' second')
  entries : ∀ {t t'}, M.output t t' → List.Forall₂ M.output t.entries t'.entries
  converter : ∀ {f f'}, M.converter f f' → ∀ t t', M.output t t' → Agree Eq M.output (f t) (f' t')

/-- Fewer leaves that may stand for each other do the same too. -/
theorem Counterparts.Sound.of_imp {M M' : Counterparts α α' κ κ'}
    {At : Location α → Location α' → Prop} (hM' : M'.Sound S At)
    (hliteral : ∀ es es', M.literal es es' → M'.literal es es')
    (hsingle : ∀ test test', M.single test test' → M'.single test test')
    (hmunch : ∀ test test', M.munch test test' → M'.munch test test')
    (houtput : M.output = M'.output)
    (hconverter : ∀ f f', M.converter f f' → M'.converter f f') : M.Sound S At := by
  obtain ⟨literal, single, munch, output, converter⟩ := M
  dsimp only at houtput
  subst houtput
  exact {
    events := hM'.events
    loc := hM'.loc
    literal := fun h => hM'.literal (hliteral _ _ h)
    single := fun h => hM'.single (hsingle _ _ h)
    munch := fun h => hM'.munch (hmunch _ _ h)
    span := hM'.span
    unit := hM'.unit
    list := hM'.list
    pair := hM'.pair
    entries := hM'.entries
    converter := fun h => hM'.converter (hconverter _ _ h) }

namespace Counterparts.Sound

variable {M : Counterparts α α' κ κ'} {S : Simulation α α'}
  {At : Location α → Location α' → Prop} (hM : M.Sound S At) {name : String} {v : Verbosity}

include hM

theorem steps_tag [DecidableEq α] [DecidableEq α'] {literal : List α} {literal' : List α'}
    (h : M.literal literal literal') :
    S.Steps (ParseError.Alike At) M.output (((Parser.tag name literal).map .span).run v)
      (((Parser.tag name literal').map .span).run v) := by
  refine Simulation.steps_of_outcomes hM.events ?_ ?_
  · intro c c' t next hc ht
    obtain ⟨es, hes, rfl⟩ := Parser.accepts_map.mp ht
    obtain ⟨hstands, rfl, rfl⟩ := Parser.accepts_tag.mp hes
    obtain ⟨hiff, hnext⟩ := hM.literal h hc
    obtain ⟨hspan, hcursor⟩ := hnext hstands
    have htag : ((Parser.tag name literal').run v).Accepts c' literal'
        (c'.advance literal'.length) := Parser.accepts_tag.mpr ⟨hiff.mp hstands, rfl, rfl⟩
    exact ⟨_, _, Parser.accepts_map.mpr ⟨_, htag, rfl⟩, hspan, hcursor⟩
  · intro c c' e hc he
    obtain ⟨hnot, rfl⟩ := Parser.rejects_tag.mp (Parser.rejects_map.mp he)
    have hnot' := fun hstands => hnot ((hM.literal h hc).1.mpr hstands)
    exact ⟨_, Parser.rejects_map.mpr (Parser.rejects_tag.mpr ⟨hnot', rfl⟩),
      ParseError.Alike.mismatch v name (hM.loc hc)⟩

theorem steps_single {test : α → Bool} {test' : α' → Bool} (h : M.single test test') :
    S.Steps (ParseError.Alike At) M.output (((Parser.takeSingle name test).map .elem).run v)
      (((Parser.takeSingle name test').map .elem).run v) := by
  refine Simulation.steps_of_outcomes hM.events ?_ ?_
  · intro c c' t next hc ht
    obtain ⟨e, he, rfl⟩ := Parser.accepts_map.mp ht
    obtain ⟨hvalue, haccepts, rfl⟩ := Parser.accepts_takeSingle.mp he
    have hrel := hM.single h hc
    rw [Option.filter_eq_some_iff.mpr ⟨hvalue, haccepts⟩] at hrel
    cases hvalue' : c'.value.filter test' with
    | none => rw [hvalue'] at hrel; exact nomatch hrel
    | some e' =>
      rw [hvalue', Option.rel_some_some] at hrel
      obtain ⟨hread, haccepts'⟩ := Option.filter_eq_some_iff.mp hvalue'
      have hsingle : ((Parser.takeSingle name test').run v).Accepts c' e' c'.next :=
        Parser.accepts_takeSingle.mpr ⟨hread, haccepts', rfl⟩
      exact ⟨_, _, Parser.accepts_map.mpr ⟨e', hsingle, rfl⟩, hrel⟩
  · intro c c' e hc he
    obtain ⟨hnot, rfl⟩ := Parser.rejects_takeSingle.mp (Parser.rejects_map.mp he)
    have hnone : c.value.filter test = none :=
      Option.filter_eq_none_iff.mpr fun x hx => Bool.eq_false_iff.mp (hnot x hx)
    have hrel := hM.single h hc
    rw [hnone] at hrel
    have hnone' : c'.value.filter test' = none := by
      cases hvalue' : c'.value.filter test' with
      | none => rfl
      | some e' => rw [hvalue'] at hrel; exact nomatch hrel
    have hnot' : ∀ x, c'.value = some x → test' x = false :=
      fun x hx => Bool.eq_false_iff.mpr (Option.filter_eq_none_iff.mp hnone' x hx)
    exact ⟨_, Parser.rejects_map.mpr (Parser.rejects_takeSingle.mpr ⟨hnot', rfl⟩),
      ParseError.Alike.mismatch v name (hM.loc hc)⟩

theorem steps_munch {test : α → Bool} {test' : α' → Bool} (h : M.munch test test') :
    S.Steps (ParseError.Alike At) M.output (((Parser.takeWhile name test).map .span).run v)
      (((Parser.takeWhile name test').map .span).run v) := by
  refine Simulation.steps_of_outcomes hM.events ?_ ?_
  · intro c c' t next hc ht
    obtain ⟨es, hes, rfl⟩ := Parser.accepts_map.mp ht
    obtain ⟨rfl, hne, rfl⟩ := Parser.accepts_takeWhile.mp hes
    obtain ⟨hnil, hspan, hcursor⟩ := hM.munch h hc
    have hne' : c'.remaining.takeWhile test' ≠ [] := fun hnil' => hne (hnil.mpr hnil')
    have hrun : ((Parser.takeWhile name test').run v).Accepts c' (c'.remaining.takeWhile test')
        (c'.advance (c'.remaining.takeWhile test').length) :=
      Parser.accepts_takeWhile.mpr ⟨rfl, hne', rfl⟩
    exact ⟨_, _, Parser.accepts_map.mpr ⟨_, hrun, rfl⟩, hspan, hcursor⟩
  · intro c c' e hc he
    obtain ⟨hnil, rfl⟩ := Parser.rejects_takeWhile.mp (Parser.rejects_map.mp he)
    have hnil' := (hM.munch h hc).1.mp hnil
    exact ⟨_, Parser.rejects_map.mpr (Parser.rejects_takeWhile.mpr ⟨hnil', rfl⟩),
      ParseError.Alike.mismatch v name (hM.loc hc)⟩

omit hM in
theorem steps_nothing : S.Steps (ParseError.Alike At) (fun _ _ => True)
    ((Parser.nothing : Parser α Unit).run v) ((Parser.nothing : Parser α' Unit).run v) :=
  fun _ _ hc => Simulation.runs_pure ⟨trivial, hc⟩

theorem runs_converted {β β' : Type} {Rx : β → β' → Prop} {c next : Cursor α}
    {c' next' : Cursor α'} (hc : S.cursor c c') (hnext : S.cursor next next')
    {r : Except Fault β} {r' : Except Fault β'} (h : Agree Eq Rx r r') :
    S.Runs (ParseError.Alike At) (S.Output Rx) (Parser.converted name c next r)
      (Parser.converted name c' next' r') := by
  cases h with
  | ok hx => exact Simulation.runs_pure ⟨hx, hnext⟩
  | @error fault _ he =>
    subst he
    rw [Parser.converted, Parser.converted, Run.emit_bind, Run.emit_bind]
    refine Simulation.Runs.after ?_ (hM.events _ _)
    exact Simulation.runs_fail (ParseError.Alike.conversion name fault (hM.loc hc))

theorem runs_exhausted {β β' : Type} {Rx : β → β' → Prop} {ps : List (Parser α β)}
    {ps' : List (Parser α' β')} (hname : (Parser.choice ps).name = (Parser.choice ps').name)
    {c : Cursor α} {c' : Cursor α'} (hc : S.cursor c c') :
    S.Runs (ParseError.Alike At) (S.Output Rx) (Parser.exhausted ps v c)
      (Parser.exhausted ps' v c') := by
  cases v with
  | terse => exact Simulation.runs_fail ParseError.Alike.invalidInput
  | verbose =>
    unfold Parser.exhausted
    rw [hname, Run.emit_bind, Run.emit_bind]
    refine Simulation.Runs.after ?_ (hM.events _ _)
    exact Simulation.runs_fail (ParseError.Alike.expected (Parser.choice ps').name (hM.loc hc))

end Counterparts.Sound

/-! ## Grammars -/

variable [DecidableEq α] [DecidableEq α']

/-- Grammars of one form, whose leaves are counterparts. -/
inductive Grammar.Alike (M : Counterparts α α' κ κ') : Grammar α κ ρ → Grammar α' κ' ρ → Prop
  | tag (name : String) {literal : List α} {literal' : List α'} :
    M.literal literal literal' → Alike M (.tag name literal) (.tag name literal')
  | single (name : String) {cls : ElementClass α} {cls' : ElementClass α'} :
    M.single cls.accepts cls'.accepts → Alike M (.single name cls) (.single name cls')
  | munch (name : String) {cls : ElementClass α} {cls' : ElementClass α'} :
    M.munch cls.accepts cls'.accepts → Alike M (.munch name cls) (.munch name cls')
  | nothing : Alike M .nothing .nothing
  | sequence {parts : List (Grammar α κ ρ)} {parts' : List (Grammar α' κ' ρ)} :
    List.Forall₂ (Alike M) parts parts' → Alike M (.sequence parts) (.sequence parts')
  | choice {parts : List (Grammar α κ ρ)} {parts' : List (Grammar α' κ' ρ)} :
    List.Forall₂ (Alike M) parts parts' → Alike M (.choice parts) (.choice parts')
  | pair {first second : Grammar α κ ρ} {first' second' : Grammar α' κ' ρ} :
    Alike M first first' → Alike M second second' →
      Alike M (.pair first second) (.pair first' second')
  | delimited {before body behind : Grammar α κ ρ} {before' body' behind' : Grammar α' κ' ρ} :
    Alike M before before' → Alike M body body' → Alike M behind behind' →
      Alike M (.delimited before body behind) (.delimited before' body' behind')
  | orDefault {fallback : Tree α κ} {fallback' : Tree α' κ'} {body : Grammar α κ ρ}
    {body' : Grammar α' κ' ρ} :
    M.output fallback fallback' → Alike M body body' →
      Alike M (.orDefault fallback body) (.orDefault fallback' body')
  | repeated (bounds : Bounds) {body : Grammar α κ ρ} {body' : Grammar α' κ' ρ} :
    Alike M body body' → Alike M (.repeated bounds body) (.repeated bounds body')
  | separated (bounds : Bounds) {body delimiter : Grammar α κ ρ}
    {body' delimiter' : Grammar α' κ' ρ} :
    Alike M body body' → Alike M delimiter delimiter' →
      Alike M (.separated bounds body delimiter) (.separated bounds body' delimiter')
  | named (label : String) {body : Grammar α κ ρ} {body' : Grammar α' κ' ρ} :
    Alike M body body' → Alike M (.named label body) (.named label body')
  | convert {body : Grammar α κ ρ} {body' : Grammar α' κ' ρ}
    {f : Tree α κ → Except Fault (Tree α κ)} {f' : Tree α' κ' → Except Fault (Tree α' κ')} :
    Alike M body body' → M.converter f f' → Alike M (.convert body f) (.convert body' f')
  | mapEach {body : Grammar α κ ρ} {body' : Grammar α' κ' ρ}
    {f : Tree α κ → Except Fault (Tree α κ)} {f' : Tree α' κ' → Except Fault (Tree α' κ')} :
    Alike M body body' → M.converter f f' → Alike M (.mapEach body f) (.mapEach body' f')
  | replace {value : Tree α κ} {value' : Tree α' κ'} {body : Grammar α κ ρ}
    {body' : Grammar α' κ' ρ} :
    M.output value value' → Alike M body body' →
      Alike M (.replace value body) (.replace value' body')
  | matchOnly {body : Grammar α κ ρ} {body' : Grammar α' κ' ρ} :
    Alike M body body' → Alike M (.matchOnly body) (.matchOnly body')
  | defer (label : String) (rule : ρ) : Alike M (.defer label rule) (.defer label rule)

/-- Grammars of one form have one name. -/
theorem Grammar.Alike.name_eq {M : Counterparts α α' κ κ'} {g : Grammar α κ ρ}
    {g' : Grammar α' κ' ρ} (h : Alike M g g') (rules : Rules α κ ρ) (rules' : Rules α' κ' ρ)
    (levels : Nat) : (rules.parser levels g).name = (rules'.parser levels g').name := by
  have hlist : ∀ {gs : List (Grammar α κ ρ)} {gs' : List (Grammar α' κ' ρ)},
      List.Forall₂ (Alike M) gs gs' →
      (∀ g ∈ gs, ∀ g', Alike M g g' →
        (rules.parser levels g).name = (rules'.parser levels g').name) →
      (gs.map (rules.parser levels)).map Parser.name =
        (gs'.map (rules'.parser levels)).map Parser.name := by
    intro gs gs' hgs ih
    rw [List.map_map, List.map_map, ← List.forall₂_eq_eq_eq]
    exact forall₂_map_of_forall₂ hgs ih
  induction g using Grammar.induct generalizing g' with
  | tag | single | munch | nothing | named | defer =>
    cases h
    rfl
  | sequence parts ih =>
    cases h with
    | sequence hparts =>
      rw [Rules.parser_sequence, Rules.parser_sequence]
      exact congrArg Parser.bracketed (hlist hparts fun g hg g' h => ih g hg h)
  | choice alternatives ih =>
    cases h with
    | choice hparts =>
      rw [Rules.parser_choice, Rules.parser_choice]
      exact congrArg Parser.alternatives (hlist hparts fun g hg g' h => ih g hg h)
  | pair first second ihFirst ihSecond =>
    cases h with
    | pair hfirst hsecond =>
      exact congrArg₂ (fun a b => Parser.bracketed [a, b]) (ihFirst hfirst) (ihSecond hsecond)
  | delimited before body behind ihBefore ihBody ihBehind =>
    cases h with
    | delimited hbefore hbody hbehind =>
      have hfront := congrArg₂ (fun a b => a ++ ", " ++ b) (ihBefore hbefore) (ihBody hbody)
      exact congrArg₂ (fun a b => a ++ ", " ++ b) hfront (ihBehind hbehind)
  | orDefault fallback body ih =>
    cases h with
    | orDefault _ hbody =>
      have hname := ih hbody
      exact hname
  | repeated bounds body ih =>
    cases h with
    | repeated _ hbody =>
      exact congrArg (fun a => "multiple [" ++ a ++ "]") (ih hbody)
  | separated bounds body delimiter ihBody ihDelimiter =>
    cases h with
    | separated _ hbody hdelimiter =>
      exact congrArg₂ (fun a b => "multiple [" ++ a ++ "] separated by [" ++ b ++ "]")
        (ihBody hbody) (ihDelimiter hdelimiter)
  | convert body f ih =>
    cases h with
    | convert hbody _ =>
      have hname := ih hbody
      exact hname
  | mapEach body f ih =>
    cases h with
    | mapEach hbody _ =>
      have hname := ih hbody
      exact hname
  | replace value body ih =>
    cases h with
    | replace _ hbody =>
      have hname := ih hbody
      exact hname
  | matchOnly body ih =>
    cases h with
    | matchOnly hbody =>
      have hname := ih hbody
      exact hname
  | func run => cases h

/-- Grammars of one form have outputs of one kind. -/
theorem Grammar.Alike.shape_eq {M : Counterparts α α' κ κ'}
    {g : Grammar α κ ρ} {g' : Grammar α' κ' ρ} (h : Alike M g g') : g.shape = g'.shape := by
  induction g using Grammar.induct generalizing g' with
  | choice alternatives ih =>
    cases h with
    | choice hparts =>
      have hshapes : alternatives.map shape = _ :=
        List.forall₂_eq_eq_eq ▸ forall₂_map_of_forall₂ hparts fun g hg g' h => ih g hg h
      rw [shape, shape, shapes_eq_map, shapes_eq_map, hshapes]
  | delimited before body behind ihBefore ihBody ihBehind =>
    cases h with
    | delimited _ hbody _ => simpa only [shape] using ihBody hbody
  | orDefault fallback body ih =>
    cases h with
    | orDefault _ hbody => simpa only [shape] using ih hbody
  | named label body ih =>
    cases h with
    | named _ hbody => simpa only [shape] using ih hbody
  | func run => cases h
  | _ =>
    cases h
    simp only [shape]

namespace Rules

/-- The two grammars are of one form, and so are all rules that the first one refers to and those of
the same name. -/
structure Alike (M : Counterparts α α' κ κ') (rules : Rules α κ ρ) (rules' : Rules α' κ' ρ)
    (g : Grammar α κ ρ) (g' : Grammar α' κ' ρ) : Prop where
  grammar : g.Alike M g'
  rule : ∀ label rule, rules.Contains g (.defer label rule) → (rules rule).Alike M (rules' rule)

variable {M : Counterparts α α' κ κ'} {S : Simulation α α'}
  {At : Location α → Location α' → Prop} {rules : Rules α κ ρ} {rules' : Rules α' κ' ρ}
  {g q : Grammar α κ ρ} {g' q' : Grammar α' κ' ρ}

theorem Alike.part (h : Alike M rules rules' g g') (hq : q ∈ g.parts) (hqq' : q.Alike M q') :
    Alike M rules rules' q q' :=
  ⟨hqq', fun label rule hrule => h.rule label rule (Reaches.part hq hrule)⟩

theorem Alike.referred {label : String} {rule : ρ}
    (h : Alike M rules rules' (.defer label rule) g') :
    Alike M rules rules' (rules rule) (rules' rule) :=
  ⟨h.rule label rule (Reaches.self _),
    fun label' rule' hrule => h.rule label' rule' (Reaches.rule hrule)⟩

/-- **Grammars of one form do the same.**  Along a simulation in which counterparts do the same,
grammars of one form over rules of one form have related runs, at every number of levels and at
either verbosity. -/
theorem steps_of_alike (hM : M.Sound S At) (levels : Nat) (h : Alike M rules rules' g g')
    (v : Verbosity) :
    S.Steps (ParseError.Alike At) M.output ((rules.parser levels g).run v)
      ((rules'.parser levels g').run v) := by
  induction levels, g using Rules.induct rules generalizing g' v with
  | tag levels name literal =>
    cases h.grammar with
    | tag _ hliteral =>
      rw [parser_tag, parser_tag]
      exact hM.steps_tag hliteral
  | single levels name cls =>
    cases h.grammar with
    | single _ hsingle =>
      rw [parser_single, parser_single]
      exact hM.steps_single hsingle
  | munch levels name cls =>
    cases h.grammar with
    | munch _ hmunch =>
      rw [parser_munch, parser_munch]
      exact hM.steps_munch hmunch
  | nothing levels =>
    cases h.grammar with
    | nothing =>
      rw [parser_nothing, parser_nothing]
      exact Simulation.steps_map Counterparts.Sound.steps_nothing fun _ _ _ => hM.unit
  | sequence levels parts ih =>
    cases h.grammar with
    | @sequence _ parts' hparts =>
      rw [parser_sequence, parser_sequence]
      have hsteps : List.Forall₂
          (fun p p' => S.Steps (ParseError.Alike At) M.output (p.run v) (p'.run v))
          (parts.map (rules.parser levels)) (parts'.map (rules'.parser levels)) :=
        forall₂_map_of_forall₂ hparts fun q hq q' hqq' => ih q hq (h.part hq hqq') v
      exact Simulation.steps_map (Simulation.steps_sequence hsteps) fun _ _ => hM.list
  | choice levels alternatives ih =>
    have hname := h.grammar.name_eq rules rules' levels
    cases h.grammar with
    | @choice _ parts' hparts =>
      rw [parser_choice, parser_choice] at hname ⊢
      have hsteps : List.Forall₂
          (fun p p' => S.Steps (ParseError.Alike At) M.output (p.run .terse) (p'.run .terse))
          (alternatives.map (rules.parser levels)) (parts'.map (rules'.parser levels)) :=
        forall₂_map_of_forall₂ hparts fun q hq q' hqq' => ih q hq (h.part hq hqq') .terse
      exact Simulation.steps_choice hsteps fun c c' hc => hM.runs_exhausted hname hc
  | pair levels first second ihFirst ihSecond =>
    cases h.grammar with
    | pair hfirst hsecond =>
      rw [parser_pair, parser_pair]
      have hsteps := Simulation.steps_pair
        (ihFirst (h.part (by simp) hfirst) v) (ihSecond (h.part (by simp) hsecond) v)
      exact Simulation.steps_map hsteps fun _ _ h => hM.pair h.1 h.2
  | delimited levels before body behind ihBefore ihBody ihBehind =>
    cases h.grammar with
    | delimited hbefore hbody hbehind =>
      rw [parser_delimited, parser_delimited]
      exact Simulation.steps_delimited (ihBefore (h.part (by simp) hbefore) v)
        (ihBody (h.part (by simp) hbody) v) (ihBehind (h.part (by simp) hbehind) v)
  | orDefault levels fallback body ih =>
    cases h.grammar with
    | orDefault hfallback hbody =>
      rw [parser_orDefault, parser_orDefault]
      exact Simulation.steps_orDefault (ih (h.part (by simp) hbody) .terse) hfallback
  | repeated levels bounds body ih =>
    cases h.grammar with
    | repeated _ hbody =>
      rw [parser_repeated, parser_repeated]
      refine Simulation.steps_map (Simulation.steps_listOf (ih (h.part (by simp) hbody) v)
        Counterparts.Sound.steps_nothing (Or.inr (Nat.le_refl _)) ?_ ?_) fun _ _ => hM.list
      · exact fun _ _ _ _ => hM.events _ _
      · intro c c' hc
        rw [hbody.name_eq rules rules' levels]
        exact ParseError.Alike.mismatch v _ (hM.loc hc)
  | separated levels bounds body delimiter ihBody ihDelimiter =>
    cases h.grammar with
    | separated _ hbody hdelimiter =>
      rw [parser_separated, parser_separated]
      refine Simulation.steps_map (Simulation.steps_listOf (ihBody (h.part (by simp) hbody) v)
        (ihDelimiter (h.part (by simp) hdelimiter) v) (Or.inr (Nat.le_refl _)) ?_ ?_)
        fun _ _ => hM.list
      · exact fun _ _ _ _ => hM.events _ _
      · intro c c' hc
        rw [hbody.name_eq rules rules' levels, hdelimiter.name_eq rules rules' levels]
        exact ParseError.Alike.mismatch v _ (hM.loc hc)
  | named levels label body ih =>
    cases h.grammar with
    | named _ hbody =>
      rw [parser_named, parser_named]
      refine Simulation.steps_named (ih (h.part (by simp) hbody) v) ?_
      exact fun c c' e e' hc he => he.relabelled label (hM.loc hc)
  | convert levels body f ih =>
    cases h.grammar with
    | convert hbody hf =>
      rw [parser_convert, parser_convert]
      refine Simulation.steps_convert (ih (h.part (by simp) hbody) v) ?_
      intro c c' next next' t t' hc hnext ht
      rw [hbody.name_eq rules rules' levels]
      exact hM.runs_converted hc hnext (hM.converter hf t t' ht)
  | mapEach levels body f ih =>
    cases h.grammar with
    | mapEach hbody hf =>
      rw [parser_mapEach, parser_mapEach]
      have hentries := Simulation.steps_map (ih (h.part (by simp) hbody) v)
        fun _ _ => hM.entries
      refine Simulation.steps_map (Simulation.steps_convert hentries ?_) fun _ _ => hM.list
      intro c c' next next' ts ts' hc hnext hts
      rw [Parser.name_map, Parser.name_map, hbody.name_eq rules rules' levels]
      exact hM.runs_converted hc hnext (Agree.mapM (hM.converter hf) hts)
  | replace levels value body ih =>
    cases h.grammar with
    | replace hvalue hbody =>
      rw [parser_replace, parser_replace]
      exact Simulation.steps_map (ih (h.part (by simp) hbody) v) fun _ _ _ => hvalue
  | matchOnly levels body ih =>
    cases h.grammar with
    | matchOnly hbody =>
      rw [parser_matchOnly, parser_matchOnly]
      have hspans : S.Steps (ParseError.Alike At) (fun es es' => M.output (.span es) (.span es'))
          ((rules.parser levels body).matchOnly.run v)
          ((rules'.parser levels _).matchOnly.run v) :=
        Simulation.steps_matchOnly (ih (h.part (by simp) hbody) v) fun _ _ _ _ => hM.span
      exact Simulation.steps_map hspans fun _ _ h => h
  | cutOff label rule =>
    cases h.grammar
    exact fun c c' _ => trivial
  | defer levels label rule ih =>
    cases h.grammar with
    | defer =>
      rw [parser_defer_succ, parser_defer_succ]
      exact ih h.referred v
  | func levels run => cases h.grammar

variable {v : Verbosity} {c : Cursor α} {c' : Cursor α'}
  {r : Except (ParseError α) (Tree α κ × Cursor α)}
  {r' : Except (ParseError α') (Tree α' κ' × Cursor α')}

/-- The second of two grammars of one form comes to a result if the first does. -/
theorem returns_of_alike (hM : M.Sound S At) (h : Alike M rules rules' g g')
    (hlossy : ¬ S.lossy) (hc : S.cursor c c') (hr : rules.Yields g v c r) :
    ∃ r', rules'.Yields g' v c' r' := by
  obtain ⟨levels, hr⟩ := hr
  obtain ⟨r', hr'⟩ := (steps_of_alike hM levels h v c c' hc).returns hlossy hr
  exact ⟨r', levels, hr'⟩

/-- Results of two grammars of one form are alike. -/
theorem agree_of_alike (hM : M.Sound S At) (h : Alike M rules rules' g g') (hc : S.cursor c c')
    (hr : rules.Yields g v c r) (hr' : rules'.Yields g' v c' r') :
    Agree (ParseError.Alike At) (S.Output M.output) r r' := by
  obtain ⟨m, hr⟩ := hr
  obtain ⟨n, hr'⟩ := hr'
  exact (steps_of_alike hM (max m n) h v c c' hc).agree (result?_eq_of_le (Nat.le_max_left m n) hr)
    (result?_eq_of_le (Nat.le_max_right m n) hr')

end Rules

/-! ## Grammars that are their own counterparts -/

/-- Every leaf may stand for itself. -/
structure Counterparts.Reflexive (M : Counterparts α α κ κ) : Prop where
  literal : ∀ es, M.literal es es
  single : ∀ test, M.single test test
  munch : ∀ test, M.munch test test
  output : ∀ t, M.output t t
  converter : ∀ f, M.converter f f

namespace Rules

variable {M : Counterparts α α κ κ} {rules : Rules α κ ρ} {g : Grammar α κ ρ}

theorem FuncFree.alike_grammar (hM : M.Reflexive) (h : rules.FuncFree g) : g.Alike M g := by
  have hlist : ∀ {gs : List (Grammar α κ ρ)}, (∀ q ∈ gs, q.Alike M q) →
      List.Forall₂ (Grammar.Alike M) gs gs := fun h => List.forall₂_same.mpr h
  induction g using Grammar.induct with
  | tag name literal => exact Grammar.Alike.tag name (hM.literal literal)
  | single name cls => exact Grammar.Alike.single name (hM.single _)
  | munch name cls => exact Grammar.Alike.munch name (hM.munch _)
  | nothing => exact Grammar.Alike.nothing
  | sequence parts ih => exact Grammar.Alike.sequence (hlist fun q hq => ih q hq (h.part hq))
  | choice alternatives ih => exact Grammar.Alike.choice (hlist fun q hq => ih q hq (h.part hq))
  | pair first second ihFirst ihSecond =>
    exact Grammar.Alike.pair (ihFirst (h.part (by simp))) (ihSecond (h.part (by simp)))
  | delimited before body behind ihBefore ihBody ihBehind =>
    exact Grammar.Alike.delimited (ihBefore (h.part (by simp))) (ihBody (h.part (by simp)))
      (ihBehind (h.part (by simp)))
  | orDefault fallback body ih =>
    exact Grammar.Alike.orDefault (hM.output fallback) (ih (h.part (by simp)))
  | repeated bounds body ih => exact Grammar.Alike.repeated bounds (ih (h.part (by simp)))
  | separated bounds body delimiter ihBody ihDelimiter =>
    exact Grammar.Alike.separated bounds (ihBody (h.part (by simp)))
      (ihDelimiter (h.part (by simp)))
  | named label body ih => exact Grammar.Alike.named label (ih (h.part (by simp)))
  | convert body f ih => exact Grammar.Alike.convert (ih (h.part (by simp))) (hM.converter f)
  | mapEach body f ih => exact Grammar.Alike.mapEach (ih (h.part (by simp))) (hM.converter f)
  | replace value body ih =>
    exact Grammar.Alike.replace (hM.output value) (ih (h.part (by simp)))
  | matchOnly body ih => exact Grammar.Alike.matchOnly (ih (h.part (by simp)))
  | defer label rule => exact Grammar.Alike.defer label rule
  | func run => exact absurd h (not_funcFree_func run)

/-- A grammar without functions is of one form with itself. -/
theorem FuncFree.alike (hM : M.Reflexive) (h : rules.FuncFree g) :
    Alike M rules rules g g where
  grammar := h.alike_grammar hM
  rule _ _ hrule := (h.found hrule).rule.alike_grammar hM

end Rules

end Descent
